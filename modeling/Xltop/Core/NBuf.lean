import Xltop.Core.Text
import Xltop.Library.Memory
import Mathlib.Data.List.TakeWhile

/-!
# Buffers

An `n_buf` is a block of memory of which the bytes from `nb_start` up to
`nb_end` are in use.  Each operation has one lemma that says what it does to
these bytes; nothing else about the memory is used outside of this module.
-/

namespace Xltop.Buffer

open Function
open Xltop.Memory
open Xltop.Text

structure NBuf where
  nbBuf : ℕ → Byte
  nbSize : ℕ
  nbStart : ℕ
  nbEnd : ℕ

/-- The asserts of `n_buf_check`. -/
structure NBuf.Check (nb : NBuf) : Prop where
  start_le : nb.nbStart ≤ nb.nbEnd
  end_le : nb.nbEnd ≤ nb.nbSize

/-- The bytes in use. -/
def NBuf.data (nb : NBuf) : List Byte :=
  slice nb.nbBuf nb.nbStart (nb.nbEnd - nb.nbStart)

/-- What `read` or `write` does: up to `n` bytes go through, where none is
`EAGAIN`; or there is an error. -/
inductive Rc where
  | ok (n : ℕ)
  | error
  deriving DecidableEq, Repr

/-- `n_buf_init` with the block that `malloc` returned. -/
def nBufInit (block : ℕ → Byte) (size : ℕ) : NBuf :=
  ⟨block, size, 0, 0⟩

/-- A buffer that the text fills. -/
def textBuf (text : CString) : NBuf :=
  ⟨blit (fun _ => 0) 0 text, text.length, 0, text.length⟩

def nBufClear (nb : NBuf) : NBuf :=
  { nb with nbStart := 0, nbEnd := 0 }

def nBufLength (nb : NBuf) : ℕ :=
  nb.nbEnd - nb.nbStart

def nBufIsEmpty (nb : NBuf) : Bool :=
  nb.nbStart == nb.nbEnd

def nBufPullup (nb : NBuf) : NBuf :=
  if 0 < nb.nbStart then
    { nb with
      nbBuf := blit nb.nbBuf 0 nb.data
      nbEnd := nb.nbEnd - nb.nbStart
      nbStart := 0 }
  else nb

/-- A buffer after `n_buf_fill`, and what is left to read. -/
structure Filled where
  nb : NBuf
  unread : List Byte
  eof : Bool
  err : Bool

/-- `n_buf_fill` on a file from which `unread` can be read up to its end. -/
def nBufFill (nb : NBuf) (unread : List Byte) (rc : Rc) : Filled :=
  let nb := nBufPullup nb
  if nb.nbEnd = nb.nbSize then ⟨nb, unread, false, true⟩ -- ENOBUFS
  else
    match rc with
    | .error => ⟨nb, unread, false, true⟩
    | .ok n =>
        let got := unread.take (min n (nb.nbSize - nb.nbEnd))
        ⟨{ nb with
            nbBuf := blit nb.nbBuf nb.nbEnd got
            nbEnd := nb.nbEnd + got.length },
          unread.drop got.length, 0 < n && unread.isEmpty, false⟩

/-- A buffer after `n_buf_drain`, and what was written. -/
structure Drained where
  nb : NBuf
  out : List Byte
  eof : Bool
  err : Bool

def nBufDrain (nb : NBuf) (rc : Rc) : Drained :=
  if nBufIsEmpty nb then ⟨nb, [], true, false⟩
  else
    match rc with
    | .error => ⟨nb, [], false, true⟩
    | .ok n =>
        let out := nb.data.take n
        let nb := if 0 < out.length then
            nBufPullup { nb with nbStart := nb.nbStart + out.length }
          else nb
        ⟨nb, out, nBufIsEmpty nb, false⟩

/-- `n_buf_get_msg`: the message, and the buffer with a NUL for its newline. -/
def nBufGetMsg (nb : NBuf) : Option (List Byte × NBuf) :=
  if 10 ∈ nb.data then
    let msg := nb.data.takeWhile (· != 10)
    some (msg, { nb with
      nbBuf := update nb.nbBuf (nb.nbStart + msg.length) 0
      nbStart := nb.nbStart + msg.length + 1 })
  else none

/-- The messages of the next `fuel` calls of `n_buf_get_msg`. -/
def nBufTake : ℕ → NBuf → List (List Byte)
  | 0, _ => []
  | fuel + 1, nb =>
      match nBufGetMsg nb with
      | some (msg, nb) => msg :: nBufTake fuel nb
      | none => []

/-- The messages of the loop `while (n_buf_get_msg(nb, ..) == 0)`. -/
def nBufMsgs (nb : NBuf) : List (List Byte) :=
  nBufTake (nBufLength nb) nb

/-- `n_buf_printf` of a formatted text; `vsnprintf` always ends it with a NUL. -/
def nBufPrintf (nb : NBuf) (text : CString) : NBuf :=
  let max := nb.nbSize - nb.nbEnd
  let out := if max = 0 then [] else text.take (max - 1) ++ [0]
  { nb with
    nbBuf := blit nb.nbBuf nb.nbEnd out
    nbEnd := nb.nbEnd + min text.length max }

/-! ## What the operations do to the bytes in use -/

variable {nb : NBuf}

@[simp]
theorem length_data (nb : NBuf) : nb.data.length = nBufLength nb :=
  length_slice ..

theorem data_eq_nil (h : nb.Check) : nb.data = [] ↔ nb.nbStart = nb.nbEnd := by
  rw [← List.length_eq_zero_iff, length_data, nBufLength]
  have hle := h.start_le
  omega

theorem nBufIsEmpty_iff (h : nb.Check) : nBufIsEmpty nb = true ↔ nb.data = [] := by
  rw [nBufIsEmpty, beq_iff_eq, data_eq_nil h]

theorem length_data_le (h : nb.Check) : nb.data.length ≤ nb.nbSize := by
  rw [length_data, nBufLength]
  have hle := h.end_le
  omega

/-- A buffer that begins at its block and is not full has room. -/
theorem length_data_of_start (hstart : nb.nbStart = 0) :
    nb.data.length = nb.nbEnd := by
  rw [length_data, nBufLength, hstart, Nat.sub_zero]

theorem check_init (block : ℕ → Byte) (size : ℕ) : (nBufInit block size).Check :=
  ⟨le_rfl, Nat.zero_le _⟩

theorem check_clear (nb : NBuf) : (nBufClear nb).Check :=
  ⟨le_rfl, Nat.zero_le _⟩

@[simp]
theorem data_init (block : ℕ → Byte) (size : ℕ) : (nBufInit block size).data = [] := rfl

theorem check_textBuf (text : CString) : (textBuf text).Check :=
  ⟨Nat.zero_le _, le_rfl⟩

@[simp]
theorem data_textBuf (text : CString) : (textBuf text).data = text :=
  slice_blit _ 0 text

section Pullup

theorem nbStart_pullup (nb : NBuf) : (nBufPullup nb).nbStart = 0 := by
  rw [nBufPullup]
  split
  · rfl
  · next hstart => exact Nat.eq_zero_of_not_pos hstart

theorem nbSize_pullup (nb : NBuf) : (nBufPullup nb).nbSize = nb.nbSize := by
  rw [nBufPullup]
  split <;> rfl

theorem check_pullup (h : nb.Check) : (nBufPullup nb).Check := by
  rw [nBufPullup]
  split
  · exact ⟨Nat.zero_le _, (Nat.sub_le _ _).trans h.end_le⟩
  · exact h

@[simp]
theorem data_pullup (nb : NBuf) : (nBufPullup nb).data = nb.data := by
  rw [nBufPullup]
  split
  · have hmoved := slice_blit nb.nbBuf 0 nb.data
    rwa [length_data, nBufLength] at hmoved
  · rfl

end Pullup

/-- Bytes are written behind those in use. -/
theorem data_append (h : nb.Check) (bytes : List Byte)
    (hroom : nb.nbEnd + bytes.length ≤ nb.nbSize) {nb' : NBuf}
    (hnb' : nb' = { nb with
      nbBuf := blit nb.nbBuf nb.nbEnd bytes
      nbEnd := nb.nbEnd + bytes.length }) :
    nb'.Check ∧ nb'.data = nb.data ++ bytes := by
  subst hnb'
  have hstart := h.start_le
  refine ⟨⟨hstart.trans (Nat.le_add_right _ _), hroom⟩, ?_⟩
  have happend := slice_blit_append nb.nbBuf nb.nbStart (nb.nbEnd - nb.nbStart) bytes
  have hused : nb.nbStart + (nb.nbEnd - nb.nbStart) = nb.nbEnd := by omega
  have hlength : nb.nbEnd + bytes.length - nb.nbStart =
      nb.nbEnd - nb.nbStart + bytes.length := by omega
  rw [hused, ← hlength] at happend
  exact happend

/-- What `n_buf_fill` did. -/
structure FilledBy (nb : NBuf) (unread : List Byte) (rc : Rc) (f : Filled) : Prop where
  check : f.nb.Check
  size : f.nb.nbSize = nb.nbSize
  bytes : ∃ got, f.nb.data = nb.data ++ got ∧ unread = got ++ f.unread
  eof : f.eof = true → f.unread = [] ∧ f.nb.data.length < nb.nbSize
  err : f.err = true → nb.data.length = nb.nbSize ∨ rc = .error

theorem nBufFill_spec (h : nb.Check) (unread : List Byte) (rc : Rc) :
    FilledBy nb unread rc (nBufFill nb unread rc) := by
  have hstart := nbStart_pullup nb
  have hsize := nbSize_pullup nb
  have hcheck := check_pullup h
  have hdata := data_pullup nb
  rw [nBufFill.eq_def]
  generalize nBufPullup nb = pulled at hstart hsize hcheck hdata ⊢
  have hlength := length_data_of_start hstart
  have hend := hcheck.end_le
  simp only
  split_ifs with hfull
  · exact ⟨hcheck, hsize, ⟨[], by rw [hdata, List.append_nil], rfl⟩, by simp, fun _ =>
      .inl (by rw [← hdata, hlength, hfull, hsize])⟩
  · cases rc with
    | error =>
        exact ⟨hcheck, hsize, ⟨[], by rw [hdata, List.append_nil], rfl⟩, by simp,
          fun _ => .inr rfl⟩
    | ok n =>
        obtain ⟨got, hgot⟩ : ∃ got,
            unread.take (min n (pulled.nbSize - pulled.nbEnd)) = got := ⟨_, rfl⟩
        have hroom : got.length ≤ pulled.nbSize - pulled.nbEnd :=
          hgot ▸ (List.length_take_le _ _).trans (min_le_right _ _)
        have hsplit : got ++ unread.drop got.length = unread := by
          rw [← hgot, List.length_take, List.take_eq_take_min, List.take_append_drop]
        obtain ⟨hcheck', hdata'⟩ := data_append hcheck got (by omega) rfl
        rw [hdata] at hdata'
        simp only [hgot]
        refine ⟨hcheck', hsize, ⟨got, hdata', hsplit.symm⟩, fun heof => ?_, by simp⟩
        simp only [Bool.and_eq_true, decide_eq_true_eq, List.isEmpty_iff] at heof
        obtain ⟨-, rfl⟩ := heof
        obtain rfl : got = [] := by rw [← hgot, List.take_nil]
        refine ⟨rfl, ?_⟩
        rw [length_data, nBufLength, hstart, ← hsize]
        change pulled.nbEnd + 0 - 0 < pulled.nbSize
        omega

section Drain

/-- What `n_buf_drain` did. -/
structure DrainedBy (nb : NBuf) (rc : Rc) (d : Drained) : Prop where
  check : d.nb.Check
  size : d.nb.nbSize = nb.nbSize
  start : nb.nbStart = 0 → d.nb.nbStart = 0
  bytes : d.out ++ d.nb.data = nb.data
  eof : d.eof = true ↔ d.nb.data = []
  err : d.err = true → rc = .error

/-- Bytes are taken from the front. -/
theorem data_skip (h : nb.Check) {n : ℕ} (hle : n ≤ nb.data.length) :
    { nb with nbStart := nb.nbStart + n }.Check ∧
      NBuf.data { nb with nbStart := nb.nbStart + n } = nb.data.drop n := by
  rw [length_data, nBufLength] at hle
  refine ⟨⟨?_, h.end_le⟩, ?_⟩
  · have hstart := h.start_le
    change nb.nbStart + n ≤ nb.nbEnd
    omega
  · rw [NBuf.data, NBuf.data, drop_slice, Nat.sub_add_eq]

theorem nBufDrain_spec (h : nb.Check) (rc : Rc) :
    DrainedBy nb rc (nBufDrain nb rc) := by
  rw [nBufDrain.eq_def]
  split_ifs with hempty
  · have hdata := (nBufIsEmpty_iff h).1 hempty
    exact ⟨h, rfl, id, rfl, iff_of_true rfl hdata, by simp⟩
  · have hdata := mt (nBufIsEmpty_iff h).2 hempty
    cases rc with
    | error => exact ⟨h, rfl, id, rfl, by simpa using hdata, fun _ => rfl⟩
    | ok n =>
        have hle : (nb.data.take n).length ≤ nb.data.length :=
          List.length_take_le' n nb.data
        obtain ⟨hcheck, hskip⟩ := data_skip h hle
        have hrest : nb.data.drop (nb.data.take n).length = nb.data.drop n := by
          rw [List.length_take, ← List.drop_eq_drop_min]
        rw [hrest] at hskip
        simp only
        split
        · refine ⟨check_pullup hcheck, nbSize_pullup _, fun _ => nbStart_pullup _, ?_,
            nBufIsEmpty_iff (check_pullup hcheck), by simp⟩
          change _ ++ (nBufPullup _).data = _
          rw [data_pullup, hskip, List.take_append_drop]
        · next hnone =>
            have hout : nb.data.take n = [] :=
              List.length_eq_zero_iff.1 (Nat.eq_zero_of_not_pos hnone)
            exact ⟨h, rfl, id, by rw [hout, List.nil_append], nBufIsEmpty_iff h, by simp⟩

end Drain

section Messages

/-- What a message took from a buffer. -/
structure TakenBy (nb : NBuf) (msg : List Byte) (nb' : NBuf) : Prop where
  check : nb'.Check
  size : nb'.nbSize = nb.nbSize
  bytes : nb.data = msg ++ 10 :: nb'.data
  line : 10 ∉ msg

theorem nBufGetMsg_eq_none : nBufGetMsg nb = none ↔ 10 ∉ nb.data := by
  rw [nBufGetMsg]
  split <;> simp_all

/-- A list is cut at its first newline. -/
theorem exists_line {bytes : List Byte} (hmem : 10 ∈ bytes) :
    ∃ rest, bytes = bytes.takeWhile (· != 10) ++ 10 :: rest := by
  induction bytes with
  | nil => cases hmem
  | cons c bytes ih =>
      by_cases hc : c = 10
      · exact ⟨bytes, by simp [hc]⟩
      · obtain ⟨rest, hrest⟩ := ih (List.mem_of_ne_of_mem (Ne.symm hc) hmem)
        refine ⟨rest, ?_⟩
        rw [List.takeWhile_cons_of_pos (by simpa using hc), List.cons_append, ← hrest]

theorem not_mem_line (bytes : List Byte) : 10 ∉ bytes.takeWhile (· != 10) :=
  fun hmem => by simpa using List.mem_takeWhile_imp hmem

theorem nBufGetMsg_spec (h : nb.Check) {msg : List Byte} {nb' : NBuf}
    (hget : nBufGetMsg nb = some (msg, nb')) : TakenBy nb msg nb' := by
  rw [nBufGetMsg] at hget
  split at hget
  · next hmem =>
      obtain ⟨rest, hrest⟩ := exists_line hmem
      have hline := not_mem_line nb.data
      generalize nb.data.takeWhile (· != 10) = line at hget hrest hline
      cases hget
      have hlength : msg.length + 1 ≤ nb.data.length := by
        rw [hrest, List.length_append, List.length_cons]
        omega
      obtain ⟨hcheck, hskip⟩ := data_skip h hlength
      rw [hrest, ← List.drop_drop, List.drop_left, List.drop_one, List.tail_cons] at hskip
      refine ⟨⟨hcheck.start_le, h.end_le⟩, rfl, ?_, hline⟩
      rw [hrest, ← hskip]
      -- the NUL lies before what is left
      congr 2
      refine slice_congr fun i hi _ => (update_of_ne ?_ _ _).symm
      change nb.nbStart + (msg.length + 1) ≤ i at hi
      omega
  · cases hget

theorem takeWhile_line {line : List Byte} (hline : 10 ∉ line) (rest : List Byte) :
    (line ++ 10 :: rest).takeWhile (· != 10) = line := by
  rw [List.takeWhile_append_of_pos, List.takeWhile_cons_of_neg (by decide), List.append_nil]
  intro c hc
  rw [bne_iff_ne]
  exact fun heq => hline (heq ▸ hc)

/-- Lines that are joined by their newlines. -/
def joinLines (lines : List (List Byte)) : List Byte :=
  (lines.map (· ++ [10])).flatten

@[simp]
theorem joinLines_cons (line : List Byte) (lines : List (List Byte)) :
    joinLines (line :: lines) = line ++ 10 :: joinLines lines := by
  rw [joinLines, List.map_cons, List.flatten_cons, List.append_assoc]
  rfl

theorem length_le_joinLines (lines : List (List Byte)) :
    lines.length ≤ (joinLines lines).length := by
  induction lines with
  | nil => exact le_rfl
  | cons line lines ih =>
      rw [joinLines_cons, List.length_append, List.length_cons, List.length_cons]
      omega

/-- The loop takes the lines one by one, and leaves what has no newline. -/
theorem nBufTake_lines (h : nb.Check) {lines : List (List Byte)} {rest : List Byte}
    (hlines : ∀ line ∈ lines, 10 ∉ line) (hrest : 10 ∉ rest)
    (hdata : nb.data = joinLines lines ++ rest) {fuel : ℕ} (hfuel : lines.length ≤ fuel) :
    nBufTake fuel nb = lines := by
  induction lines generalizing nb fuel with
  | nil =>
      cases fuel with
      | zero => rfl
      | succ fuel =>
          have hnone : nBufGetMsg nb = none := nBufGetMsg_eq_none.2 (hdata ▸ hrest)
          rw [nBufTake, hnone]
  | cons line lines ih =>
      rw [List.forall_mem_cons] at hlines
      rw [joinLines_cons, List.append_assoc, List.cons_append] at hdata
      cases fuel with
      | zero => cases hfuel
      | succ fuel =>
          have hmem : 10 ∈ nb.data := by
            rw [hdata]
            exact List.mem_append_right _ List.mem_cons_self
          rw [nBufTake]
          cases hget : nBufGetMsg nb with
          | none => exact absurd hmem (nBufGetMsg_eq_none.1 hget)
          | some taken =>
              obtain ⟨msg, nb'⟩ := taken
              have htaken := nBufGetMsg_spec h hget
              have hmsg : msg = line := by
                have hfirst := takeWhile_line htaken.line nb'.data
                rw [← htaken.bytes, hdata, takeWhile_line hlines.1] at hfirst
                exact hfirst.symm
              subst hmsg
              have hleft : nb'.data = joinLines lines ++ rest := by
                have hbytes := htaken.bytes.symm.trans hdata
                exact (List.cons_eq_cons.1 (List.append_cancel_left hbytes)).2
              simp only
              rw [ih htaken.check hlines.2 hleft (Nat.le_of_succ_le_succ hfuel)]

/-- The messages of a buffer are its lines. -/
theorem nBufMsgs_lines (h : nb.Check) {lines : List (List Byte)}
    (hlines : ∀ line ∈ lines, 10 ∉ line) (hdata : nb.data = joinLines lines) :
    nBufMsgs nb = lines := by
  have hfuel : lines.length ≤ nBufLength nb := by
    rw [← length_data, hdata]
    exact length_le_joinLines lines
  rw [← List.append_nil (joinLines lines)] at hdata
  exact nBufTake_lines h hlines List.not_mem_nil hdata hfuel

/-- The lines of a text, without what follows the last newline. -/
def bodyLines (bytes : List Byte) : List (List Byte) :=
  (bytes.splitOnP (· == 10)).dropLast

theorem bodyLines_of_not_mem {bytes : List Byte} (h : 10 ∉ bytes) : bodyLines bytes = [] := by
  have hnone : ∀ c ∈ bytes, (c == 10) = false := fun c hc =>
    beq_eq_false_iff_ne.2 fun heq => h (heq ▸ hc)
  rw [bodyLines, List.splitOnP_eq_singleton hnone]
  rfl

theorem bodyLines_cons {line : List Byte} (hline : 10 ∉ line) (rest : List Byte) :
    bodyLines (line ++ 10 :: rest) = line :: bodyLines rest := by
  have hnone : ∀ c ∈ line, (c == 10) = false := fun c hc =>
    beq_eq_false_iff_ne.2 fun heq => hline (heq ▸ hc)
  rw [bodyLines, List.splitOnP_append_cons_of_forall_mem hnone 10 rfl,
    List.dropLast_cons_of_ne_nil (List.splitOnP_ne_nil _ rest), bodyLines]

/-- A text is its lines and a rest without a newline. -/
theorem exists_joinLines (bytes : List Byte) :
    ∃ rest, bytes = joinLines (bodyLines bytes) ++ rest ∧ 10 ∉ rest ∧
      ∀ line ∈ bodyLines bytes, 10 ∉ line := by
  induction hlength : bytes.length using Nat.strong_induction_on generalizing bytes with
  | _ n ih =>
      by_cases hmem : 10 ∈ bytes
      · have hline := not_mem_line bytes
        obtain ⟨tail, htail⟩ := exists_line hmem
        generalize bytes.takeWhile (· != 10) = line at hline htail
        subst htail
        have hlt : tail.length < n := by
          rw [← hlength, List.length_append, List.length_cons]
          omega
        obtain ⟨rest, hrest, hnone, hlines⟩ := ih _ hlt tail rfl
        rw [bodyLines_cons hline, joinLines_cons]
        refine ⟨rest, ?_, hnone, List.forall_mem_cons.2 ⟨hline, hlines⟩⟩
        rw [List.append_assoc, List.cons_append, ← hrest]
      · rw [bodyLines_of_not_mem hmem]
        exact ⟨bytes, rfl, hmem, fun line hline => by cases hline⟩

/-- The messages of a buffer are the lines of its bytes. -/
theorem nBufMsgs_eq (h : nb.Check) : nBufMsgs nb = bodyLines nb.data := by
  obtain ⟨rest, hdata, hrest, hlines⟩ := exists_joinLines nb.data
  have hfuel : (bodyLines nb.data).length ≤ nBufLength nb := by
    have hle := length_le_joinLines (bodyLines nb.data)
    have hlength := congrArg List.length hdata
    rw [List.length_append, length_data] at hlength
    omega
  exact nBufTake_lines h hlines hrest hdata hfuel

theorem mem_of_mem_bodyLines {bytes line : List Byte} (h : line ∈ bodyLines bytes) {c : Byte}
    (hc : c ∈ line) : c ∈ bytes := by
  obtain ⟨rest, hbytes, -⟩ := exists_joinLines bytes
  rw [hbytes, joinLines]
  refine List.mem_append_left _ (List.mem_flatMap.2 ⟨line, h, ?_⟩)
  exact List.mem_append_left _ hc

end Messages

section Printf

/-- Something was printed: the buffer is in order, and begins where it did. -/
structure Printed (nb nb' : NBuf) : Prop where
  check : nb'.Check
  size : nb'.nbSize = nb.nbSize
  start : nb'.nbStart = nb.nbStart
  kept : nb.data <+: nb'.data

/-- The whole text was printed. -/
structure PrintedAll (nb : NBuf) (text : CString) (nb' : NBuf) : Prop where
  bytes : nb'.data = nb.data ++ text
  length : nb'.nbEnd = nb.nbEnd + text.length

variable {nb' nb'' : NBuf} {text text' : CString}

theorem Printed.trans (h : Printed nb nb') (h' : Printed nb' nb'') : Printed nb nb'' :=
  ⟨h'.check, h'.size.trans h.size, h'.start.trans h.start, h.kept.trans h'.kept⟩

theorem PrintedAll.trans (h : PrintedAll nb text nb') (h' : PrintedAll nb' text' nb'') :
    PrintedAll nb (text ++ text') nb'' :=
  ⟨by rw [h'.bytes, h.bytes, List.append_assoc],
    by rw [h'.length, h.length, List.length_append, Nat.add_assoc]⟩

theorem printed (h : nb.Check) (text : CString) : Printed nb (nBufPrintf nb text) := by
  have hstart := h.start_le
  have hend := h.end_le
  obtain ⟨len, hlen⟩ : ∃ len, min text.length (nb.nbSize - nb.nbEnd) = len := ⟨_, rfl⟩
  refine ⟨⟨hstart.trans (Nat.le_add_right _ _), ?_⟩, rfl, rfl, ?_⟩
  · change nb.nbEnd + min text.length (nb.nbSize - nb.nbEnd) ≤ nb.nbSize
    omega
  · have hused : (nBufPrintf nb text).nbEnd - nb.nbStart =
        nb.nbEnd - nb.nbStart + len := by
      change nb.nbEnd + min text.length (nb.nbSize - nb.nbEnd) - nb.nbStart = _
      omega
    rw [NBuf.data, NBuf.data]
    change _ <+: slice (nBufPrintf nb text).nbBuf nb.nbStart
      ((nBufPrintf nb text).nbEnd - nb.nbStart)
    rw [hused, slice_add, nBufPrintf, slice_blit_before _ (by omega)]
    exact List.prefix_append _ _

theorem printed_if (h : nb.Check) (c : Prop) [Decidable c] (text : CString) :
    Printed nb (if c then nBufPrintf nb text else nb) := by
  split
  · exact printed h text
  · exact ⟨h, rfl, rfl, List.prefix_rfl⟩

/-- A text that leaves room for the NUL is printed as a whole. -/
theorem printedAll (h : nb.Check) (text : CString) (hroom : nb.nbEnd + text.length < nb.nbSize) :
    PrintedAll nb text (nBufPrintf nb text) := by
  have hmin : min text.length (nb.nbSize - nb.nbEnd) = text.length :=
    min_eq_left (by omega)
  have hend : (nBufPrintf nb text).nbEnd = nb.nbEnd + text.length := by
    rw [nBufPrintf, hmin]
  have hstart := h.start_le
  refine ⟨?_, hend⟩
  have hfree : ¬ nb.nbSize - nb.nbEnd = 0 := by omega
  have hbuf : (nBufPrintf nb text).nbBuf = blit nb.nbBuf nb.nbEnd (text ++ [0]) := by
    rw [nBufPrintf, if_neg hfree, List.take_of_length_le (by omega)]
  have hused : nb.nbStart + (nb.nbEnd - nb.nbStart) = nb.nbEnd := by omega
  have hlength : (nBufPrintf nb text).nbEnd - nb.nbStart =
      nb.nbEnd - nb.nbStart + text.length := by omega
  rw [NBuf.data, hbuf, NBuf.data]
  change slice _ nb.nbStart ((nBufPrintf nb text).nbEnd - nb.nbStart) = _
  have happend := slice_blit_append nb.nbBuf nb.nbStart
    (nb.nbEnd - nb.nbStart) (text ++ [0])
  have htake := congrArg (List.take (nb.nbEnd - nb.nbStart + text.length)) happend
  rw [take_slice _ _ (by simp), hused, ← List.append_assoc,
    List.take_left' (by rw [List.length_append, length_slice])] at htake
  rw [hlength, htake]

theorem printedAll_if (h : nb.Check) (c : Prop) [Decidable c] (text : CString)
    (hroom : nb.nbEnd + text.length < nb.nbSize) :
    PrintedAll nb (if c then text else []) (if c then nBufPrintf nb text else nb) := by
  split
  · exact printedAll h text hroom
  · exact ⟨(List.append_nil _).symm, rfl⟩

/-- Texts that are printed one after the other, with room for all. -/
theorem printedAll_foldl (h : nb.Check) (texts : List CString)
    (hroom : nb.nbEnd + texts.flatten.length < nb.nbSize) :
    PrintedAll nb texts.flatten (texts.foldl nBufPrintf nb) := by
  induction texts generalizing nb with
  | nil => exact ⟨(List.append_nil _).symm, rfl⟩
  | cons text texts ih =>
      rw [List.flatten_cons, List.length_append] at hroom
      have hprinted := printed h text
      have hfirst := printedAll h text (by omega)
      have hrest := ih hprinted.check (by rw [hfirst.length, hprinted.size]; omega)
      rw [List.flatten_cons, List.foldl_cons]
      exact hfirst.trans hrest

/-- Whatever is printed, a buffer that begins at its block is not empty
afterwards. -/
theorem printf_ne_nil (h : nb.Check) (hstart : nb.nbStart = 0) (hsize : 0 < nb.nbSize)
    (htext : text ≠ []) : (nBufPrintf nb text).data ≠ [] := by
  have hpos := List.length_pos_iff.2 htext
  have hend := h.end_le
  have hlength : (nBufPrintf nb text).data.length = (nBufPrintf nb text).nbEnd :=
    length_data_of_start hstart
  rw [← List.length_pos_iff, hlength]
  change 0 < nb.nbEnd + min text.length (nb.nbSize - nb.nbEnd)
  omega

end Printf

end Xltop.Buffer
