import Xltop.Core.NBuf
import Xltop.Library.Fifo

/-!
# Buffers are queues

Every operation on an `n_buf` appends bytes behind those in use, or takes bytes
from the front.  Appends may be short, and they move the bytes in use to the
start of the block first; `n_buf_get_msg` writes into the block.  No byte is
lost, repeated or reordered in any run.
-/

namespace Xltop.Buffer

open Function
open Xltop.Fifo
open Xltop.Memory
open Xltop.Text

/-! ## The other operations -/

/-- `n_buf_get`: the bytes, or none when it returns -1. -/
def nBufGet (nb : NBuf) (len : ℕ) : Option (List Byte × NBuf) :=
  if nBufLength nb < len then none
  else some (slice nb.nbBuf nb.nbStart len, { nb with nbStart := nb.nbStart + len })

/-- `n_buf_copy`: the buffer, and whether it returns 0 and not `ENOBUFS`. -/
def nBufCopy (nb src : NBuf) : NBuf × Bool :=
  let srcLen := src.nbEnd - src.nbStart
  let nb := nBufPullup nb
  if nb.nbSize - nb.nbEnd < srcLen then (nb, false)
  else
    ({ nb with
        nbBuf := blit nb.nbBuf nb.nbEnd (slice src.nbBuf src.nbStart srcLen)
        nbEnd := nb.nbEnd + srcLen }, true)

/-- `n_buf_write`: the buffer, and how many bytes were written. -/
def nBufWrite (nb : NBuf) (mem : List Byte) : NBuf × ℕ :=
  let nb := nBufPullup nb
  let len := if nb.nbSize - nb.nbEnd < mem.length then nb.nbSize - nb.nbEnd else mem.length
  ({ nb with
      nbBuf := blit nb.nbBuf nb.nbEnd (mem.take len)
      nbEnd := nb.nbEnd + len }, len)

/-- `n_buf_putc`, which returns 1 in any case. -/
def nBufPutc (nb : NBuf) (c : Byte) : NBuf :=
  if nb.nbEnd < nb.nbSize then
    { nb with nbBuf := update nb.nbBuf nb.nbEnd c, nbEnd := nb.nbEnd + 1 }
  else nb

/-! ## Runs -/

/-- An operation, with what it gets from outside. -/
inductive NBufOp where
  | fill (unread : List Byte) (rc : Rc)
  | write (mem : List Byte)
  | copy (src : NBuf)
  | putc (c : Byte)
  | get (len : ℕ)
  | getMsg
  | drain (rc : Rc)
  | pullup

namespace NBufOp

/-- The buffer after an operation. -/
def step (nb : NBuf) : NBufOp → NBuf
  | fill unread rc => (nBufFill nb unread rc).nb
  | write mem => (nBufWrite nb mem).1
  | copy src => (nBufCopy nb src).1
  | putc c => nBufPutc nb c
  | get len => ((nBufGet nb len).map Prod.snd).getD nb
  | getMsg => ((nBufGetMsg nb).map Prod.snd).getD nb
  | drain rc => (nBufDrain nb rc).nb
  | pullup => nBufPullup nb

/-- The bytes that an operation appends: what `read` gave, as many bytes as
`n_buf_write` says, all bytes of `n_buf_copy` unless it refuses them, and the
byte of `n_buf_putc` if there is room. -/
def appended (nb : NBuf) : NBufOp → List Byte
  | fill unread rc => unread.take (unread.length - (nBufFill nb unread rc).unread.length)
  | write mem => mem.take (nBufWrite nb mem).2
  | copy src => if (nBufCopy nb src).2 then src.data else []
  | putc c => if nb.nbEnd < nb.nbSize then [c] else []
  | _ => []

/-- The bytes that an operation removes; a message goes with its newline. -/
def removed (nb : NBuf) : NBufOp → List Byte
  | get len => ((nBufGet nb len).map Prod.fst).getD []
  | getMsg => ((nBufGetMsg nb).map fun taken => taken.1 ++ [10]).getD []
  | drain rc => (nBufDrain nb rc).out
  | _ => []

/-- Buffers as queues. -/
def machine : Machine NBuf NBufOp Byte where
  step := step
  held := NBuf.data
  entered := appended
  left := removed

end NBufOp

/-! ## What one operation does -/

variable {nb : NBuf}

/-- What an operation did: the buffer is in order, its block is the same, and
the bytes pass through in order. -/
structure Stepped (nb : NBuf) (op : NBufOp) : Prop where
  check : (op.step nb).Check
  size : (op.step nb).nbSize = nb.nbSize
  bytes : nb.data ++ op.appended nb = op.removed nb ++ (op.step nb).data

/-- An operation that does nothing. -/
theorem stepped_refused (h : nb.Check) {op : NBufOp} (hstep : op.step nb = nb)
    (happended : op.appended nb = []) (hremoved : op.removed nb = []) : Stepped nb op := by
  refine ⟨?_, ?_, ?_⟩
  · rwa [hstep]
  · rw [hstep]
  · rw [hstep, happended, hremoved, List.append_nil, List.nil_append]

theorem stepped_fill (h : nb.Check) (unread : List Byte) (rc : Rc) :
    Stepped nb (.fill unread rc) := by
  have hspec := nBufFill_spec h unread rc
  obtain ⟨got, hdata, hunread⟩ := hspec.bytes
  refine ⟨hspec.check, hspec.size, ?_⟩
  have hgot : NBufOp.appended nb (.fill unread rc) = got := by
    have hlength : unread.length - (nBufFill nb unread rc).unread.length = got.length := by
      have hsplit := congrArg List.length hunread
      rw [List.length_append] at hsplit
      omega
    rw [NBufOp.appended, hlength, hunread, List.take_left]
  rw [hgot]
  exact hdata.symm

theorem stepped_write (h : nb.Check) (mem : List Byte) : Stepped nb (.write mem) := by
  have hcheck := check_pullup h
  have hsize := nbSize_pullup nb
  have hdata := data_pullup nb
  obtain ⟨len, hlen⟩ : ∃ len, (nBufWrite nb mem).2 = len := ⟨_, rfl⟩
  have hbounds : len ≤ mem.length ∧ (nBufPullup nb).nbEnd + len ≤ (nBufPullup nb).nbSize := by
    have hend := hcheck.end_le
    rw [← hlen, nBufWrite]
    simp only
    split_ifs <;> omega
  have hlength : (mem.take len).length = len := List.length_take_of_le hbounds.1
  have hstep : (nBufWrite nb mem).1 = { nBufPullup nb with
      nbBuf := blit (nBufPullup nb).nbBuf (nBufPullup nb).nbEnd (mem.take len)
      nbEnd := (nBufPullup nb).nbEnd + (mem.take len).length } := by
    rw [hlength, ← hlen]
    rfl
  obtain ⟨hcheck', hdata'⟩ := data_append hcheck _ (by rw [hlength]; exact hbounds.2) hstep
  refine ⟨hcheck', hsize, ?_⟩
  change nb.data ++ mem.take (nBufWrite nb mem).2 = (nBufWrite nb mem).1.data
  rw [hdata', hdata, hlen]

theorem stepped_copy (h : nb.Check) (src : NBuf) : Stepped nb (.copy src) := by
  have hcheck := check_pullup h
  have hsize := nbSize_pullup nb
  have hdata := data_pullup nb
  have hlength : src.data.length = src.nbEnd - src.nbStart := length_data src
  by_cases hroom : (nBufPullup nb).nbSize - (nBufPullup nb).nbEnd < src.nbEnd - src.nbStart
  · have hstep : nBufCopy nb src = (nBufPullup nb, false) := if_pos hroom
    refine ⟨?_, ?_, ?_⟩
    · rw [NBufOp.step, hstep]
      exact hcheck
    · rw [NBufOp.step, hstep]
      exact hsize
    · change nb.data ++ NBufOp.appended nb (.copy src) = (nBufCopy nb src).1.data
      rw [NBufOp.appended, hstep, hdata]
      exact List.append_nil nb.data
  · have hstep : nBufCopy nb src = ({ nBufPullup nb with
        nbBuf := blit (nBufPullup nb).nbBuf (nBufPullup nb).nbEnd src.data
        nbEnd := (nBufPullup nb).nbEnd + src.data.length }, true) := by
      rw [hlength]
      exact if_neg hroom
    have hend := hcheck.end_le
    obtain ⟨hcheck', hdata'⟩ := data_append hcheck src.data (by omega)
      (congrArg Prod.fst hstep)
    refine ⟨hcheck', ?_, ?_⟩
    · rw [NBufOp.step, hstep]
      exact hsize
    · change nb.data ++ NBufOp.appended nb (.copy src) = (nBufCopy nb src).1.data
      rw [hdata', NBufOp.appended, hstep, if_pos rfl, hdata]

theorem stepped_putc (h : nb.Check) (c : Byte) : Stepped nb (.putc c) := by
  by_cases hroom : nb.nbEnd < nb.nbSize
  · have hstep : nBufPutc nb c = { nb with
        nbBuf := blit nb.nbBuf nb.nbEnd [c]
        nbEnd := nb.nbEnd + [c].length } := by
      have hbuf : update nb.nbBuf nb.nbEnd c = blit nb.nbBuf nb.nbEnd [c] := by
        funext i
        rcases lt_trichotomy i nb.nbEnd with hi | rfl | hi
        · rw [update_of_ne hi.ne, blit, if_neg (by omega)]
        · simp [blit]
        · obtain ⟨k, hk⟩ : ∃ k, i - nb.nbEnd = k + 1 :=
            Nat.exists_eq_succ_of_ne_zero (by omega)
          rw [update_of_ne hi.ne', blit, if_pos hi.le, hk]
          rfl
      rw [nBufPutc, if_pos hroom, hbuf]
      rfl
    obtain ⟨hcheck, hdata⟩ := data_append h [c] hroom hstep
    refine ⟨hcheck, ?_, ?_⟩
    · rw [NBufOp.step, hstep]
    · change nb.data ++ NBufOp.appended nb (.putc c) = (nBufPutc nb c).data
      rw [hdata, NBufOp.appended, if_pos hroom]
  · exact stepped_refused h (if_neg hroom) (if_neg hroom) rfl

theorem stepped_get (h : nb.Check) (len : ℕ) : Stepped nb (.get len) := by
  by_cases hshort : nBufLength nb < len
  · have hget : nBufGet nb len = none := if_pos hshort
    exact stepped_refused h (by rw [NBufOp.step, hget]; rfl) rfl
      (by rw [NBufOp.removed, hget]; rfl)
  · have hle : len ≤ nb.data.length := by
      rw [length_data]
      exact Nat.le_of_not_lt hshort
    have hget : nBufGet nb len =
        some (nb.data.take len, { nb with nbStart := nb.nbStart + len }) := by
      have htake : nb.data.take len = slice nb.nbBuf nb.nbStart len :=
        take_slice _ _ (Nat.le_of_not_lt hshort)
      rw [nBufGet, if_neg hshort, htake]
    obtain ⟨hcheck, hdata⟩ := data_skip h hle
    have hstep : NBufOp.step nb (.get len) = { nb with nbStart := nb.nbStart + len } := by
      rw [NBufOp.step, hget]
      rfl
    refine ⟨by rwa [hstep], by rw [hstep], ?_⟩
    rw [hstep, hdata, NBufOp.removed, hget]
    exact (List.append_nil nb.data).trans (List.take_append_drop len nb.data).symm

theorem stepped_getMsg (h : nb.Check) : Stepped nb .getMsg := by
  cases hget : nBufGetMsg nb with
  | none =>
      exact stepped_refused h (by rw [NBufOp.step, hget]; rfl) rfl
        (by rw [NBufOp.removed, hget]; rfl)
  | some taken =>
      obtain ⟨msg, nb'⟩ := taken
      have hspec := nBufGetMsg_spec h hget
      have hstep : NBufOp.step nb .getMsg = nb' := by rw [NBufOp.step, hget]; rfl
      refine ⟨by rw [hstep]; exact hspec.check, by rw [hstep]; exact hspec.size, ?_⟩
      rw [hstep, NBufOp.removed, hget]
      change nb.data ++ [] = msg ++ [10] ++ nb'.data
      rw [List.append_nil, hspec.bytes, List.append_assoc]
      rfl

/-- Every operation passes the bytes on. -/
theorem stepped (h : nb.Check) (op : NBufOp) : Stepped nb op := by
  cases op with
  | fill unread rc => exact stepped_fill h unread rc
  | write mem => exact stepped_write h mem
  | copy src => exact stepped_copy h src
  | putc c => exact stepped_putc h c
  | get len => exact stepped_get h len
  | getMsg => exact stepped_getMsg h
  | drain rc =>
      have hspec := nBufDrain_spec h rc
      exact ⟨hspec.check, hspec.size, (List.append_nil _).trans hspec.bytes.symm⟩
  | pullup =>
      exact ⟨check_pullup h, nbSize_pullup nb, (List.append_nil _).trans (data_pullup nb).symm⟩

theorem machine_conserves (size : ℕ) :
    NBufOp.machine.Conserves fun nb => nb.Check ∧ nb.nbSize = size where
  keeps h op := ⟨(stepped h.1 op).check, (stepped h.1 op).size.trans h.2⟩
  passes h op := (stepped h.1 op).bytes

/-- The message that `n_buf_get_msg` returns is a string in the block: its
newline is a NUL now. -/
theorem slice_getMsg (h : nb.Check) {msg : List Byte} {nb' : NBuf}
    (hget : nBufGetMsg nb = some (msg, nb')) :
    slice nb'.nbBuf nb.nbStart (msg.length + 1) = msg ++ [0] := by
  have hbytes := (nBufGetMsg_spec h hget).bytes
  have hle : msg.length ≤ nb.nbEnd - nb.nbStart := by
    have hlength := congrArg List.length hbytes
    rw [length_data, nBufLength, List.length_append] at hlength
    omega
  have hmsg : slice nb.nbBuf nb.nbStart msg.length = msg := by
    have htake : nb.data.take msg.length = slice nb.nbBuf nb.nbStart msg.length :=
      take_slice _ _ hle
    rw [← htake, hbytes, List.take_left]
  have hbuf : nb'.nbBuf = update nb.nbBuf (nb.nbStart + msg.length) 0 := by
    rw [nBufGetMsg] at hget
    split at hget
    · cases hget
      rfl
    · cases hget
  rw [slice_add, hbuf]
  congr 1
  · conv_rhs => rw [← hmsg]
    exact slice_congr fun i _ hi => update_of_ne hi.ne _ _
  · simp [slice]

/-- A buffer is a bounded queue.  After any run of appends and removals from
`n_buf_init` on, the buffer is in order and its block is the same, and what was
removed and what is in use are together what was appended, in order.
`n_buf_get_msg` then fails exactly if there is no newline, and otherwise it
returns the first line as a string and removes it with its newline. -/
theorem n_buf_fifo (block : ℕ → Byte) (size : ℕ) (ops : List NBufOp) :
    let nb := NBufOp.machine.run (nBufInit block size) ops
    nb.nbStart ≤ nb.nbEnd ∧ nb.nbEnd ≤ nb.nbSize ∧ nb.nbSize = size ∧
      NBufOp.machine.allLeft (nBufInit block size) ops ++ nb.data =
        NBufOp.machine.allEntered (nBufInit block size) ops ∧
      (nBufGetMsg nb = none ↔ 10 ∉ nb.data) ∧
      ∀ msg nb', nBufGetMsg nb = some (msg, nb') →
        nb.data = msg ++ 10 :: nb'.data ∧ 10 ∉ msg ∧
          slice nb'.nbBuf nb.nbStart (msg.length + 1) = msg ++ [0] := by
  intro nb
  have hinit : (nBufInit block size).Check ∧ (nBufInit block size).nbSize = size :=
    ⟨check_init block size, rfl⟩
  obtain ⟨hcheck, hsize⟩ := (machine_conserves size).run_keeps hinit ops
  have hbytes := (machine_conserves size).run_passes hinit ops
  refine ⟨hcheck.start_le, hcheck.end_le, hsize, hbytes.symm, nBufGetMsg_eq_none,
    fun msg nb' hget => ?_⟩
  have hspec := nBufGetMsg_spec hcheck hget
  exact ⟨hspec.bytes, hspec.line, slice_getMsg hcheck hget⟩

end Xltop.Buffer
