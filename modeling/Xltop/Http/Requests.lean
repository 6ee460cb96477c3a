import Xltop.Http.Callback
import Xltop.Library.Incremental

/-!
# Requests do not depend on chunks

The requests of a stream can be read from the whole stream at once: a reader
takes lines and bodies from its front, and only a line or a body that does not
fit into the request buffer stops it early.  A session takes the same lines and
bodies, in the same order, from the bytes it has so far.
-/

namespace Xltop.Http

open Xltop.Buffer
open Xltop.Incremental
open Xltop.Text

/-! ## The reader -/

/-- A line of a request is an `Expect` header. -/
def isExpect (x : BotzX) (line : List Byte) : Bool :=
  x.xReadCb == .header &&
    match (split 2 (some (cstr line))).1 with
    | name :: _ => strcaseEq name (lit "Expect:")
    | [] => false

/-- The exchange that is read next, and the number of `Expect` headers in it so
far; none after the last exchange. -/
abbrev ReadState := Option (BotzX × ℕ)

/-- After a request has been handled. -/
def nextState (x : BotzX) : ReadState :=
  if x.answered.xClose then none else some (freshX, 0)

/-- One line, one complete body, or one request that is ready. -/
def nextItem : Reader ReadState Byte Request
  | none, _ => none
  | some (x, expects), bytes =>
      if x.xQReady then
        if x.xQBodyLen ≤ bytes.length then
          some (nextState x, bytes.drop x.xQBodyLen, some (x.takeBody bytes).xQ)
        else none
      else if x.xQBodyWait then
        if x.xQBodyLen ≤ min blQBufSize bytes.length then
          some (some ({ x with xQReady := true }, expects), bytes, none)
        else none
      else if 10 ∈ bytes.take blQBufSize then
        let line := bytes.takeWhile (· != 10)
        some (some ((x.read line).plain, expects + (isExpect x line).toNat),
          bytes.drop (line.length + 1), none)
      else none

/-- The requests that a stream leaves behind at EOF: one that is incomplete is
an error, unless its last part fills the buffer. -/
def lastRequests : ReadState → List Byte → List Request
  | some (x, _), bytes =>
      if x.xQStart && bytes.length < blQBufSize then [failedX.xQ] else []
  | none, _ => []

theorem takeWhile_line {line rest : List Byte} (hline : 10 ∉ line) :
    (line ++ 10 :: rest).takeWhile (· != 10) = line := by
  rw [List.takeWhile_append_of_pos fun c hc => by
    simpa using fun heq : c = 10 => hline (heq ▸ hc)]
  simp

theorem nextItem_line {x : BotzX} {expects : ℕ} {line rest : List Byte}
    (hready : x.xQReady = false) (hwait : x.xQBodyWait = false) (hline : 10 ∉ line)
    (hfits : line.length < blQBufSize) :
    nextItem (some (x, expects)) (line ++ 10 :: rest) =
      some (some ((x.read line).plain, expects + (isExpect x line).toNat), rest, none) := by
  have hmem : 10 ∈ (line ++ 10 :: rest).take blQBufSize := by
    obtain ⟨more, hmore⟩ := Nat.exists_eq_add_of_lt hfits
    rw [hmore, Nat.add_assoc, List.take_append, List.mem_append]
    exact .inr (by simp)
  have hdrop : (line ++ 10 :: rest).drop (line.length + 1) = rest := by
    rw [← List.drop_drop, List.drop_left, List.drop_one, List.tail_cons]
  rw [nextItem, hready, hwait]
  simp only [Bool.false_eq_true, if_false, if_pos hmem, takeWhile_line hline, hdrop]

/-- Nothing can be read from a full buffer that waits for more. -/
theorem nextItem_full {x : BotzX} {expects : ℕ} {data : List Byte}
    (hready : x.xQReady = false) (hwaiting : Waiting x data)
    (hfull : data.length = blQBufSize) (unread : List Byte) :
    nextItem (some (x, expects)) (data ++ unread) = none := by
  rw [Waiting] at hwaiting
  rw [nextItem, if_neg (ne_true_of_eq_false hready)]
  split at hwaiting
  · next hwait =>
      rw [if_pos hwait, if_neg]
      have hle := min_le_left blQBufSize (data ++ unread).length
      omega
  · next hwait =>
      rw [if_neg hwait, if_neg]
      rwa [← hfull, List.take_left]

/-- Nothing can be read at EOF from a buffer that waits for more. -/
theorem nextItem_eof {x : BotzX} {expects : ℕ} {data : List Byte}
    (hready : x.xQReady = false) (hwaiting : Waiting x data) :
    nextItem (some (x, expects)) data = none := by
  rw [Waiting] at hwaiting
  rw [nextItem, if_neg (ne_true_of_eq_false hready)]
  split at hwaiting
  · next hwait =>
      rw [if_pos hwait, if_neg]
      have hle := min_le_right blQBufSize data.length
      omega
  · next hwait =>
      rw [if_neg hwait, if_neg]
      exact fun hmem => hwaiting (List.mem_of_mem_take hmem)

/-! ## Sessions read the stream -/

/-- A request of the stream with that many `Expect` headers has been reached. -/
def Counted (stream : List Byte) (expects : ℕ) : Prop :=
  ∃ outs x more bytes, Reads nextItem (some (freshX, 0)) stream outs (some (x, more)) bytes ∧
    expects ≤ more

/-- The requests that have been handled are those of the whole stream. -/
def Finished (stream : List Byte) (requests : List Request) : Prop :=
  ∃ outs s bytes, Reads nextItem (some (freshX, 0)) stream outs s bytes ∧
    nextItem s bytes = none ∧ requests = outs ++ lastRequests s bytes

/-- Where a session is in its stream. -/
inductive Position (stream : List Byte) (s : Session) : Prop where
  | reading {expects : ℕ} (hanswer : s.x.xRReady = false) (hplain : s.x.plain = s.x)
      (hreads : Reads nextItem (some (freshX, 0)) stream (s.handled.map Exchange.request)
        (some (s.x, expects)) (s.data ++ s.unread))
      (hinterim : s.interim + s.expect.toNat ≤ expects)
  | failed (hx : s.x = failedX)
      (hfinished : Finished stream (s.handled.map Exchange.request ++ [failedX.xQ]))
  | answered (hanswer : s.x.xRReady = true) (hopen : s.x.xClose = false)
      (hreads : Reads nextItem (some (freshX, 0)) stream (s.handled.map Exchange.request)
        (some (freshX, 0)) (s.data ++ s.unread))
  | last (hanswer : s.x.xRReady = true) (hclose : s.x.xClose = true)
      (hfinished : Finished stream (s.handled.map Exchange.request))

/-- What moves keep: the position, and that an interim response is queued for an
`Expect` header. -/
structure Follows (stream : List Byte) (s : Session) : Prop where
  position : Position stream s
  answered : s.x.xRReady = true → s.interim = 0
  current : Counted stream s.interim
  handled : ∀ e ∈ s.handled, Counted stream e.interim

section Moves

variable {stream : List Byte} {s s' : Session}

theorem counted_zero (stream : List Byte) : Counted stream 0 :=
  ⟨[], freshX, 0, stream, .refl _ _, le_rfl⟩

/-- A line that asks for an interim response is an `Expect` header. -/
theorem isExpect_of_read {x : BotzX} (hexpect : x.xExpect100 = false) {line : List Byte}
    (hread : (x.read line).xExpect100 = true) : isExpect x line = true := by
  rw [BotzX.read] at hread
  rw [isExpect]
  cases hcb : x.xReadCb with
  | start =>
      rw [hcb] at hread
      have hstart : (bxReadStart x (cstr line)).xExpect100 = x.xExpect100 := by
        rw [bxReadStart.eq_def]
        split
        · rfl
        · simp only
          split
          · split <;> rfl
          · rfl
      exact absurd (hexpect.symm.trans (hstart.symm.trans hread)) Bool.false_ne_true
  | header =>
      rw [hcb] at hread
      simp only at hread
      rw [bxReadHeader.eq_def] at hread
      cases hwords : (split 2 (some (cstr line))).1 with
      | nil =>
          rw [hwords] at hread
          simp only at hread
          split at hread <;> exact absurd hread (ne_true_of_eq_false hexpect)
      | cons name rest =>
          rw [hwords] at hread
          simp only at hread
          by_contra hnot
          have hname : ¬ strcaseEq name (lit "Expect:") = true := hnot
          split_ifs at hread <;>
            exact absurd hread (ne_true_of_eq_false hexpect)

/-- No line answers a request. -/
theorem read_rReady (x : BotzX) (line : List Byte) :
    (x.read line).xRReady = x.xRReady := by
  rw [BotzX.read]
  cases x.xReadCb with
  | start =>
      simp only
      rw [bxReadStart.eq_def]
      split
      · rfl
      · simp only
        split
        · split <;> rfl
        · rfl
  | header =>
      simp only
      rw [bxReadHeader.eq_def]
      split
      · split <;> rfl
      · simp only
        split_ifs <;> rfl

/-- A session that is reading, or has failed and is about to say so. -/
theorem Position.of_unanswered (h : Position stream s) (hanswer : s.x.xRReady = false) :
    (s.x.plain = s.x ∧ ∃ expects, Reads nextItem (some (freshX, 0)) stream
        (s.handled.map Exchange.request) (some (s.x, expects)) (s.data ++ s.unread) ∧
        s.interim + s.expect.toNat ≤ expects) ∨
      s.x = failedX ∧
        Finished stream (s.handled.map Exchange.request ++ [failedX.xQ]) := by
  cases h with
  | reading _ hplain hreads hinterim => exact .inl ⟨hplain, _, hreads, hinterim⟩
  | failed hx hfinished => exact .inr ⟨hx, hfinished⟩
  | answered htrue => exact absurd htrue (ne_true_of_eq_false hanswer)
  | last htrue => exact absurd htrue (ne_true_of_eq_false hanswer)

/-- A session whose request is not ready is reading it. -/
theorem Position.of_notReady (h : Position stream s) (hready : s.x.xQReady = false)
    (hanswer : s.x.xRReady = false) :
    s.x.plain = s.x ∧ ∃ expects, Reads nextItem (some (freshX, 0)) stream
      (s.handled.map Exchange.request) (some (s.x, expects)) (s.data ++ s.unread) ∧
      s.interim + s.expect.toNat ≤ expects := by
  refine (h.of_unanswered hanswer).resolve_right fun hfailed => ?_
  rw [hfailed.1] at hready
  cases hready

/-- Nothing is handled without a request that is ready. -/
theorem Follows.reading (h : Follows stream s) {x : BotzX} {expect : Bool}
    {data unread : List Byte} {expects : ℕ} (hanswer : x.xRReady = false)
    (hplain : x.plain = x)
    (hreads : Reads nextItem (some (freshX, 0)) stream (s.handled.map Exchange.request)
      (some (x, expects)) (data ++ unread))
    (hinterim : s.interim + expect.toNat ≤ expects) :
    Follows stream { s with x := x, expect := expect, data := data, unread := unread } where
  position := .reading hanswer hplain hreads hinterim
  answered htrue := absurd htrue (ne_true_of_eq_false hanswer)
  current := h.current
  handled := h.handled

theorem Follows.line (h : Follows stream s) {line rest : List Byte}
    (hready : s.x.xQReady = false) (hanswer : s.x.xRReady = false)
    (hwait : s.x.xQBodyWait = false) (hdata : s.data = line ++ 10 :: rest)
    (hline : 10 ∉ line) (hfits : s.data.length ≤ blQBufSize) :
    Follows stream { s with
      x := (s.x.read line).plain
      expect := s.expect || (s.x.read line).xExpect100
      data := rest } := by
  obtain ⟨hplain, expects, hreads, hinterim⟩ := h.position.of_notReady hready hanswer
  have hlength : line.length < blQBufSize := by
    rw [hdata, List.length_append, List.length_cons] at hfits
    omega
  rw [hdata, List.append_assoc, List.cons_append] at hreads
  have hreads' := hreads.tail (nextItem_line hready hwait hline hlength)
  rw [Option.toList_none, List.append_nil] at hreads'
  have hexpect : s.x.xExpect100 = false := (congrArg BotzX.xExpect100 hplain).symm
  have hanswer' : (s.x.read line).xRReady = false := by
    rw [read_rReady, hanswer]
  refine h.reading hanswer' (plain_plain _) hreads' ?_
  cases hread : (s.x.read line).xExpect100 with
  | false =>
      rw [Bool.or_false]
      exact hinterim.trans (Nat.le_add_right _ _)
  | true =>
      rw [isExpect_of_read hexpect hread, Bool.or_true]
      exact Nat.add_le_add_right ((Nat.le_add_right _ _).trans hinterim) _

theorem Follows.body (h : Follows stream s) (hready : s.x.xQReady = false)
    (hanswer : s.x.xRReady = false) (hwait : s.x.xQBodyWait = true)
    (hlen : s.x.xQBodyLen ≤ s.data.length) (hfits : s.data.length ≤ blQBufSize) :
    Follows stream { s with x := { s.x with xQReady := true } } := by
  obtain ⟨hplain, expects, hreads, hinterim⟩ := h.position.of_notReady hready hanswer
  have hnext : nextItem (some (s.x, expects)) (s.data ++ s.unread) =
      some (some ({ s.x with xQReady := true }, expects), s.data ++ s.unread, none) := by
    rw [nextItem, if_neg (ne_true_of_eq_false hready), if_pos hwait, if_pos]
    rw [le_min_iff, List.length_append]
    exact ⟨hlen.trans hfits, hlen.trans (Nat.le_add_right _ _)⟩
  have hreads' := hreads.tail hnext
  rw [Option.toList_none, List.append_nil] at hreads'
  have hplain' : ({ s.x with xQReady := true } : BotzX).plain =
      { s.x with xQReady := true } :=
    congrArg (fun x : BotzX => { x with xQReady := true }) hplain
  exact h.reading hanswer hplain' hreads' hinterim

/-- The stream ends in the middle of a request. -/
theorem Follows.eof (h : Follows stream s) (hready : s.x.xQReady = false)
    (hanswer : s.x.xRReady = false) (hstart : s.x.xQStart = true)
    (hwaiting : Waiting s.x s.data) (heof : s.unread = [])
    (hfits : s.data.length < blQBufSize) :
    Follows stream { s with x := failedX, expect := false } := by
  obtain ⟨-, expects, hreads, -⟩ := h.position.of_notReady hready hanswer
  rw [heof, List.append_nil] at hreads
  refine ⟨.failed rfl ⟨_, _, _, hreads, nextItem_eof hready hwaiting, ?_⟩,
    (fun htrue => nomatch htrue), h.current, h.handled⟩
  rw [lastRequests, hstart, decide_eq_true hfits, Bool.and_self, if_pos rfl]

theorem Follows.expect (h : Follows stream s) (hexpect : s.expect = true)
    (hready : s.x.xQReady = false) (hanswer : s.x.xRReady = false) (out : List Byte) :
    Follows stream { s with
      expect := false
      queue := s.queue ++ out
      interim := s.interim + 1 } := by
  obtain ⟨hplain, expects, hreads, hinterim⟩ := h.position.of_notReady hready hanswer
  rw [hexpect] at hinterim
  exact ⟨.reading hanswer hplain hreads hinterim,
    fun htrue => absurd htrue (ne_true_of_eq_false hanswer),
    ⟨_, _, _, _, hreads, hinterim⟩, h.handled⟩

theorem Follows.handle (h : Follows stream s) (hready : s.x.xQReady = true)
    (hanswer : s.x.xRReady = false) (hlen : s.x.xQBodyLen ≤ s.data.length)
    (r : Response) (out : List Byte) :
    Follows stream { s with
      x := (s.x.takeBody s.data).answered
      data := s.data.drop s.x.xQBodyLen
      queue := s.queue ++ out
      interim := 0
      handled := s.handled ++ [⟨s.interim, (s.x.takeBody s.data).xQ, r⟩] } := by
  refine ⟨?_, fun _ => rfl, counted_zero stream, fun e he => ?_⟩
  · rcases h.position.of_unanswered hanswer with
      ⟨hplain, expects, hreads, hinterim⟩ | ⟨hx, hfinished⟩
    · have hbytes : s.x.xQBodyLen ≤ (s.data ++ s.unread).length := by
        rw [List.length_append]
        exact hlen.trans (Nat.le_add_right _ _)
      have hnext : nextItem (some (s.x, expects)) (s.data ++ s.unread) =
          some (nextState s.x, s.data.drop s.x.xQBodyLen ++ s.unread,
            some (s.x.takeBody s.data).xQ) := by
        rw [nextItem, if_pos hready, if_pos hbytes, List.drop_append_of_le_length hlen,
          BotzX.takeBody, List.take_append_of_le_length hlen]
        rfl
      have hreads' := hreads.tail hnext
      rw [Option.toList_some, ← List.map_singleton (f := Exchange.request)
        (a := ⟨s.interim, (s.x.takeBody s.data).xQ, r⟩), ← List.map_append] at hreads'
      rw [nextState] at hreads'
      cases hclose : s.x.answered.xClose with
      | false =>
          rw [hclose, if_neg Bool.false_ne_true] at hreads'
          exact .answered rfl hclose hreads'
      | true =>
          rw [hclose, if_pos rfl] at hreads'
          exact .last rfl hclose ⟨_, _, _, hreads', rfl, (List.append_nil _).symm⟩
    · refine .last rfl (by rw [hx]; rfl) ?_
      rw [List.map_append, List.map_singleton, hx]
      exact hfinished
  · rcases List.mem_append.1 he with hold | hnew
    · exact h.handled e hold
    · rw [List.mem_singleton.1 hnew]
      exact h.current

theorem Follows.move (h : Follows stream s) (hmove : Move s s') : Follows stream s' := by
  cases hmove with
  | write hqueue =>
      refine ⟨?_, h.answered, h.current, h.handled⟩
      cases h.position with
      | reading hanswer hplain hreads hinterim =>
          exact .reading hanswer hplain hreads hinterim
      | failed hx hfinished => exact .failed hx hfinished
      | answered hanswer hopen hreads => exact .answered hanswer hopen hreads
      | last hanswer hclose hfinished => exact .last hanswer hclose hfinished
  | next hready hsent hopen =>
      cases h.position with
      | reading hanswer => exact absurd hready (ne_true_of_eq_false hanswer)
      | failed hx =>
          rw [hx] at hready
          cases hready
      | answered _ _ hreads =>
          exact h.reading rfl rfl hreads (by rw [h.answered hready]; rfl)
      | last _ hclose => exact absurd hclose (ne_true_of_eq_false hopen)
  | fill hunread hanswer =>
      rcases h.position.of_unanswered hanswer with
        ⟨hplain, expects, hreads, hinterim⟩ | ⟨hx, hfinished⟩
      · rw [hunread, ← List.append_assoc] at hreads
        exact h.reading hanswer hplain hreads hinterim
      · exact ⟨.failed hx hfinished, h.answered, h.current, h.handled⟩
  | line hready hanswer hwait hdata hline hfits =>
      exact h.line hready hanswer hwait hdata hline hfits
  | body hready hanswer hwait hlen hfits => exact h.body hready hanswer hwait hlen hfits
  | eof hready hanswer hstart hwaiting heof hfits =>
      exact h.eof hready hanswer hstart hwaiting heof hfits
  | expect hexpect hready hanswer hout => exact h.expect hexpect hready hanswer _
  | handle hready hanswer hlen hfinal hout => exact h.handle hready hanswer hlen _ _

theorem Follows.moves (h : Follows stream s) (hmoves : Moves s s') :
    Follows stream s' := by
  induction hmoves with
  | refl => exact h
  | tail _ hmove ih => exact ih.move hmove

theorem follows_start {S : Type*} (block : Fin 3 → ℕ → Byte) (s : S)
    (stream : List Byte) : Follows stream (blListenCb block s stream).session where
  position := .reading rfl rfl (.refl _ _) le_rfl
  answered htrue := nomatch htrue
  current := counted_zero stream
  handled _ he := absurd he List.not_mem_nil

/-! ## The end of a session -/

/-- A session that is over has handled the requests of the whole stream. -/
theorem Follows.finished (h : Follows stream s) (hover : Over s) :
    Finished stream (s.handled.map Exchange.request) := by
  cases hover with
  | last hready hsent hclose =>
      cases h.position with
      | reading hanswer => exact absurd hready (ne_true_of_eq_false hanswer)
      | failed hx =>
          rw [hx] at hready
          cases hready
      | answered _ hopen => exact absurd hclose (ne_true_of_eq_false hopen)
      | last _ _ hfinished => exact hfinished
  | full hready hanswer hwaiting hfull =>
      obtain ⟨-, expects, hreads, -⟩ := h.position.of_notReady hready hanswer
      refine ⟨_, _, _, hreads, nextItem_full hready hwaiting hfull s.unread, ?_⟩
      have hlong : ¬ (s.data ++ s.unread).length < blQBufSize := by
        rw [List.length_append, hfull]
        omega
      rw [lastRequests, decide_eq_false hlong, Bool.and_false,
        if_neg Bool.false_ne_true, List.append_nil]
  | ended hready hanswer hwaiting heof hstart hfits =>
      obtain ⟨-, expects, hreads, -⟩ := h.position.of_notReady hready hanswer
      rw [heof, List.append_nil] at hreads
      refine ⟨_, _, _, hreads, nextItem_eof hready hwaiting, ?_⟩
      rw [lastRequests, hstart, Bool.false_and, if_neg Bool.false_ne_true,
        List.append_nil]

/-- A stream has one list of requests. -/
theorem Finished.unique {requests requests' : List Request}
    (h : Finished stream requests) (h' : Finished stream requests') :
    requests = requests' := by
  obtain ⟨outs, s, bytes, hreads, hstuck, rfl⟩ := h
  obtain ⟨outs', s', bytes', hreads', hstuck', rfl⟩ := h'
  obtain ⟨rfl, rfl, rfl⟩ := hreads.unique hstuck hreads' hstuck'
  rfl

end Moves

/-! ## Chunking independence -/

variable {S T : Type*}

/-- The requests that a connection has handled when it closes are those of its
stream. -/
theorem finished_of_closed {app : App S} (hkeeps : app.KeepsOpen)
    (block : Fin 3 → ℕ → Byte) (s : S) (stream : List Byte) {turns : List Turn}
    (hclean : ∀ t ∈ turns, t.Clean)
    (hclosed : ((blListenCb block s stream).run app turns).closed = true) :
    Finished stream
      (((blListenCb block s stream).run app turns).handled.map Exchange.request) := by
  have hok := blListenCb_ok app block s stream
  have hover := over_of_closed hok rfl hkeeps hclean hclosed
  have hmoves := (reached_run (fun _ => hok) turns).moves
  exact ((follows_start block s stream).moves hmoves).finished hover

/-- Two connections over the same stream, without errors and with handlers that
never set `r_close`, have handled the same requests when they are closed,
whatever their turns. -/
theorem chunking_independence {app : App S} {app' : App T} (hkeeps : app.KeepsOpen)
    (hkeeps' : app'.KeepsOpen) (block block' : Fin 3 → ℕ → Byte) (s : S) (s' : T)
    (stream : List Byte) {turns turns' : List Turn} (hclean : ∀ t ∈ turns, t.Clean)
    (hclean' : ∀ t ∈ turns', t.Clean)
    (hclosed : ((blListenCb block s stream).run app turns).closed = true)
    (hclosed' : ((blListenCb block' s' stream).run app' turns').closed = true) :
    ((blListenCb block s stream).run app turns).handled.map Exchange.request =
      ((blListenCb block' s' stream).run app' turns').handled.map Exchange.request :=
  (finished_of_closed hkeeps block s stream hclean hclosed).unique
    (finished_of_closed hkeeps' block' s' stream hclean' hclosed')

theorem chunking_independence_sample :
    (sampleStart.run sampleApp (sampleTurns 4 400)).handled.map Exchange.request =
      ((blListenCb (fun _ _ => 7) () sampleStream).run sampleApp
        (sampleTurns 12 60)).handled.map Exchange.request :=
  chunking_independence sampleApp_keepsOpen sampleApp_keepsOpen (fun _ _ => 0)
    (fun _ _ => 7) () () sampleStream (sampleTurns_clean 4 400) (sampleTurns_clean 12 60)
    (by decide +kernel) (by decide +kernel)

end Xltop.Http
