import Xltop.Http.Session

/-!
# Reading requests

The flags of an exchange while its request is read, what a line does to them,
and the loop over the lines that are at hand.
-/

namespace Xltop.Http

open Xltop.Buffer
open Xltop.Text

/-! ## Lines -/

/-- The flags of an exchange whose request is not handled yet. -/
structure Reading (x : BotzX) : Prop where
  unanswered : x.xRReady = false
  fresh : x.xReadCb = .start → x.xQStart = false ∧ x.xQReady = false ∧
    x.xQBodyWait = false ∧ x.xQBodyLen = 0
  started : x.xReadCb = .header → x.xQStart = true
  wait : x.xQBodyWait = true → 0 < x.xQBodyLen

/-- Nothing but the status of a response changes while its request is read. -/
structure SameResponse (x y : BotzX) : Prop where
  sent : y.xRSent = x.xRSent
  response : ∃ status, y.xR = { x.xR with rStatus := status }

section Lines

variable {x : BotzX}

theorem SameResponse.refl (x : BotzX) : SameResponse x x :=
  ⟨rfl, x.xR.rStatus, rfl⟩

theorem SameResponse.trans {y z : BotzX} (h : SameResponse x y) (h' : SameResponse y z) :
    SameResponse x z := by
  obtain ⟨status, hstatus⟩ := h.response
  obtain ⟨status', hstatus'⟩ := h'.response
  exact ⟨h'.sent.trans h.sent, status', by rw [hstatus', hstatus]⟩

theorem SameResponse.ok {y : BotzX} (h : SameResponse x y) (hok : x.xR.Ok) : y.xR.Ok := by
  obtain ⟨status, hstatus⟩ := h.response
  rw [hstatus]
  exact ⟨hok.body, hok.size, hok.type⟩

theorem SameResponse.close {y : BotzX} (h : SameResponse x y) :
    y.xR.rClose = x.xR.rClose := by
  obtain ⟨status, hstatus⟩ := h.response
  rw [hstatus]

theorem sameResponse_error (x y : BotzX) (hsent : y.xRSent = x.xRSent)
    (hresponse : y.xR = x.xR) (status : Int32) : SameResponse x (bxError y status) := by
  refine ⟨hsent, ?_⟩
  rw [← hresponse, bxError]
  simp only
  split_ifs <;> exact ⟨_, rfl⟩

/-- What a line does; a request that it makes ready has no body. -/
structure LineRead (x y : BotzX) : Prop extends SameResponse x y where
  reading : Reading y
  noBody : y.xQReady = true → y.xQBodyLen = 0

theorem lineRead_error (x y : BotzX) (hsent : y.xRSent = x.xRSent)
    (hresponse : y.xR = x.xR) (hanswer : y.xRReady = false)
    (hcb : y.xReadCb = .header) (hstart : y.xQStart = true)
    (hwait : y.xQBodyWait = false) (hlen : y.xQBodyLen = 0) (status : Int32) :
    LineRead x (bxError y status) where
  toSameResponse := sameResponse_error x y hsent hresponse status
  reading :=
    { unanswered := hanswer
      fresh := fun h => by
        change y.xReadCb = .start at h
        rw [hcb] at h
        cases h
      started := fun _ => hstart
      wait := fun h => by
        change y.xQBodyWait = true at h
        rw [hwait] at h
        cases h }
  noBody _ := hlen

theorem Reading.readStart (h : Reading x) (hcb : x.xReadCb = .start) (msg : CString) :
    LineRead x (bxReadStart x msg) := by
  obtain ⟨-, hready, hwait, hlen⟩ := h.fresh hcb
  have herror := lineRead_error x { x with xReadCb := .header, xQStart := true } rfl rfl
    h.unanswered rfl rfl hwait hlen
  rw [bxReadStart.eq_def]
  cases (split 3 (some msg)).1 with
  | nil => exact ⟨.refl x, h, fun _ => hlen⟩
  | cons method rest =>
      rcases rest with _ | ⟨path, _ | ⟨version, _ | ⟨extra, more⟩⟩⟩
      · exact herror 400
      · exact herror 400
      · simp only
        cases bxParseMethod method with
        | error status => exact herror status
        | ok qMethod =>
            exact ⟨⟨rfl, x.xR.rStatus, rfl⟩, ⟨h.unanswered, (fun hcb => by cases hcb),
              fun _ => rfl, h.wait⟩, fun _ => hlen⟩
      · exact herror 400

theorem Reading.readHeader (h : Reading x) (hcb : x.xReadCb = .header)
    (hready : x.xQReady = false) (hwait : x.xQBodyWait = false) (msg : CString) :
    LineRead x (bxReadHeader x msg) := by
  have hheader : x.xReadCb ≠ .start := by
    rw [hcb]
    exact ReadCb.noConfusion
  have hnot : x.xQReady ≠ true := by
    rw [hready]
    exact Bool.false_ne_true
  have hother : ∀ (bodyLen : ℕ) (close expect : Bool), LineRead x
      { x with xQBodyLen := bodyLen, xClose := close, xExpect100 := expect } :=
    fun _ _ _ => ⟨⟨rfl, x.xR.rStatus, rfl⟩, ⟨h.unanswered,
      fun hstart => absurd hstart hheader, h.started,
      fun hw => absurd hw (ne_true_of_eq_false hwait)⟩,
      fun hr => absurd hr hnot⟩
  rw [bxReadHeader.eq_def]
  cases (split 2 (some msg)).1 with
  | nil =>
      simp only
      split
      · next hlen =>
          exact ⟨⟨rfl, x.xR.rStatus, rfl⟩, ⟨h.unanswered,
            fun hstart => absurd hstart hheader, h.started, fun _ => hlen⟩,
            fun hr => absurd hr hnot⟩
      · next hlen =>
          exact ⟨⟨rfl, x.xR.rStatus, rfl⟩, ⟨h.unanswered,
            fun hstart => absurd hstart hheader, h.started, h.wait⟩,
            fun _ => Nat.eq_zero_of_not_pos hlen⟩
  | cons name rest =>
      simp only
      split_ifs <;> first
        | exact ⟨.refl x, h, fun hr => absurd hr hnot⟩
        | exact hother _ _ _

/-- A line is read as long as its request is neither ready nor waits for its
body. -/
theorem Reading.read (h : Reading x) (hready : x.xQReady = false)
    (hwait : x.xQBodyWait = false) (line : List Byte) : LineRead x (x.read line) := by
  rw [BotzX.read]
  cases hcb : x.xReadCb with
  | start => exact h.readStart hcb (cstr line)
  | header => exact h.readHeader hcb hready hwait (cstr line)

end Lines

/-! ## The loop -/

section Loop

/-- What every line and every complete body keeps holds after the loop. -/
theorem readLoop_rule {motive : BotzX → List Byte → Prop}
    (hline : ∀ {x line rest}, motive x (line ++ 10 :: rest) → x.xQReady = false →
      x.xQBodyWait = false → 10 ∉ line → motive (x.read line) rest)
    (hbody : ∀ {x data}, motive x data → x.xQReady = false → x.xQBodyWait = true →
      x.xQBodyLen ≤ data.length → motive { x with xQReady := true } data)
    (fuel : ℕ) {x : BotzX} {nb : NBuf} (h : nb.Check) (hstart : motive x nb.data) :
    (readLoop fuel x nb).2.Check ∧ (readLoop fuel x nb).2.nbSize = nb.nbSize ∧
      motive (readLoop fuel x nb).1 (readLoop fuel x nb).2.data := by
  induction fuel generalizing x nb with
  | zero => exact ⟨h, rfl, hstart⟩
  | succ fuel ih =>
      rw [readLoop]
      by_cases hstop : (nBufIsEmpty nb || x.xQReady) = true
      · rw [if_pos hstop]
        exact ⟨h, rfl, hstart⟩
      · rw [if_neg hstop]
        rw [Bool.or_eq_true, not_or, Bool.not_eq_true, Bool.not_eq_true] at hstop
        by_cases hwait : x.xQBodyWait = true
        · rw [if_pos hwait]
          split
          · next hlen =>
              rw [← length_data] at hlen
              exact ⟨h, rfl, hbody hstart hstop.2 hwait hlen⟩
          · exact ⟨h, rfl, hstart⟩
        · rw [if_neg hwait]
          rw [Bool.not_eq_true] at hwait
          cases hget : nBufGetMsg nb with
          | none => exact ⟨h, rfl, hstart⟩
          | some taken =>
              obtain ⟨msg, nb'⟩ := taken
              have htaken := nBufGetMsg_spec h hget
              have hnext := hline (htaken.bytes ▸ hstart) hstop.2 hwait htaken.line
              obtain ⟨hcheck, hsize, hend⟩ := ih htaken.check hnext
              exact ⟨hcheck, hsize.trans htaken.size, hend⟩

/-- With a round for each byte, the loop goes on until the request is ready or
more bytes are needed. -/
theorem readLoop_stops {fuel : ℕ} {x : BotzX} {nb : NBuf} (h : nb.Check)
    (hfuel : nb.data.length < fuel) :
    (readLoop fuel x nb).1.xQReady = true ∨ (readLoop fuel x nb).2.data = [] ∨
      Waiting (readLoop fuel x nb).1 (readLoop fuel x nb).2.data := by
  induction fuel generalizing x nb with
  | zero => exact absurd hfuel (Nat.not_lt_zero _)
  | succ fuel ih =>
      rw [readLoop]
      by_cases hstop : (nBufIsEmpty nb || x.xQReady) = true
      · rw [if_pos hstop]
        rw [Bool.or_eq_true, nBufIsEmpty_iff h] at hstop
        rcases hstop with hempty | hready
        · exact .inr (.inl hempty)
        · exact .inl hready
      · rw [if_neg hstop]
        by_cases hwait : x.xQBodyWait = true
        · rw [if_pos hwait]
          split
          · exact .inl rfl
          · next hlen =>
              refine .inr (.inr ?_)
              rw [Waiting, if_pos hwait, length_data]
              exact Nat.lt_of_not_le hlen
        · rw [if_neg hwait]
          cases hget : nBufGetMsg nb with
          | none =>
              refine .inr (.inr ?_)
              rw [Waiting, if_neg hwait]
              exact nBufGetMsg_eq_none.1 hget
          | some taken =>
              obtain ⟨msg, nb'⟩ := taken
              have htaken := nBufGetMsg_spec h hget
              have hlength := congrArg List.length htaken.bytes
              rw [List.length_append, List.length_cons] at hlength
              exact ih htaken.check (by omega)

end Loop

end Xltop.Http
