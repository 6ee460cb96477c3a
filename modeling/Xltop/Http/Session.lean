import Xltop.Http.Botz
import Mathlib.Logic.Relation

/-!
# Sessions

What a connection is for, without its buffers: bytes come in and are cut into
lines and bodies, requests are handled in order, and replies go out.  A
`Session` is a connection with lists for buffers, and a `Move` is one thing
that can happen to it; which moves one callback makes, and when, is left open.
-/

namespace Xltop.Http

open Xltop.Buffer
open Xltop.Text

/-! ## The part of an exchange that reading depends on -/

def blankResponse : Response :=
  ⟨0, nBufInit (fun _ => 0) 0, [], false⟩

/-- An exchange without its response and the interim response it owes. -/
def BotzX.plain (x : BotzX) : BotzX :=
  { x with xR := blankResponse, xExpect100 := false, xRSent := false }

/-- Every exchange starts like this. -/
def freshX : BotzX := (bxReset (nBufInit (fun _ => 0) 0)).plain

/-- An incomplete request at EOF. -/
def failedX : BotzX := (bxError freshX 400).plain

section Plain

variable (x : BotzX)

@[simp]
theorem plain_plain : x.plain.plain = x.plain := rfl

theorem plain_reset (cRBody : NBuf) : (bxReset cRBody).plain = freshX := rfl

theorem plain_error (status : Int32) : (bxError x status).plain =
    { x.plain with xClose := true, xQReady := true } := rfl

theorem error_plain (status : Int32) :
    (bxError x status).plain = (bxError x.plain status).plain ∧
      (bxError x status).xExpect100 =
        (x.xExpect100 || (bxError x.plain status).xExpect100) :=
  ⟨rfl, (Bool.or_false _).symm⟩

/-- A line does the same to an exchange and to its plain part. -/
theorem readHeader_plain (msg : CString) :
    (bxReadHeader x msg).plain = (bxReadHeader x.plain msg).plain ∧
      (bxReadHeader x msg).xExpect100 =
        (x.xExpect100 || (bxReadHeader x.plain msg).xExpect100) := by
  rw [bxReadHeader.eq_def, bxReadHeader.eq_def]
  cases (split 2 (some msg)).1 with
  | nil =>
      by_cases hlen : 0 < x.xQBodyLen
      · have hplain : 0 < x.plain.xQBodyLen := hlen
        simp only [if_pos hlen, if_pos hplain]
        exact ⟨rfl, (Bool.or_false _).symm⟩
      · have hplain : ¬ 0 < x.plain.xQBodyLen := hlen
        simp only [if_neg hlen, if_neg hplain]
        exact ⟨rfl, (Bool.or_false _).symm⟩
  | cons name rest =>
      simp only
      split_ifs <;> first
        | exact ⟨rfl, (Bool.or_false _).symm⟩
        | exact ⟨rfl, (Bool.or_true _).symm⟩

theorem readStart_plain (msg : CString) :
    (bxReadStart x msg).plain = (bxReadStart x.plain msg).plain ∧
      (bxReadStart x msg).xExpect100 =
        (x.xExpect100 || (bxReadStart x.plain msg).xExpect100) := by
  rw [bxReadStart.eq_def, bxReadStart.eq_def]
  cases (split 3 (some msg)).1 with
  | nil => exact ⟨rfl, (Bool.or_false _).symm⟩
  | cons method rest =>
      have herror := error_plain { x with xReadCb := .header, xQStart := true }
      rcases rest with _ | ⟨path, _ | ⟨version, _ | ⟨extra, more⟩⟩⟩
      · exact herror 400
      · exact herror 400
      · simp only
        cases bxParseMethod method with
        | error status => exact herror status
        | ok qMethod => exact ⟨rfl, (Bool.or_false _).symm⟩
      · exact herror 400

theorem read_plain (line : List Byte) :
    (x.read line).plain = (x.plain.read line).plain ∧
      (x.read line).xExpect100 = (x.xExpect100 || (x.plain.read line).xExpect100) := by
  have hplain : x.plain.xReadCb = x.xReadCb := rfl
  rw [BotzX.read, BotzX.read, hplain]
  cases x.xReadCb with
  | start => exact readStart_plain x (cstr line)
  | header => exact readHeader_plain x (cstr line)

end Plain

/-! ## What goes out -/

def continueText : CString :=
  lit "HTTP/1.1 100 Continue\r\n\r\n"

/-- The header of a response; `n` is the length of its body. -/
def headerText (r : Response) (n : ℕ) : CString :=
  lit "HTTP/1.1 " ++ decimalInt r.rStatus.toInt ++ lit " " ++
      botzStrstatus r.rStatus ++ lit "\r\n" ++
    (if r.rStatus = 204 then []
      else lit "Content-Type: " ++
        (if r.rBodyType.length ≠ 0 then r.rBodyType else lit "text/plain") ++
        lit "\r\nContent-Length: " ++ decimal n ++ lit "\r\n") ++
    (if r.rStatus < 300 then lit "Access-Control-Allow-Origin: *\r\n" else []) ++
    (if r.rClose then lit "Connection: close\r\n" else []) ++
    lit "\r\n"

/-- A response with its final status; that without content has no body. -/
structure Response.Final (r : Response) : Prop where
  ok : r.Ok
  status : 0 < r.rStatus
  empty : r.rStatus = 204 → r.rBody.data = []

/-- A header and the body that follows it. -/
def Response.bytes (r : Response) : List Byte :=
  headerText r r.rBody.data.length ++ r.rBody.data

/-! ## Sessions and their moves -/

structure Session where
  x : BotzX
  expect : Bool
  data : List Byte
  queue : List Byte
  unread : List Byte
  written : List Byte
  interim : ℕ
  handled : List Exchange

/-- The bytes that wait to be written. -/
def World.queue {S : Type*} (w : World S) : List Byte :=
  w.conn.cRHeader.data ++
    if w.conn.cX.xRReady then w.conn.cX.xR.rBody.data else []

/-- A connection as a session. -/
def World.session {S : Type*} (w : World S) : Session where
  x := w.conn.cX.plain
  expect := w.conn.cX.xExpect100
  data := w.conn.cQBuf.data
  queue := w.queue
  unread := w.unread
  written := w.written
  interim := w.interim
  handled := w.handled

/-- The bytes at hand do not contain the next line, or the whole body. -/
def Waiting (x : BotzX) (data : List Byte) : Prop :=
  if x.xQBodyWait then data.length < x.xQBodyLen else 10 ∉ data

/-- The exchange after the request has been handled.  Without a path, looking
it up is an error. -/
def BotzX.answered (x : BotzX) : BotzX :=
  { x with xRReady := true, xClose := x.xClose || x.xQ.qPath.isNone }

/-- The exchange with the body of its request, at the front of the bytes at
hand. -/
def BotzX.takeBody (x : BotzX) (data : List Byte) : BotzX :=
  x.withBody (data.take x.xQBodyLen)

/-- A queue this short leaves room for the longest header. -/
abbrev shortQueue : ℕ := 64

inductive Move : Session → Session → Prop where
  | write {s : Session} {out rest : List Byte} (hqueue : s.queue = out ++ rest) :
      Move s { s with queue := rest, written := s.written ++ out }
  | next {s : Session} (hready : s.x.xRReady = true) (hsent : s.queue = [])
      (hopen : s.x.xClose = false) :
      Move s { s with x := freshX, expect := false }
  | fill {s : Session} {got rest : List Byte} (hunread : s.unread = got ++ rest)
      (hready : s.x.xRReady = false) :
      Move s { s with data := s.data ++ got, unread := rest }
  | line {s : Session} {line rest : List Byte} (hready : s.x.xQReady = false)
      (hanswer : s.x.xRReady = false) (hwait : s.x.xQBodyWait = false)
      (hdata : s.data = line ++ 10 :: rest) (hline : 10 ∉ line)
      (hfits : s.data.length ≤ blQBufSize) :
      Move s { s with
        x := (s.x.read line).plain
        expect := s.expect || (s.x.read line).xExpect100
        data := rest }
  | body {s : Session} (hready : s.x.xQReady = false)
      (hanswer : s.x.xRReady = false) (hwait : s.x.xQBodyWait = true)
      (hlen : s.x.xQBodyLen ≤ s.data.length) (hfits : s.data.length ≤ blQBufSize) :
      Move s { s with x := { s.x with xQReady := true } }
  | eof {s : Session} (hready : s.x.xQReady = false)
      (hanswer : s.x.xRReady = false) (hstart : s.x.xQStart = true)
      (hwaiting : Waiting s.x s.data) (heof : s.unread = [])
      (hfits : s.data.length < blQBufSize) :
      Move s { s with x := failedX, expect := false }
  | expect {s : Session} (hexpect : s.expect = true) (hready : s.x.xQReady = false)
      (hanswer : s.x.xRReady = false) {out : List Byte}
      (hout : s.queue.length ≤ shortQueue → out = continueText) :
      Move s { s with
        expect := false
        queue := s.queue ++ out
        interim := s.interim + 1 }
  | handle {s : Session} (hready : s.x.xQReady = true) (hanswer : s.x.xRReady = false)
      (hlen : s.x.xQBodyLen ≤ s.data.length) {r : Response} {out : List Byte}
      (hfinal : r.Final)
      (hout : s.queue.length ≤ shortQueue → out = r.bytes) :
      Move s { s with
        x := (s.x.takeBody s.data).answered
        data := s.data.drop s.x.xQBodyLen
        queue := s.queue ++ out
        interim := 0
        handled := s.handled ++ [⟨s.interim, (s.x.takeBody s.data).xQ, r⟩] }

/-- Any number of moves. -/
abbrev Moves := Relation.ReflTransGen Move

/-- The end of a session: the exchange was the last one, the buffer is full, or
the peer has ended the stream between requests. -/
inductive Over (s : Session) : Prop where
  | last (hready : s.x.xRReady = true) (hsent : s.queue = [])
      (hclose : s.x.xClose = true)
  | full (hready : s.x.xQReady = false) (hanswer : s.x.xRReady = false)
      (hwaiting : Waiting s.x s.data) (hfull : s.data.length = blQBufSize)
  | ended (hready : s.x.xQReady = false) (hanswer : s.x.xRReady = false)
      (hwaiting : Waiting s.x s.data) (heof : s.unread = [])
      (hstart : s.x.xQStart = false) (hfits : s.data.length < blQBufSize)

end Xltop.Http
