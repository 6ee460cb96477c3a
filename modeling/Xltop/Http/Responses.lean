import Xltop.Http.Requests

/-!
# Responses go out in order

What a connection has queued or written is the interim responses of a request,
the header that `br_write_header` writes for it, its body, and then the same for
the next one, and only the last of these is not written yet.
-/

namespace Xltop.Http

open Xltop.Buffer
open Xltop.Incremental
open Xltop.Text

/-! ## Replies -/

/-- The interim responses before the header. -/
def interims (n : ℕ) : List Byte :=
  (List.replicate n continueText).flatten

/-- The header that `br_write_header` writes for a response. -/
def Response.header (r : Response) : List Byte :=
  (brWriteHeader r (nBufInit (fun _ => 0) blRHeaderSize)).2.data

/-- All that is sent for a request. -/
def Exchange.bytes (e : Exchange) : List Byte :=
  interims e.interim ++ e.response.header ++ e.response.rBody.data

/-- The header announces the body that follows it; a response without content has
none. -/
def Response.Framed (r : Response) : Prop :=
  (r.rStatus = 204 ∧ r.rBody.data = []) ∨
    ∃ front tail, r.header = front ++
      (lit "Content-Length: " ++ decimal r.rBody.data.length ++ lit "\r\n") ++ tail

/-- Each request of a stream has at most one `Expect` header. -/
def ExpectOnce (stream : List Byte) : Prop :=
  ∀ requests x expects rest,
    Reads nextItem (some (freshX, 0)) stream requests (some (x, expects)) rest →
      expects ≤ 1

/-- The replies so far: to the requests that have been handled, and what has
been sent for the next one. -/
def World.replies {S : Type*} (w : World S) : List (List Byte) :=
  w.handled.map Exchange.bytes ++ if w.interim = 0 then [] else [interims w.interim]

/-- The replies are queued and written one after the other. -/
structure InOrder {S : Type*} (w : World S) : Prop where
  interims : ∀ e ∈ w.handled, e.interim ≤ 1
  interim : w.interim ≤ 1
  framed : ∀ e ∈ w.handled, e.response.Framed
  /-- all replies but the last have been written, and the queue is what is
  missing of the last -/
  pending : ∃ done last sent, w.replies = done ++ last ∧ last.length ≤ 1 ∧
    w.written = done.flatten ++ sent ∧ last.flatten = sent ++ w.queue

theorem interims_succ (n : ℕ) : interims (n + 1) = interims n ++ continueText := by
  rw [interims, List.replicate_succ', List.flatten_concat, interims]

theorem ExpectOnce.le {stream : List Byte} (h : ExpectOnce stream) {expects : ℕ}
    (hcounted : Counted stream expects) : expects ≤ 1 := by
  obtain ⟨outs, x, more, bytes, hreads, hmore⟩ := hcounted
  exact hmore.trans (h outs x more bytes hreads)

section Final

variable {r : Response}

theorem Response.Final.bytes (h : r.Final) : r.header ++ r.rBody.data = r.bytes := by
  rw [Response.header, header_of_final h, Response.bytes]

theorem Response.Final.framed (h : r.Final) : r.Framed := by
  by_cases h204 : r.rStatus = 204
  · exact .inl ⟨h204, h.empty h204⟩
  · refine .inr ⟨lit "HTTP/1.1 " ++ decimalInt r.rStatus.toInt ++ lit " " ++
      botzStrstatus r.rStatus ++ lit "\r\n" ++ lit "Content-Type: " ++
      (if r.rBodyType.length ≠ 0 then r.rBodyType else lit "text/plain") ++ lit "\r\n",
      (if r.rStatus < 300 then lit "Access-Control-Allow-Origin: *\r\n" else []) ++
      (if r.rClose then lit "Connection: close\r\n" else []) ++ lit "\r\n", ?_⟩
    have hcontent : lit "\r\nContent-Length: " = lit "\r\n" ++ lit "Content-Length: " :=
      rfl
    rw [Response.header, header_of_final h, headerText, if_neg h204, hcontent]
    simp only [List.append_assoc]

end Final

/-! ## What moves keep -/

/-- What has been written of the current reply, and that nothing else waits. -/
inductive Sending (s : Session) : Prop where
  | next {sent : List Byte} (hanswer : s.x.xRReady = false)
      (hwritten : s.written = (s.handled.map Exchange.bytes).flatten ++ sent)
      (hqueue : interims s.interim = sent ++ s.queue)
  | handled {done : List Exchange} {e : Exchange} {sent : List Byte}
      (hanswer : s.x.xRReady = true) (hhandled : s.handled = done ++ [e])
      (hinterim : s.interim = 0)
      (hwritten : s.written = (done.map Exchange.bytes).flatten ++ sent)
      (hqueue : e.bytes = sent ++ s.queue)

/-- The current reply, and the responses so far. -/
structure Replying (s : Session) : Prop where
  sending : Sending s
  framed : ∀ e ∈ s.handled, e.response.Framed

section Moves

variable {stream : List Byte} {s s' : Session}

/-- Before its request is handled, only interim responses are sent. -/
theorem Sending.unanswered (h : Sending s) (hanswer : s.x.xRReady = false) :
    ∃ sent, s.written = (s.handled.map Exchange.bytes).flatten ++ sent ∧
      interims s.interim = sent ++ s.queue := by
  cases h with
  | next _ hwritten hqueue => exact ⟨_, hwritten, hqueue⟩
  | handled htrue => exact absurd htrue (ne_true_of_eq_false hanswer)

/-- One interim response leaves room for the header. -/
theorem queue_short {sent queue : List Byte} {n : ℕ} (hn : n ≤ 1)
    (hqueue : interims n = sent ++ queue) : queue.length ≤ shortQueue := by
  have hinterims : (interims n).length ≤ shortQueue := by
    rcases Nat.le_one_iff_eq_zero_or_eq_one.1 hn with rfl | rfl <;> decide
  have hlength := congrArg List.length hqueue
  rw [List.length_append] at hlength
  omega

theorem Sending.write (h : Sending s) {out rest : List Byte}
    (hout : s.queue = out ++ rest) :
    Sending { s with queue := rest, written := s.written ++ out } := by
  cases h with
  | next hanswer hwritten hqueue =>
      refine .next hanswer (hwritten ▸ List.append_assoc _ _ _) ?_
      rw [hqueue, hout, List.append_assoc]
  | handled hanswer hhandled hinterim hwritten hqueue =>
      refine .handled hanswer hhandled hinterim (hwritten ▸ List.append_assoc _ _ _) ?_
      rw [hqueue, hout, List.append_assoc]

/-- After the response has been sent, the next exchange starts with nothing to
send. -/
theorem Sending.reset (h : Sending s) (hready : s.x.xRReady = true)
    (hsent : s.queue = []) :
    Sending { s with x := freshX, expect := false } := by
  cases h with
  | next hanswer => exact absurd hready (ne_true_of_eq_false hanswer)
  | @handled done e sent _ hhandled hinterim hwritten hqueue =>
      rw [hsent, List.append_nil] at hqueue
      have hall : s.written = (s.handled.map Exchange.bytes).flatten ++ [] := by
        rw [hwritten, hhandled, List.map_append, List.flatten_append, List.map_singleton,
          List.flatten_singleton, hqueue, List.append_nil]
      refine .next rfl hall ?_
      rw [hinterim, hsent]
      rfl

theorem Sending.expect (h : Sending s) (hanswer : s.x.xRReady = false)
    (hinterim : s.interim ≤ 1) {out : List Byte}
    (hout : s.queue.length ≤ shortQueue → out = continueText) :
    Sending { s with
      expect := false
      queue := s.queue ++ out
      interim := s.interim + 1 } := by
  obtain ⟨sent, hwritten, hqueue⟩ := h.unanswered hanswer
  refine .next hanswer hwritten ?_
  rw [interims_succ, hqueue, hout (queue_short hinterim hqueue), List.append_assoc]

theorem Sending.handle (h : Sending s) (hanswer : s.x.xRReady = false)
    (hinterim : s.interim ≤ 1) {r : Response} (hfinal : r.Final) {out : List Byte}
    (hout : s.queue.length ≤ shortQueue → out = r.bytes) :
    Sending { s with
      x := (s.x.takeBody s.data).answered
      data := s.data.drop s.x.xQBodyLen
      queue := s.queue ++ out
      interim := 0
      handled := s.handled ++ [⟨s.interim, (s.x.takeBody s.data).xQ, r⟩] } := by
  obtain ⟨sent, hwritten, hqueue⟩ := h.unanswered hanswer
  refine .handled rfl rfl rfl hwritten ?_
  rw [Exchange.bytes, List.append_assoc, hfinal.bytes, hqueue,
    hout (queue_short hinterim hqueue), List.append_assoc]

/-- Nothing is sent while a request is read. -/
theorem Sending.same (h : Sending s) (hanswer : s.x.xRReady = false) {x : BotzX}
    (hx : x.xRReady = false) (expect : Bool) (data unread : List Byte) :
    Sending { s with x := x, expect := expect, data := data, unread := unread } := by
  obtain ⟨sent, hwritten, hqueue⟩ := h.unanswered hanswer
  exact .next hx hwritten hqueue

theorem Replying.move (h : Replying s) (hinterim : s.interim ≤ 1) (hmove : Move s s') :
    Replying s' := by
  cases hmove with
  | write hout => exact ⟨h.sending.write hout, h.framed⟩
  | next hready hsent _ => exact ⟨h.sending.reset hready hsent, h.framed⟩
  | fill _ hanswer => exact ⟨h.sending.same hanswer hanswer _ _ _, h.framed⟩
  | @line line rest _ hanswer =>
      have hanswer' : (s.x.read line).plain.xRReady = false :=
        (read_rReady s.x line).trans hanswer
      exact ⟨h.sending.same hanswer hanswer' _ _ _, h.framed⟩
  | body hready hanswer =>
      exact ⟨h.sending.same (x := { s.x with xQReady := true }) hanswer hanswer _ _ _,
        h.framed⟩
  | eof hready hanswer => exact ⟨h.sending.same hanswer rfl _ _ _, h.framed⟩
  | expect _ _ hanswer hout => exact ⟨h.sending.expect hanswer hinterim hout, h.framed⟩
  | handle _ hanswer _ hfinal hout =>
      refine ⟨h.sending.handle hanswer hinterim hfinal hout, fun e he => ?_⟩
      rcases List.mem_append.1 he with hold | hnew
      · exact h.framed e hold
      · rw [List.mem_singleton.1 hnew]
        exact hfinal.framed

theorem Replying.moves (h : Replying s) (hfollows : Follows stream s)
    (honce : ExpectOnce stream) (hmoves : Moves s s') : Replying s' := by
  induction hmoves with
  | refl => exact h
  | tail hmoves hmove ih =>
      exact ih.move (honce.le (hfollows.moves hmoves).current) hmove

theorem replying_start {S : Type*} (block : Fin 3 → ℕ → Byte) (s : S)
    (stream : List Byte) : Replying (blListenCb block s stream).session where
  sending := .next rfl rfl rfl
  framed _ he := absurd he List.not_mem_nil

/-- What has been written stays written. -/
theorem Moves.written (h : Moves s s') : s.written <+: s'.written := by
  induction h with
  | refl => exact List.prefix_rfl
  | tail _ hmove ih =>
      apply ih.trans
      cases hmove with
      | write => exact List.prefix_append _ _
      | _ => exact List.prefix_rfl

end Moves

/-! ## Stream integrity -/

variable {S : Type*}

theorem inOrder_of_replying {w : World S} {stream : List Byte} (honce : ExpectOnce stream)
    (hfollows : Follows stream w.session) (h : Replying w.session) : InOrder w where
  interims e he := honce.le (hfollows.handled e he)
  interim := honce.le hfollows.current
  framed := h.framed
  pending := by
    cases h.sending with
    | next _ hwritten hqueue =>
        refine ⟨w.handled.map Exchange.bytes, _, _, rfl, ?_, hwritten, ?_⟩
        · split
          · exact Nat.zero_le _
          · exact le_rfl
        · refine Eq.trans ?_ hqueue
          change _ = interims w.interim
          split
          · next hzero =>
              rw [hzero]
              rfl
          · exact List.flatten_singleton
    | @handled done e sent _ hhandled hinterim hwritten hqueue =>
        refine ⟨done.map Exchange.bytes, [e.bytes], sent, ?_, le_rfl, hwritten, ?_⟩
        · change w.handled = _ at hhandled
          change w.interim = 0 at hinterim
          rw [World.replies, if_pos hinterim, hhandled, List.map_append,
            List.append_nil]
          rfl
        · exact List.flatten_singleton.trans hqueue

/-- Of the replies in order, all that has been written is a prefix. -/
theorem InOrder.sent {w : World S} (h : InOrder w) :
    w.written <+: w.replies.flatten := by
  obtain ⟨done, last, sent, hreplies, -, hwritten, hlast⟩ := h.pending
  rw [hreplies, hwritten, List.flatten_append, hlast, ← List.append_assoc]
  exact List.prefix_append _ _

/-- Over a stream in which each request has at most one `Expect` header, replies
are queued and written one after the other in every state, and what has been
written is a prefix of the replies then and at every later time. -/
theorem response_stream_integrity (app : App S) (block : Fin 3 → ℕ → Byte) (s : S)
    {stream : List Byte} (honce : ExpectOnce stream) (turns : List Turn) :
    InOrder ((blListenCb block s stream).run app turns) ∧
      ∀ later, ((blListenCb block s stream).run app turns).written <+:
        ((blListenCb block s stream).run app (turns ++ later)).replies.flatten := by
  have hreached := reached_run fun _ => blListenCb_ok app block s stream
  have hfollows := follows_start block s stream
  have hinOrder : ∀ turns, InOrder ((blListenCb block s stream).run app turns) :=
    fun turns => inOrder_of_replying honce (hfollows.moves (hreached turns).moves)
      ((replying_start block s stream).moves hfollows honce (hreached turns).moves)
  refine ⟨hinOrder turns, fun later => ?_⟩
  have hsent := (hinOrder (turns ++ later)).sent
  rw [run_append] at hsent ⊢
  exact (reached_run (hreached turns).ok later).moves.written.trans hsent

theorem sampleStream_expectOnce : ExpectOnce sampleStream := by
  intro requests x expects rest hreads
  have hall : allStates nextItem (fun s => (s.map Prod.snd).getD 0 ≤ 1) 8
      (some (freshX, 0)) sampleStream = true := by decide +kernel
  exact of_decide_eq_true (Reads.of_allStates hall hreads :)

theorem response_stream_integrity_sample :
    InOrder (sampleStart.run sampleApp (sampleTurns 3 60)) ∧
      ∀ later, (sampleStart.run sampleApp (sampleTurns 3 60)).written <+:
        (sampleStart.run sampleApp (sampleTurns 3 60 ++ later)).replies.flatten :=
  response_stream_integrity sampleApp (fun _ _ => 0) () sampleStream_expectOnce
    (sampleTurns 3 60)

end Xltop.Http
