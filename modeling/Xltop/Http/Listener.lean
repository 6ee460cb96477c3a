import Xltop.Http.Responses

/-!
# Many connections

The connections of one listening socket share the application: `bl_listen_cb`
adds one, the event loop runs `bc_io_cb` on one of them at a time, and between
these calls the program's own timers change the application.  The callback that
handles a request does so in one go, and so a run is a history of requests and
of other events, one after the other.
-/

namespace Xltop.Http

open Xltop.Buffer
open Xltop.Incremental
open Xltop.Memory
open Xltop.Text

/-! ## The requests of a stream -/

/-- How many items without a byte can follow. -/
def readStage : ReadState → ℕ
  | none => 0
  | some (x, _) => if x.xQReady then 1 else if x.xQBodyWait then 2 else 0

/-- Every item takes bytes, or takes the exchange one stage on. -/
def unreadSize (s : ReadState) (bytes : List Byte) : ℕ :=
  3 * bytes.length + readStage s

theorem readStage_le (s : ReadState) : readStage s ≤ 2 := by
  cases s with
  | none => exact Nat.zero_le 2
  | some read =>
      rw [readStage]
      split
      · omega
      · split <;> omega

theorem readStage_next (x : BotzX) : readStage (nextState x) = 0 := by
  rw [nextState]
  split <;> rfl

theorem nextItem_decreases : Decreases nextItem unreadSize := by
  rintro (_ | ⟨x, expects⟩) bytes s' rest out hnext
  · cases hnext
  rw [nextItem] at hnext
  split at hnext
  · next hready =>
      split at hnext
      · cases hnext
        have hlength := List.length_drop (i := x.xQBodyLen) (l := bytes)
        rw [unreadSize, unreadSize, readStage_next, readStage, if_pos hready]
        omega
      · cases hnext
  · next hready =>
      split at hnext
      · next hwait =>
          split at hnext
          · cases hnext
            rw [unreadSize, unreadSize, readStage, readStage, if_pos rfl, if_neg hready,
              if_pos hwait]
            omega
          · cases hnext
      · split at hnext
        · next hline =>
            cases hnext
            obtain ⟨tail, htail⟩ := exists_line (List.mem_of_mem_take hline)
            have hlength := congrArg List.length htail
            rw [List.length_append, List.length_cons] at hlength
            have hrest := List.length_drop
              (i := (bytes.takeWhile (· != 10)).length + 1) (l := bytes)
            have hstage := readStage_le (some ((x.read
              (bytes.takeWhile (· != 10))).plain, expects +
              (isExpect x (bytes.takeWhile (· != 10))).toNat))
            rw [unreadSize, unreadSize]
            omega
        · cases hnext

/-- All requests of a stream. -/
def requestsOf (stream : List Byte) : List Request :=
  let (outs, s, rest) := readAll nextItem (3 * stream.length + 1) (some (freshX, 0)) stream
  outs ++ lastRequests s rest

theorem finished_requestsOf (stream : List Byte) : Finished stream (requestsOf stream) :=
  ⟨_, _, _, reads_readAll nextItem _ _ stream,
    readAll_stuck nextItem_decreases (Nat.lt_succ_self _), rfl⟩

/-- A session has handled the first requests of its stream. -/
theorem Follows.handled_le {stream : List Byte} {s : Session} (h : Follows stream s) :
    s.handled.map Exchange.request <+: requestsOf stream := by
  have hreads {x : BotzX} {expects : ℕ} {rest : List Byte}
      (hpart : Reads nextItem (some (freshX, 0)) stream (s.handled.map Exchange.request)
        (some (x, expects)) rest) :
      s.handled.map Exchange.request <+: requestsOf stream :=
    (hpart.prefix_readAll nextItem_decreases (Nat.lt_succ_self _)).trans
      (List.prefix_append _ _)
  cases h.position with
  | reading _ _ hpart _ => exact hreads hpart
  | failed _ hfinished =>
      exact (finished_requestsOf stream).unique hfinished ▸ List.prefix_append _ _
  | answered _ _ hpart => exact hreads hpart
  | last _ _ hfinished =>
      exact (finished_requestsOf stream).unique hfinished ▸ List.prefix_refl _

/-! ## Connections -/

/-- A connection of the listener with its timer; the application of `world` is
what it was when its last callback returned. -/
structure Client (S : Type*) where
  stream : List Byte
  /-- `c_timer_w` is active -/
  cTimer : Bool
  world : World S

/-- The application, and the connections in the order in which they were
accepted; one that is closed stays. -/
structure Listener (S : Type*) where
  app : S
  blConnList : List (Client S)

/-- What the event loop does next; `other` events are the application's own. -/
inductive Event (E : Type*) where
  | accept (block : Fin 3 → ℕ → Byte) (stream : List Byte)
  | io (i : ℕ) (t : Turn)
  | timeout (i : ℕ)
  | other (e : E)

variable {S E : Type*}

/-- `bc_io_cb` on the application as it is now. -/
def Client.turn (app : App S) (s : S) (c : Client S) (t : Turn) : Client S :=
  let w := World.step app { c.world with app := s } t
  { c with
    -- `ev_timer_again` stops a timer without a repeat value, and so does `bc_close`
    cTimer := c.cTimer && !w.closed && w.handled.length == c.world.handled.length
    world := w }

/-- `bc_timer_cb` -/
def Client.timeout (c : Client S) : Client S :=
  if c.cTimer then { c with cTimer := false, world := c.world.close } else c

namespace Listener

variable (app : App S) (act : S → E → S)

def start (s : S) : Listener S :=
  ⟨s, []⟩

def step (l : Listener S) : Event E → Listener S
  | .accept block stream =>
      { l with blConnList := l.blConnList ++ [⟨stream, true, blListenCb block l.app stream⟩] }
  | .io i t =>
      match l.blConnList[i]? with
      | none => l
      | some c =>
          let c := c.turn app l.app t
          ⟨c.world.app, l.blConnList.set i c⟩
  | .timeout i => { l with blConnList := l.blConnList.modify i Client.timeout }
  | .other e => { l with app := act l.app e }

def run (l : Listener S) (events : List (Event E)) : Listener S :=
  events.foldl (step app act) l

/-- The exchanges of a connection. -/
def handled (l : Listener S) (i : ℕ) : List Exchange :=
  match l.blConnList[i]? with
  | none => []
  | some c => c.world.handled

def closed (l : Listener S) (i : ℕ) : Bool :=
  match l.blConnList[i]? with
  | none => false
  | some c => c.world.closed

def stream (l : Listener S) (i : ℕ) : List Byte :=
  match l.blConnList[i]? with
  | none => []
  | some c => c.stream

end Listener

/-! ## Histories -/

/-- What happens to the application. -/
inductive Act (E : Type*) where
  | exchange (i : ℕ) (e : Exchange)
  | other (e : E)

/-- What happens to the application because of an event. -/
def Listener.acts (app : App S) (act : S → E → S) (l : Listener S) (event : Event E) :
    List (Act E) :=
  match event with
  | .io i _ => ((Listener.step app act l event).handled i).drop (l.handled i).length |>.map
      (Act.exchange i)
  | .other e => [.other e]
  | _ => []

/-- What happens to the application in a run. -/
def Listener.history (app : App S) (act : S → E → S) (l : Listener S) :
    List (Event E) → List (Act E)
  | [] => []
  | event :: events =>
      l.acts app act event ++ (l.step app act event).history app act events

/-- The exchange of a connection. -/
def Act.exchangeOf (i : ℕ) : Act E → Option Exchange
  | .exchange j e => if j = i then some e else none
  | .other _ => none

def Act.event : Act E → Option E
  | .exchange _ _ => none
  | .other e => some e

def Event.own : Event E → Option E
  | .other e => some e
  | _ => none

/-- The response as `br_write_header` leaves it. -/
def Response.final (r : Response) : Response :=
  let r := if r.rStatus < 0 then { r with rStatus := 500 } else r
  let r := if r.rStatus = 0 then { r with rStatus := 200 } else r
  if r.rStatus = 204 then { r with rBody := nBufClear r.rBody } else r

/-- `bx_handle` on a request: one without a path is refused before the
application sees it. -/
def App.handle (app : App S) (s : S) (q : Request) (r : Response) : Response × S :=
  match q.qPath with
  | none => ({ r with rStatus := if r.rStatus < 400 then 400 else r.rStatus }, s)
  | some _ => app.answer s q r

/-- The response that a handler is given; its status is set when the request
could not be read. -/
structure Response.Unset (q : Request) (r : Response) : Prop where
  size : r.rBody.nbSize = blRBodySize
  body : r.rBody.nbStart = 0 ∧ r.rBody.nbEnd = 0
  type : r.rBodyType = []
  close : r.rClose = false
  status : q.qPath ≠ none → r.rStatus = 0

/-- Every exchange and every other event is what the application makes of its
state at that point. -/
inductive History (app : App S) (act : S → E → S) : S → List (Act E) → S → Prop
  | start (s : S) : History app act s [] s
  | exchange {s s' : S} {acts : List (Act E)} (h : History app act s acts s') (i n : ℕ)
      {q : Request} {r : Response} (hunset : r.Unset q) :
      History app act s
        (acts ++ [.exchange i ⟨n, q, (app.handle s' q r).1.final⟩]) (app.handle s' q r).2
  | other {s s' : S} {acts : List (Act E)} (h : History app act s acts s') (e : E) :
      History app act s (acts ++ [.other e]) (act s' e)

/-- What came before an exchange, and how it was answered. -/
theorem History.exchange_split {app : App S} {act : S → E → S} {s s' : S}
    {acts later : List (Act E)} {i : ℕ} {e : Exchange}
    (h : History app act s (acts ++ .exchange i e :: later) s') :
    ∃ s₁ r, History app act s acts s₁ ∧ r.Unset e.request ∧
      e.response = (app.handle s₁ e.request r).1.final := by
  induction later using List.reverseRecOn generalizing s' with
  | nil =>
      generalize hacts : acts ++ [Act.exchange i e] = acts' at h
      cases h with
      | start => exact absurd hacts (by simp)
      | @exchange s₁ acts₁ h i' n q r hunset =>
          obtain ⟨rfl, hlast⟩ := List.append_inj' hacts rfl
          obtain ⟨-, rfl⟩ := Act.exchange.inj (List.cons.inj hlast).1
          exact ⟨s₁, r, h, hunset, rfl⟩
      | other h e' =>
          cases (List.cons.inj (List.append_inj' hacts rfl).2).1
  | append_singleton later a ih =>
      generalize hacts : acts ++ Act.exchange i e :: (later ++ [a]) = acts' at h
      rw [← List.cons_append, ← List.append_assoc] at hacts
      cases h with
      | start => exact absurd hacts (by simp)
      | @exchange s₁ acts₁ h i' n q r hunset =>
          obtain ⟨rfl, -⟩ := List.append_inj' hacts rfl
          exact ih h
      | other h e' =>
          obtain ⟨rfl, -⟩ := List.append_inj' hacts rfl
          exact ih h

/-! ## What a callback does to the application -/

/-- An exchange whose request is read into an unset response. -/
structure Blank (x : BotzX) : Prop where
  unset : x.xR.Unset x.xQ
  start : x.xReadCb = .start → x.xQReady = false → x.xQ.qPath = none ∧ x.xR.rStatus = 0

section Blank

variable {x : BotzX}

theorem blank_reset {cRBody : NBuf} (hsize : cRBody.nbSize = blRBodySize) :
    Blank (bxReset cRBody) :=
  ⟨⟨hsize, ⟨rfl, rfl⟩, rfl, rfl, fun _ => rfl⟩, fun _ _ => ⟨rfl, rfl⟩⟩

/-- Without a path, an error may set the status. -/
theorem Response.Unset.error (h : x.xR.Unset x.xQ) (hpath : x.xQ.qPath = none)
    (status : Int32) : (bxError x status).xR.Unset (bxError x status).xQ := by
  obtain ⟨-, status', hresponse⟩ := sameResponse_error x x rfl rfl status
  rw [hresponse]
  exact ⟨h.size, h.body, h.type, h.close, fun hsome => absurd hpath hsome⟩

theorem Blank.readStart (h : Blank x) (hcb : x.xReadCb = .start)
    (hready : x.xQReady = false) (msg : CString) : Blank (bxReadStart x msg) := by
  obtain ⟨hpath, hstatus⟩ := h.start hcb hready
  have herror (y : BotzX) (hq : y.xQ = x.xQ) (hr : y.xR = x.xR) (hy : y.xReadCb = .header)
      (status : Int32) : Blank (bxError y status) := by
    refine ⟨Response.Unset.error ?_ (by rw [hq]; exact hpath) status,
      fun hstart => absurd (hy.symm.trans hstart) (by decide)⟩
    rw [hq, hr]
    exact h.unset
  rw [bxReadStart]
  split
  · exact h
  · dsimp only
    split
    · split
      · exact herror { x with xReadCb := .header, xQStart := true } rfl rfl rfl _
      · exact ⟨⟨h.unset.size, h.unset.body, h.unset.type, h.unset.close, fun _ => hstatus⟩,
          fun hstart => nomatch hstart⟩
    · exact herror { x with xReadCb := .header, xQStart := true } rfl rfl rfl 400

/-- A header line changes neither the request line nor the response. -/
theorem readHeader_same (x : BotzX) (msg : CString) :
    (bxReadHeader x msg).xQ = x.xQ ∧ (bxReadHeader x msg).xR = x.xR ∧
      (bxReadHeader x msg).xReadCb = x.xReadCb := by
  rw [bxReadHeader]
  split
  · split <;> exact ⟨rfl, rfl, rfl⟩
  · dsimp only
    split
    · split <;> exact ⟨rfl, rfl, rfl⟩
    · split
      · exact ⟨rfl, rfl, rfl⟩
      · split
        · exact ⟨rfl, rfl, rfl⟩
        · split
          · split <;> exact ⟨rfl, rfl, rfl⟩
          · exact ⟨rfl, rfl, rfl⟩

theorem Blank.read (h : Blank x) (hready : x.xQReady = false) (line : List Byte) :
    Blank (x.read line) := by
  rw [BotzX.read]
  split
  · next hcb => exact h.readStart hcb hready _
  · next hcb =>
      obtain ⟨hq, hr, hcb'⟩ := readHeader_same x (cstr line)
      refine ⟨by rw [hq, hr]; exact h.unset, fun hstart => ?_⟩
      rw [hcb', hcb] at hstart
      cases hstart

theorem Blank.readLoop (h : Blank x) (fuel : ℕ) (nb : NBuf) :
    Blank (readLoop fuel x nb).1 := by
  induction fuel generalizing x nb with
  | zero => exact h
  | succ fuel ih =>
      rw [Http.readLoop]
      split
      · exact h
      · next hstop =>
          rw [Bool.or_eq_true, not_or, Bool.not_eq_true, Bool.not_eq_true] at hstop
          split
          · split
            · exact ⟨h.unset, fun _ hready => absurd hready.symm Bool.false_ne_true⟩
            · exact h
          · split
            · exact h
            · exact ih (h.read hstop.2 _) _

theorem readLoop_rReady (fuel : ℕ) (x : BotzX) (nb : NBuf) :
    (readLoop fuel x nb).1.xRReady = x.xRReady := by
  induction fuel generalizing x nb with
  | zero => rfl
  | succ fuel ih =>
      rw [Http.readLoop]
      split
      · rfl
      · split
        · split <;> rfl
        · split
          · rfl
          · exact (ih _ _).trans (read_rReady x _)

end Blank

/-- A connection that handles nothing. -/
structure Steady (w w' : World S) : Prop where
  app : w'.app = w.app
  handled : w'.handled = w.handled
  cRBody : w'.conn.cRBody = w.conn.cRBody

/-- What a callback does to the application: nothing, or it handles a request. -/
inductive Effect (app : App S) (w w' : World S) : Prop
  | steady (h : Steady w w')
  | handles (n : ℕ) {q : Request} {r : Response} (hunset : r.Unset q)
      (happ : w'.app = (app.handle w.app q r).2)
      (hhandled : w'.handled = w.handled ++ [⟨n, q, (app.handle w.app q r).1.final⟩])
      (hcRBody : w'.conn.cRBody = w.conn.cRBody)

/-- Between callbacks, a request that has no response yet is read into an unset
one. -/
structure Awaits (w : World S) : Prop where
  size : w.conn.cRBody.nbSize = blRBodySize
  blank : w.conn.cX.xRReady = false → Blank w.conn.cX

section Callback

variable {app : App S} {w w₁ w' : World S}

theorem Steady.refl (w : World S) : Steady w w :=
  ⟨rfl, rfl, rfl⟩

theorem Steady.trans (h : Steady w w₁) (h' : Steady w₁ w') : Steady w w' :=
  ⟨h'.app.trans h.app, h'.handled.trans h.handled, h'.cRBody.trans h.cRBody⟩

theorem bcWrite_steady (h : Awaits w) (sys : Sys) :
    Steady w (bcWrite w sys).1 ∧ Awaits (bcWrite w sys).1 := by
  rw [bcWrite]
  dsimp only
  split
  · exact ⟨⟨rfl, rfl, rfl⟩, h.size, h.blank⟩
  · split
    · next hready =>
        rw [Bool.and_eq_true] at hready
        exact ⟨⟨rfl, rfl, rfl⟩, h.size,
          fun hnot => absurd (hready.2.symm.trans hnot) (by decide)⟩
    · exact ⟨⟨rfl, rfl, rfl⟩, h.size, h.blank⟩

/-- `bx_handle` turns the unset response into the answer. -/
theorem bxHandle_eq (app : App S) (s : S) {x : BotzX} (hanswer : x.xRReady = false) :
    (bxHandle app s x).1.xR = (app.handle s x.xQ x.xR).1 ∧
      (bxHandle app s x).2 = (app.handle s x.xQ x.xR).2 ∧
      (bxHandle app s x).1.xQ = x.xQ ∧ (bxHandle app s x).1.xRReady = true := by
  rw [bxHandle, if_neg (ne_true_of_eq_false hanswer), App.handle]
  cases x.xQ.qPath with
  | some path => exact ⟨rfl, rfl, rfl, rfl⟩
  | none =>
      refine ⟨?_, rfl, rfl, rfl⟩
      change (if x.xR.rStatus < 400 then { x.xR with rStatus := 400 } else x.xR) = _
      split <;> rfl

theorem brWriteHeader_final (r : Response) (nb : NBuf) :
    (brWriteHeader r nb).1 = r.final := by
  rw [brWriteHeader, Response.final]
  generalize (if r.rStatus < 0 then { r with rStatus := 500 } else r) = r₁
  generalize (if r₁.rStatus = 0 then { r₁ with rStatus := 200 } else r₁) = r₂
  by_cases h204 : r₂.rStatus = 204
  · simp only [if_pos h204]
  · simp only [if_neg h204]

theorem bcExpect_steady (h : Awaits w) :
    Steady w (bcExpect w).1 ∧ Awaits (bcExpect w).1 := by
  rw [bcExpect]
  dsimp only
  split
  · exact ⟨⟨rfl, rfl, rfl⟩, h.size, fun hanswer => ⟨(h.blank hanswer).unset,
      (h.blank hanswer).start⟩⟩
  · exact ⟨.refl w, h⟩

theorem bcHandle_effect (app : App S) (h : Awaits w) :
    Effect app w (bcHandle app w) ∧ Awaits (bcHandle app w) := by
  rw [bcHandle]
  dsimp only
  split
  · next hready =>
      rw [Bool.and_eq_true, Bool.not_eq_true'] at hready
      have hblank := h.blank hready.2
      obtain ⟨hr, hs, hq, hanswered⟩ := bxHandle_eq app w.app (x := w.conn.cX.withBody
        (slice w.conn.cQBuf.nbBuf w.conn.cQBuf.nbStart w.conn.cX.xQBodyLen)) hready.2
      refine ⟨.handles w.interim (q := (w.conn.cX.withBody _).xQ) (r := w.conn.cX.xR) ?_ hs
        ?_ rfl, h.size, fun hnot => Bool.noConfusion (hanswered.symm.trans hnot)⟩
      · exact ⟨hblank.unset.size, hblank.unset.body, hblank.unset.type, hblank.unset.close,
          hblank.unset.status⟩
      · change w.handled ++ [_] = _
        rw [brWriteHeader_final, hr, hq]
        rfl
  · exact ⟨.steady (.refl w), h⟩

theorem Effect.after (h : Effect app w₁ w') (hsteady : Steady w w₁) : Effect app w w' := by
  cases h with
  | steady h => exact .steady (hsteady.trans h)
  | handles n hunset happ hhandled hcRBody =>
      rw [hsteady.app] at happ hhandled
      rw [hsteady.handled] at hhandled
      exact .handles n hunset happ hhandled (hcRBody.trans hsteady.cRBody)

theorem Effect.setEvents (h : Effect app w w') (events : Events) :
    Effect app w (w'.setEvents events) := by
  cases h with
  | steady h => exact .steady ⟨h.app, h.handled, h.cRBody⟩
  | handles n hunset happ hhandled hcRBody => exact .handles n hunset happ hhandled hcRBody

theorem bcAnswer_effect (app : App S) (h : Awaits w) (eof : Bool) :
    Effect app w (bcAnswer app w eof) ∧ Awaits (bcAnswer app w eof) := by
  obtain ⟨hsteady, hawaits⟩ := bcExpect_steady h
  obtain ⟨heffect, hafter⟩ := bcHandle_effect app hawaits
  exact ⟨(heffect.after hsteady).setEvents _, hafter.size, hafter.blank⟩

theorem bcRead_effect (app : App S) (h : Awaits w) (revents : Events) (sys : Sys) :
    Effect app w (bcRead app w revents sys).2 ∧
      Awaits (bcRead app w revents sys).2 := by
  rw [bcRead]
  dsimp only
  generalize (if revents.evRead = true then nBufFill w.conn.cQBuf w.unread sys.read
    else ⟨w.conn.cQBuf, w.unread, false, false⟩) = f
  split
  · exact ⟨.steady ⟨rfl, rfl, rfl⟩, h.size, h.blank⟩
  · have hlines : Steady w (w.fill f).readLines ∧ Awaits (w.fill f).readLines := by
      refine ⟨⟨rfl, rfl, rfl⟩, h.size, fun hanswer => ?_⟩
      exact Blank.readLoop (h.blank ((readLoop_rReady (nBufLength f.nb + 1) w.conn.cX
        f.nb).symm.trans hanswer)) (nBufLength f.nb + 1) f.nb
    split
    · exact ⟨.steady ⟨rfl, rfl, rfl⟩, hlines.2.size, hlines.2.blank⟩
    · split
      · have hfailed : Awaits ((w.fill f).readLines.setX
            (bxError (bxReset (w.fill f).readLines.conn.cRBody) 400)) :=
          ⟨h.size, fun _ => ⟨(blank_reset h.size).unset.error rfl 400,
            fun _ hready => absurd hready.symm Bool.false_ne_true⟩⟩
        obtain ⟨heffect, hafter⟩ := bcAnswer_effect app hfailed f.eof
        exact ⟨heffect.after ⟨rfl, rfl, rfl⟩, hafter⟩
      · obtain ⟨heffect, hafter⟩ := bcAnswer_effect app hlines.2 f.eof
        exact ⟨heffect.after hlines.1, hafter⟩

/-- A callback handles at most one request. -/
theorem callback_effect (app : App S) (h : Awaits w) (t : Turn) :
    Effect app w (w.callback app t).2 ∧ Awaits (w.callback app t).2 := by
  have hwrite : Steady w (if (t.revents w.conn.events).evWrite = true
      then bcWrite w t.sys else (w, false)).1 ∧
      Awaits (if (t.revents w.conn.events).evWrite = true
      then bcWrite w t.sys else (w, false)).1 := by
    split
    · exact bcWrite_steady h t.sys
    · exact ⟨.refl w, h⟩
  rw [World.callback, bcIoCb]
  generalize (if (t.revents w.conn.events).evWrite = true
    then bcWrite w t.sys else (w, false)) = written at hwrite ⊢
  obtain ⟨w₁, err⟩ := written
  obtain ⟨hsteady, hawaits⟩ := hwrite
  dsimp only at hsteady hawaits ⊢
  split
  · exact ⟨.steady ⟨rfl, rfl, rfl⟩, h.size, h.blank⟩
  · split
    · exact ⟨.steady ⟨hsteady.app, hsteady.handled, hsteady.cRBody⟩, hawaits.size,
        hawaits.blank⟩
    · split
      · exact ⟨.steady ⟨hsteady.app, hsteady.handled, hsteady.cRBody⟩, hawaits.size,
          hawaits.blank⟩
      · split
        · exact ⟨.steady ⟨hsteady.app, hsteady.handled, hsteady.cRBody⟩, hawaits.size,
            hawaits.blank⟩
        · split
          · split
            · exact ⟨.steady ⟨hsteady.app, hsteady.handled, hsteady.cRBody⟩, hawaits.size,
                hawaits.blank⟩
            · obtain ⟨heffect, hafter⟩ := bcRead_effect app (w := w₁.reset)
                ⟨hawaits.size, fun _ => blank_reset hawaits.size⟩ (t.revents w.conn.events)
                t.sys
              exact ⟨heffect.after ⟨hsteady.app, hsteady.handled, hsteady.cRBody⟩, hafter⟩
          · obtain ⟨heffect, hafter⟩ := bcRead_effect app hawaits
              (t.revents w.conn.events) t.sys
            exact ⟨heffect.after hsteady, hafter⟩

end Callback

end Xltop.Http
