import Xltop.Http.Listener

/-!
# Interleaved connections

What holds of each connection of a listener, and of the application that they
share, in every run: the requests of all connections are handled one after the
other, none of them sees anything of the others but the application, and the
timer of a connection stops with its first request.
-/

namespace Xltop.Http

open Xltop.Buffer
open Xltop.Text

variable {S E : Type*}

/-! ## Between events -/

/-- What holds of a connection between events. -/
structure ClientOk (app : App S) (c : Client S) : Prop where
  awaits : Awaits c.world
  ok : c.world.closed = false → WorldOk app c.world
  follows : Follows c.stream c.world.session
  replying : ExpectOnce c.stream → Replying c.world.session
  timer : c.cTimer = true → c.world.closed = false ∧ c.world.handled = []

section Runs

variable {app : App S} {act : S → E → S} {l : Listener S} {c : Client S}

/-- A connection does not depend on the application that it is shown. -/
theorem WorldOk.withApp {w : World S} (h : WorldOk app w) (s : S) :
    WorldOk app { w with app := s } :=
  { h with }

theorem step_effect (app : App S) {w : World S} (h : Awaits w) (t : Turn) :
    Effect app w (w.step app t) ∧ Awaits (w.step app t) := by
  rw [World.step]
  split
  · exact ⟨.steady (.refl w), h⟩
  · exact callback_effect app h t

theorem Effect.handled_le {w w' : World S} (h : Effect app w w') : w.handled <+: w'.handled := by
  cases h with
  | steady h => exact h.handled ▸ List.prefix_refl _
  | handles n _ _ hhandled _ => exact hhandled ▸ List.prefix_append _ _

theorem ClientOk.turn (h : ClientOk app c) (s : S) (t : Turn) :
    ClientOk app (c.turn app s t) := by
  have hshown : Reached app { c.world with app := s } { c.world with app := s } :=
    ⟨.refl, fun hopen => (h.ok hopen).withApp s⟩
  have hreached := hshown.step t
  obtain ⟨heffect, hawaits⟩ := step_effect app (w := { c.world with app := s })
    ⟨h.awaits.size, h.awaits.blank⟩ t
  refine ⟨hawaits, hreached.ok, h.follows.moves hreached.moves,
    fun honce => (h.replying honce).moves h.follows honce hreached.moves, fun htimer => ?_⟩
  rw [Client.turn] at htimer ⊢
  dsimp only at htimer ⊢
  rw [Bool.and_eq_true, Bool.and_eq_true, Bool.not_eq_true', beq_iff_eq] at htimer
  obtain ⟨⟨htimer, hopen⟩, hlength⟩ := htimer
  refine ⟨hopen, List.length_eq_zero_iff.1 ?_⟩
  rw [hlength, (h.timer htimer).2, List.length_nil]

theorem ClientOk.timeout (h : ClientOk app c) : ClientOk app c.timeout := by
  rw [Client.timeout]
  split
  · exact ⟨⟨h.awaits.size, h.awaits.blank⟩, (fun hopen => nomatch hopen), h.follows,
      h.replying, fun htimer => nomatch htimer⟩
  · exact h

theorem clientOk_accept (app : App S) (block : Fin 3 → ℕ → Byte) (s : S)
    (stream : List Byte) : ClientOk app ⟨stream, true, blListenCb block s stream⟩ where
  awaits := ⟨rfl, fun _ => blank_reset rfl⟩
  ok _ := blListenCb_ok app block s stream
  follows := follows_start block s stream
  replying _ := replying_start block s stream
  timer _ := ⟨rfl, rfl⟩

/-- Every connection is in order. -/
def ListenerOk (app : App S) (l : Listener S) : Prop :=
  ∀ c ∈ l.blConnList, ClientOk app c

theorem ListenerOk.step (h : ListenerOk app l) (act : S → E → S) (event : Event E) :
    ListenerOk app (l.step app act event) := by
  intro c hc
  cases event with
  | accept block stream =>
      rcases List.mem_append.1 hc with hc | hc
      · exact h c hc
      · rw [List.mem_singleton.1 hc]
        exact clientOk_accept app block l.app stream
  | io i t =>
      rw [Listener.step] at hc
      cases hi : l.blConnList[i]? with
      | none =>
          rw [hi] at hc
          exact h c hc
      | some d =>
          rw [hi] at hc
          rcases List.mem_or_eq_of_mem_set hc with hc | rfl
          · exact h c hc
          · exact (h d (List.mem_of_getElem? hi)).turn l.app t
  | timeout i =>
      rw [Listener.step, List.modify_eq_set_getElem?] at hc
      cases hi : l.blConnList[i]? with
      | none =>
          rw [hi] at hc
          exact h c hc
      | some d =>
          rw [hi] at hc
          rcases List.mem_or_eq_of_mem_set hc with hc | rfl
          · exact h c hc
          · exact (h d (List.mem_of_getElem? hi)).timeout
  | other e => exact h c hc

theorem listenerOk_run (h : ListenerOk app l) (act : S → E → S) (events : List (Event E)) :
    ListenerOk app (l.run app act events) := by
  induction events generalizing l with
  | nil => exact h
  | cons event events ih => exact ih (h.step act event)

theorem listenerOk_start (app : App S) (s : S) : ListenerOk app (Listener.start s) :=
  fun _ hc => nomatch hc

/-! ## One after the other -/

theorem handled_set {i : ℕ} (hi : l.blConnList[i]? = some c) (s : S) (c' : Client S)
    (j : ℕ) : (Listener.mk s (l.blConnList.set i c')).handled j =
      if j = i then c'.world.handled else l.handled j := by
  have hlt := (List.getElem?_eq_some_iff.1 hi).1
  rw [Listener.handled, Listener.handled, List.getElem?_set]
  by_cases hj : j = i
  · rw [hj, if_pos rfl, if_pos rfl, if_pos hlt]
  · rw [if_neg (Ne.symm hj), if_neg hj]

theorem exchangeOf_map_self (i : ℕ) (es : List Exchange) :
    (es.map (Act.exchange i)).filterMap (Act.exchangeOf (E := E) i) = es := by
  induction es with
  | nil => rfl
  | cons e es ih => rw [List.map_cons, List.filterMap_cons, Act.exchangeOf, if_pos rfl, ih]

theorem exchangeOf_map_ne {i j : ℕ} (hne : i ≠ j) (es : List Exchange) :
    (es.map (Act.exchange i)).filterMap (Act.exchangeOf (E := E) j) = [] := by
  induction es with
  | nil => rfl
  | cons e es ih => rw [List.map_cons, List.filterMap_cons, Act.exchangeOf, if_neg hne, ih]

/-- Whom an event's acts are about, and that they are what is new. -/
structure Acted (app : App S) (act : S → E → S) (l : Listener S) (event : Event E) : Prop where
  history : ∀ {s : S} {acts : List (Act E)}, History app act s acts l.app →
    History app act s (acts ++ l.acts app act event) (l.step app act event).app
  own : (l.acts app act event).filterMap Act.event = event.own.toList
  handled : ∀ i, (l.step app act event).handled i =
    l.handled i ++ (l.acts app act event).filterMap (Act.exchangeOf i)

theorem Acted.quiet {event : Event E} (hacts : l.acts app act event = [])
    (happ : (l.step app act event).app = l.app) (hown : event.own = none)
    (hhandled : ∀ i, (l.step app act event).handled i = l.handled i) :
    Acted app act l event where
  history h := by rwa [hacts, happ, List.append_nil]
  own := by rw [hacts, hown]; rfl
  handled i := by rw [hacts, hhandled]; exact (List.append_nil _).symm

theorem acted_accept (app : App S) (act : S → E → S) (l : Listener S)
    (block : Fin 3 → ℕ → Byte) (stream : List Byte) :
    Acted app act l (.accept block stream) := by
  refine .quiet rfl rfl rfl fun i => ?_
  rw [Listener.step, Listener.handled, Listener.handled, List.getElem?_append]
  by_cases hlt : i < l.blConnList.length
  · rw [if_pos hlt]
  · rw [if_neg hlt, List.getElem?_eq_none (Nat.le_of_not_lt hlt)]
    cases i - l.blConnList.length <;> rfl

theorem acted_timeout (app : App S) (act : S → E → S) (l : Listener S) (i : ℕ) :
    Acted app act l (.timeout i) := by
  refine .quiet rfl rfl rfl fun j => ?_
  rw [Listener.step, Listener.handled, Listener.handled, List.getElem?_modify]
  cases l.blConnList[j]? with
  | none => rfl
  | some c =>
      change (if i = j then c.timeout else c).world.handled = c.world.handled
      split
      · rw [Client.timeout]
        split <;> rfl
      · rfl

theorem acted_io (h : ListenerOk app l) (i : ℕ) (t : Turn) :
    Acted app act l (.io i t) := by
  cases hi : l.blConnList[i]? with
  | none =>
      have hstep : l.step app act (.io i t) = l := by rw [Listener.step, hi]
      refine .quiet ?_ (by rw [hstep]) rfl fun j => by rw [hstep]
      rw [Listener.acts, hstep, List.drop_length, List.map_nil]
  | some c =>
      have hstep : l.step app act (.io i t) =
          ⟨(c.turn app l.app t).world.app, l.blConnList.set i (c.turn app l.app t)⟩ := by
        rw [Listener.step, hi]
      have hbefore : l.handled i = c.world.handled := by rw [Listener.handled, hi]
      have hafter (j : ℕ) := handled_set hi (c.turn app l.app t).world.app
        (c.turn app l.app t) j
      have hself := hafter i
      rw [if_pos rfl] at hself
      have hacts : l.acts app act (.io i t) =
          ((c.turn app l.app t).world.handled.drop c.world.handled.length).map
            (Act.exchange i) := by
        rw [Listener.acts, hstep, hself, hbefore]
      have hawaits := (h c (List.mem_of_getElem? hi)).awaits
      obtain ⟨heffect, -⟩ := step_effect app (w := { c.world with app := l.app })
        ⟨hawaits.size, hawaits.blank⟩ t
      have hle : c.world.handled <+: (c.turn app l.app t).world.handled := heffect.handled_le
      refine ⟨fun hhistory => ?_, ?_, fun j => ?_⟩
      · rw [hacts, hstep]
        cases heffect with
        | steady hsteady =>
            have happ : (c.turn app l.app t).world.app = l.app := hsteady.app
            have hhandled : (c.turn app l.app t).world.handled = c.world.handled :=
              hsteady.handled
            rw [hhandled, List.drop_length, List.map_nil, List.append_nil, happ]
            exact hhistory
        | @handles n q r hunset happ hhandled _ =>
            have happ : (c.turn app l.app t).world.app = (app.handle l.app q r).2 := happ
            have hhandled : (c.turn app l.app t).world.handled =
              c.world.handled ++ [⟨n, q, (app.handle l.app q r).1.final⟩] := hhandled
            rw [hhandled, List.drop_left, happ]
            exact hhistory.exchange i n hunset
      · rw [hacts]
        exact List.filterMap_eq_nil_iff.2 fun a ha => by
          obtain ⟨e, -, rfl⟩ := List.mem_map.1 ha
          rfl
      · rw [hstep, hafter, hacts]
        by_cases hj : j = i
        · rw [if_pos hj, hj, exchangeOf_map_self, hbefore]
          obtain ⟨more, hmore⟩ := hle
          rw [← hmore, List.drop_left]
        · rw [if_neg hj, exchangeOf_map_ne (Ne.symm hj), List.append_nil]

theorem acted (h : ListenerOk app l) (act : S → E → S) (event : Event E) :
    Acted app act l event := by
  cases event with
  | accept block stream => exact acted_accept app act l block stream
  | io i t => exact acted_io h i t
  | timeout i => exact acted_timeout app act l i
  | other e => exact ⟨fun hhistory => hhistory.other e, rfl, fun i => (List.append_nil _).symm⟩

/-- What happens to the application in a run, as a history. -/
structure Serial (app : App S) (act : S → E → S) (s : S) (acts : List (Act E))
    (events : List (Event E)) (l : Listener S) : Prop where
  /-- each request is answered, and each other event happens, in the state that
  those before leave -/
  history : History app act s acts l.app
  own : acts.filterMap Act.event = events.filterMap Event.own
  /-- the exchanges of a connection are those of the history that are its own -/
  handled : ∀ i, l.handled i = acts.filterMap (Act.exchangeOf i)

theorem serial_run (h : ListenerOk app l) (s : S) {acts : List (Act E)}
    {before : List (Event E)} (hserial : Serial app act s acts before l)
    (events : List (Event E)) :
    Serial app act s (acts ++ l.history app act events) (before ++ events)
      (l.run app act events) := by
  induction events generalizing l acts before with
  | nil =>
      rw [Listener.history, List.append_nil, List.append_nil]
      exact hserial
  | cons event events ih =>
      have hacted := acted h act event
      have hnext : Serial app act s (acts ++ l.acts app act event) (before ++ [event])
          (l.step app act event) := by
        refine ⟨hacted.history hserial.history, ?_, fun i => ?_⟩
        · rw [List.filterMap_append, List.filterMap_append, hserial.own, hacted.own]
          cases event <;> rfl
        · rw [hacted.handled, hserial.handled, List.filterMap_append]
      have hlast := ih (h.step act event) hnext
      rw [List.append_assoc, List.append_assoc] at hlast
      exact hlast

theorem history_append (l : Listener S) (events later : List (Event E)) :
    l.history app act (events ++ later) =
      l.history app act events ++ (l.run app act events).history app act later := by
  induction events generalizing l with
  | nil => rfl
  | cons event events ih =>
      rw [List.cons_append, Listener.history, Listener.history, ih, List.append_assoc]
      rfl

end Runs

/-- Whatever the order in which connections are accepted, become ready and time
out, a run serves the requests of all of them one after the other, between the
application's own events, and later events only add to this history. -/
theorem one_request_at_a_time (app : App S) (act : S → E → S) (s : S)
    (events later : List (Event E)) :
    let l := Listener.start s
    Serial app act s (l.history app act events) events (l.run app act events) ∧
      l.history app act (events ++ later) =
        l.history app act events ++ (l.run app act events).history app act later := by
  have hstart : Serial app act s [] [] (Listener.start s) :=
    ⟨.start s, rfl, fun _ => rfl⟩
  exact ⟨serial_run (listenerOk_start app s) s hstart events,
    history_append _ events later⟩

/-- Whatever else goes on, a connection has handled the first requests of its own
stream, in order, and has written its replies in order. -/
theorem connections_are_isolated (app : App S) (act : S → E → S) (s : S)
    (events : List (Event E)) :
    ∀ c ∈ ((Listener.start s).run app act events).blConnList,
      c.world.handled.map Exchange.request <+: requestsOf c.stream ∧
        (ExpectOnce c.stream →
          InOrder c.world ∧ c.world.written <+: c.world.replies.flatten) := by
  intro c hc
  have hok := listenerOk_run (listenerOk_start app s) act events c hc
  refine ⟨hok.follows.handled_le, fun honce => ?_⟩
  have horder := inOrder_of_replying honce hok.follows (hok.replying honce)
  exact ⟨horder, horder.sent⟩

/-- A connection that is accepted, and turns in which up to `n` bytes go through. -/
def sampleEvents (count n : ℕ) : List (Event Empty) :=
  .accept (fun _ _ => 0) sampleStream :: (sampleTurns count n).map (Event.io 0)

theorem connections_are_isolated_sample :
    ∃ c ∈ ((Listener.start ()).run sampleApp (fun s _ => s) (sampleEvents 4 400)).blConnList,
      c.world.handled.map Exchange.request <+: requestsOf c.stream ∧
        InOrder c.world ∧ c.world.written <+: c.world.replies.flatten := by
  obtain ⟨c, hc⟩ := Option.isSome_iff_exists.1
    (by decide +kernel : (((Listener.start ()).run sampleApp (fun s _ => s)
      (sampleEvents 4 400)).blConnList[0]?).isSome = true)
  have hmem := List.mem_of_getElem? hc
  have hstream : c.stream = sampleStream := by
    have h : ((Listener.start ()).run sampleApp (fun s _ => s) (sampleEvents 4 400)).stream 0 =
        sampleStream := by
      decide +kernel
    rw [Listener.stream, hc] at h
    exact h
  obtain ⟨hhandled, horder⟩ := connections_are_isolated sampleApp (fun s _ => s) ()
    (sampleEvents 4 400) c hmem
  exact ⟨c, hmem, hhandled, horder (hstream ▸ sampleStream_expectOnce)⟩

/-! ## The end of a connection -/

/-- No system call fails on a connection, and its timer does not fire. -/
def Event.CleanFor (i : ℕ) : Event E → Prop
  | .io j t => j = i → t.Clean
  | .timeout j => j ≠ i
  | _ => True

/-- A connection that is closed is over. -/
def Listener.Ended (l : Listener S) (i : ℕ) : Prop :=
  ∀ c, l.blConnList[i]? = some c → c.world.closed = true → Over c.world.session

section Ends

variable {app : App S} {act : S → E → S} {l : Listener S} {c : Client S}

theorem ClientOk.ends (h : ClientOk app c) (hkeeps : app.KeepsOpen)
    (hended : c.world.closed = true → Over c.world.session) (s : S) {t : Turn}
    (hclean : t.Clean) (hclosed : (c.turn app s t).world.closed = true) :
    Over (c.turn app s t).world.session := by
  rw [Client.turn] at hclosed ⊢
  dsimp only at hclosed ⊢
  rw [World.step] at hclosed ⊢
  split at hclosed
  · next hdone =>
      rw [if_pos hdone]
      exact hended hdone
  · next hopen =>
      rw [if_neg hopen]
      rw [Bool.not_eq_true] at hopen
      have hcalled := callback_spec ((h.ok hopen).withApp s) hopen t
      exact hcalled.ends hclosed hclean.1 hclean.2.1 hclean.2.2 hkeeps

theorem Listener.Ended.step {i : ℕ} (h : l.Ended i) (hok : ListenerOk app l)
    (hkeeps : app.KeepsOpen) {event : Event E} (hclean : event.CleanFor i) :
    (l.step app act event).Ended i := by
  intro c hc hclosed
  cases event with
  | accept block stream =>
      rw [Listener.step, List.getElem?_append] at hc
      split at hc
      · exact h c hc hclosed
      · rw [List.mem_singleton.1 (List.mem_of_getElem? hc)] at hclosed
        cases hclosed
  | io j t =>
      rw [Listener.step] at hc
      cases hj : l.blConnList[j]? with
      | none =>
          rw [hj] at hc
          exact h c hc hclosed
      | some d =>
          rw [hj] at hc
          dsimp only at hc
          rw [List.getElem?_set] at hc
          split at hc
          · next hji =>
              rw [if_pos (List.getElem?_eq_some_iff.1 hj).1] at hc
              cases hc
              exact (hok d (List.mem_of_getElem? hj)).ends hkeeps (h d (hji ▸ hj)) l.app
                (hclean hji) hclosed
          · exact h c hc hclosed
  | timeout j =>
      rw [Listener.step, List.getElem?_modify] at hc
      cases hi : l.blConnList[i]? with
      | none =>
          rw [hi] at hc
          cases hc
      | some d =>
          rw [hi] at hc
          change some (if j = i then d.timeout else d) = some c at hc
          rw [if_neg hclean] at hc
          cases hc
          exact h c hi hclosed
  | other e => exact h c hc hclosed

theorem ended_run {i : ℕ} (h : l.Ended i) (hok : ListenerOk app l) (act : S → E → S)
    (hkeeps : app.KeepsOpen) {events : List (Event E)}
    (hclean : ∀ event ∈ events, event.CleanFor i) : (l.run app act events).Ended i := by
  induction events generalizing l with
  | nil => exact h
  | cons event events ih =>
      rw [List.forall_mem_cons] at hclean
      exact ih (h.step hok hkeeps hclean.1) (hok.step act event) hclean.2

theorem ended_start (s : S) (i : ℕ) : (Listener.start s).Ended i := by
  intro c hc
  cases hc

/-- A connection that has been closed at the end of its stream has handled all
requests of it. -/
theorem handled_of_closed {i : ℕ} (hok : ListenerOk app l) (hended : l.Ended i)
    (hclosed : l.closed i = true) :
    (l.handled i).map Exchange.request = requestsOf (l.stream i) := by
  rw [Listener.closed] at hclosed
  rw [Listener.handled, Listener.stream]
  split at hclosed
  · cases hclosed
  · next c hc =>
      have hc' := hok c (List.mem_of_getElem? hc)
      exact (hc'.follows.finished (hended c hc hclosed)).unique (finished_requestsOf c.stream)

/-! ## Timeouts -/

/-- A connection that has handled a request has no timer. -/
theorem timeout_handled (h : ListenerOk app l) {i : ℕ} (hhandled : l.handled i ≠ []) :
    l.step app act (.timeout i) = l := by
  rw [Listener.step, List.modify_eq_set_getElem?]
  rw [Listener.handled] at hhandled
  cases hi : l.blConnList[i]? with
  | none => rfl
  | some c =>
      rw [hi] at hhandled
      have hok := h c (List.mem_of_getElem? hi)
      have htimer : c.timeout = c := by
        rw [Client.timeout, if_neg fun htimer => hhandled (hok.timer htimer).2]
      obtain ⟨hlt, hget⟩ := List.getElem?_eq_some_iff.1 hi
      change Listener.mk l.app (l.blConnList.set i c.timeout) = l
      rw [htimer, ← hget, List.set_getElem_self]

/-- What a connection has handled stays handled. -/
theorem handled_step (h : ListenerOk app l) (event : Event E) {i : ℕ}
    (hhandled : l.handled i ≠ []) : (l.step app act event).handled i ≠ [] := by
  rw [(acted h act event).handled i]
  exact fun hnil => hhandled (List.append_eq_nil_iff.1 hnil).1

end Ends

def Event.isTimeout (i : ℕ) : Event E → Bool
  | .timeout j => j == i
  | _ => false

/-- The events but the timeouts of a connection. -/
def withoutTimeouts (i : ℕ) (events : List (Event E)) : List (Event E) :=
  events.filter fun event => !event.isTimeout i

theorem run_withoutTimeouts {app : App S} {act : S → E → S} {l : Listener S}
    (h : ListenerOk app l) {i : ℕ} (hhandled : l.handled i ≠ [])
    (events : List (Event E)) :
    l.run app act events = l.run app act (withoutTimeouts i events) := by
  induction events generalizing l with
  | nil => rfl
  | cons event events ih =>
      have hnext := ih (h.step act event) (handled_step h event hhandled)
      rw [withoutTimeouts, List.filter_cons]
      cases htimeout : event.isTimeout i with
      | false => exact hnext
      | true =>
          have hevent : event = .timeout i := by
            cases event with
            | timeout j => rw [beq_iff_eq.1 htimeout]
            | _ => cases htimeout
          change (l.step app act event).run app act events = _
          rw [hevent, timeout_handled h hhandled]
          exact ih h hhandled

/-- A connection that is closed without errors has handled all requests of its
stream. -/
theorem closed_connections_are_complete {app : App S} (hkeeps : app.KeepsOpen)
    (act : S → E → S) (s : S) {events : List (Event E)} {i : ℕ}
    (hclean : ∀ event ∈ events, event.CleanFor i)
    (hclosed : ((Listener.start s).run app act events).closed i = true) :
    (((Listener.start s).run app act events).handled i).map Exchange.request =
      requestsOf (((Listener.start s).run app act events).stream i) := by
  have hok := listenerOk_start app s
  have hended := ended_run (ended_start s i) hok act hkeeps hclean
  exact handled_of_closed (listenerOk_run hok act events) hended hclosed

theorem sampleEvents_clean (count n : ℕ) :
    ∀ event ∈ sampleEvents count n, event.CleanFor 0 := by
  intro event hevent
  rcases List.mem_cons.1 hevent with rfl | hevent
  · exact trivial
  · obtain ⟨t, ht, rfl⟩ := List.mem_map.1 hevent
    exact fun _ => sampleTurns_clean count n t ht

theorem closed_connections_are_complete_sample :
    (((Listener.start ()).run sampleApp (fun s _ => s) (sampleEvents 4 400)).handled
        0).map Exchange.request =
      requestsOf (((Listener.start ()).run sampleApp (fun s _ => s)
        (sampleEvents 4 400)).stream 0) :=
  closed_connections_are_complete sampleApp_keepsOpen _ () (sampleEvents_clean 4 400)
    (by decide +kernel)

/-- Once a connection has handled a request, its timeout never closes it:
`ev_timer_again` has stopped the timer. -/
theorem timeouts_spare_served_connections (app : App S) (act : S → E → S) (s : S)
    (events later : List (Event E)) (i : ℕ)
    (hhandled : ((Listener.start s).run app act events).handled i ≠ []) :
    (Listener.start s).run app act (events ++ later) =
      (Listener.start s).run app act (events ++ withoutTimeouts i later) := by
  rw [Listener.run, List.foldl_append, Listener.run, List.foldl_append]
  exact run_withoutTimeouts (listenerOk_run (listenerOk_start app s) act events) hhandled later

theorem timeouts_spare_served_connections_sample :
    (Listener.start ()).run sampleApp (fun s _ => s) (sampleEvents 2 400 ++ [.timeout 0]) =
      (Listener.start ()).run sampleApp (fun s _ => s)
        (sampleEvents 2 400 ++ withoutTimeouts 0 [.timeout 0]) :=
  timeouts_spare_served_connections sampleApp _ () (sampleEvents 2 400) [.timeout 0] 0
    (List.ne_nil_of_length_pos (by decide +kernel))

end Xltop.Http
