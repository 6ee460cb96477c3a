import Xltop.Master.Owner
import Xltop.Master.Unread

/-!
# Queries leave no trace

A top query and a GET of a server write to what they read: they bring the
statistics on their way up to date.  Nobody can tell.  A run of the daemon and the
run without the queries keep the same trees, jobs, timers, lnets and pairs, and
as long as no amount is negative every later query gets the same reply in both.
-/

namespace Xltop.Master

open Xltop.Hash
open Xltop.Heap
open Xltop.Rate
open Xltop.Text

variable {R : Type*} [Field R] [LinearOrder R] [FloorRing R]

/-! ## What a walk does to the node state -/

section Walks

variable {c : KConf R} {cmp : KNode XNode R → KNode XNode R → ℤ} {now : R}

omit [Field R] [LinearOrder R] [FloorRing R] in
/-- What each walk of a loop keeps, the loop keeps. -/
theorem foldl_state {β : Type*} {P : XState R → Prop}
    {body : XState R × β → XNode → XState R × β}
    (hbody : ∀ s child, P s.1 → P (body s child).1) (l : List XNode) (s : XState R × β)
    (hs : P s.1) : P (l.foldl body s).1 :=
  List.foldlRecOn (motive := fun s => P s.1) l body hs fun s hs child _ => hbody s child hs

/-- What a read keeps, the walk of a top query keeps. -/
theorem kHeapTop_state {P : XState R → Prop}
    (hread : ∀ σ x0 x1, P σ → P (σ.kModify x0 x1 fun k => kFreshen c k now)) (d0 d1 : ℕ)
    (filt : Option (KNode XNode R → ℤ)) (s : XState R × KHeap (KNode XNode R))
    (x0 x1 : XNode) (hs : P s.1) : P (kHeapTop c cmp now d0 d1 filt s x0 x1).1 := by
  induction hdepth : d0 + d1 using Nat.strongRecOn generalizing d0 d1 filt s x0 x1 with
  | ind depth ih =>
      rw [kHeapTop]
      cases hk : s.1.kLookup x0 x1 with
      | none => exact hs
      | some k =>
          simp only
          split_ifs
          · exact hs
          all_goals
            split
            · exact foldl_state (fun s child hs => ih _ (by omega) _ _ _ s child x1 hs rfl) _ s hs
            · exact foldl_state (fun s child hs => ih _ (by omega) _ _ _ s x0 child hs rfl) _ s hs
            · rw [offer, hk]
              exact hread _ x0 x1 hs

/-- What a read keeps, the walk of a GET keeps. -/
theorem servGetR_state {P : XState R → Prop}
    (hread : ∀ σ x0 x1, P σ → P (σ.kModify x0 x1 fun k => kFreshen c k now)) (fuel : ℕ)
    (s : XState R × List (KNode XNode R)) (x0 sx : XNode) (hs : P s.1) :
    P (servGetR c now fuel s x0 sx).1 := by
  induction fuel generalizing s x0 with
  | zero => exact hs
  | succ fuel ih =>
      rw [servGetR]
      cases s.1.kLookup x0 sx with
      | none => exact hs
      | some k =>
          simp only
          split
          · exact hread _ x0 sx hs
          · exact foldl_state (fun s child => ih s child) _ s hs

end Walks

/-! ## What is found -/

/-- Statistics of one pair that agree. -/
structure ReadsSame (kept : Fin nrStats → Prop) (k k' : KNode XNode R) : Prop
    extends Agree kept k k' where
  pair : kPair k = kPair k'

namespace XState.Unread

variable {c : KConf R} {kept : Fin nrStats → Prop} {now : R} {σ σ' : XState R}

theorem kLookup_eq_none (h : σ.Unread c kept now σ') (x0 x1 : XNode) :
    σ'.kLookup x0 x1 = none ↔ σ.kLookup x0 x1 = none := by
  have hold := h.kLookup x0 x1
  generalize σ.kLookup x0 x1 = k at hold
  generalize σ'.kLookup x0 x1 = k' at hold
  cases hold with
  | none => exact iff_of_true rfl rfl
  | some => exact iff_of_false (Option.some_ne_none _) (Option.some_ne_none _)

/-- The walk reaches the same pairs. -/
theorem topPairs_eq (h : σ.Unread c kept now σ') (d0 d1 : ℕ) (x0 x1 : XNode) :
    σ'.topPairs d0 d1 x0 x1 = σ.topPairs d0 d1 x0 x1 := by
  induction hdepth : d0 + d1 using Nat.strongRecOn generalizing d0 d1 x0 x1 with
  | ind depth ih =>
      have hchildren : ∀ x, σ'.children x = σ.children x := fun x =>
        congrArg (fun t : XTree => t.children x) h.tree
      by_cases hpair : σ.HasPair x0 x1
      · have hpair' : σ'.HasPair x0 x1 :=
          hasPair_iff.2 fun hnone => hasPair_iff.1 hpair ((h.kLookup_eq_none x0 x1).1 hnone)
        match d0, d1 with
        | d0 + 1, d1 =>
            rw [topPairs_consumer hpair, topPairs_consumer hpair', hchildren]
            exact List.flatMap_congr fun child _ => ih _ (by omega) d0 d1 child x1 rfl
        | 0, d1 + 1 =>
            rw [topPairs_provider hpair, topPairs_provider hpair', hchildren]
            exact List.flatMap_congr fun child _ => ih _ (by omega) 0 d1 x0 child rfl
        | 0, 0 => rw [topPairs_zero hpair, topPairs_zero hpair']
      · have hpair' : ¬ σ'.HasPair x0 x1 :=
          hasPair_iff.not.2 (not_not.2 ((h.kLookup_eq_none x0 x1).2
            (not_not.1 (hasPair_iff.not.1 hpair))))
        rw [topPairs_eq_nil hpair, topPairs_eq_nil hpair']

/-- The values of some pairs, one by one. -/
theorem freshValues_same (h : σ.Unread c kept now σ') (pairs : List (XNode × XNode)) :
    List.Forall₂ (ReadsSame kept) (σ.freshValues c now pairs) (σ'.freshValues c now pairs) := by
  induction pairs with
  | nil => exact .nil
  | cons p pairs ih =>
      have hold := h.kLookup p.1 p.2
      rw [freshValues, freshValues, List.filterMap_cons, List.filterMap_cons]
      generalize σ.kLookup p.1 p.2 = k at hold
      generalize σ'.kLookup p.1 p.2 = k' at hold
      cases hold with
      | none => exact ih
      | @some k k' hk => exact .cons ⟨hk.alike now le_rfl, pair_eq k k' hk⟩ ih

end XState.Unread

omit [Field R] [LinearOrder R] [FloorRing R] in
/-- Statistics that agree on everything are the same. -/
theorem eq_of_readsSame {ks ks' : List (KNode XNode R)}
    (h : List.Forall₂ (ReadsSame fun _ => True) ks ks') : ks = ks' := by
  induction h with
  | nil => rfl
  | cons hk _ ih =>
      rw [hk.toAgree.eq (congrArg Prod.fst hk.pair) (congrArg Prod.snd hk.pair), ih]

/-- The pairs that a top query offers to the heap. -/
def Daemon.queryPairs (m : Daemon R) (q : Daemon.TopQuery) (x0 x1 : XNode) :
    List (XNode × XNode) :=
  match q.owner with
  | none => m.topPairs q.d0 q.d1 x0 x1
  | some owner => m.ownerPairs owner q.d0 q.d1 x0 x1

/-- The reply to a top query, from the values of these pairs. -/
theorem topQueryCb_offers [IsStrictOrderedRing R] {env : Env R} {m : Daemon R} {now : R}
    (hok : StateOk m.toXState) (htick : 0 < env.conf.kTick) {q : Daemon.TopQuery} {x0 x1 : XNode}
    (hx0 : m.xLookupStr q.x0 = some x0) (hx1 : m.xLookupStr q.x1 = some x1) :
    (m.topQueryCb env q now).2 = some (kHeapArray (kHeapOrder (kTopCmp q.sort)
      ((m.freshValues env.conf now (m.queryPairs q x0 x1)).foldl (kHeapAdd (kTopCmp q.sort))
        (kHeapInit q.limitUsed)))) := by
  have hwalk : ∀ h, kHeapTop env.conf (kTopCmp q.sort) now q.d0 q.d1
      (q.owner.map m.kHeapFiltOwner) (m.toXState, h) x0 x1 =
      (m.queryPairs q x0 x1).foldl (fun s p => offer env.conf (kTopCmp q.sort) now s p.1 p.2)
        (m.toXState, h) := fun h => by
    rw [Daemon.queryPairs]
    cases q.owner with
    | none => exact kHeapTop_eq q.d0 q.d1 x0 x1 .refl
    | some owner => exact kHeapTop_owner hok q.d0 q.d1 x0 x1 .refl
  obtain ⟨hvalues, -⟩ := foldl_visit (σ := m.toXState) (kHeapAdd (kTopCmp q.sort)) htick
    (m.queryPairs q x0 x1) (s := (m.toXState, kHeapInit q.limitUsed)) .refl
  rw [Daemon.topQueryCb, hx0, hx1]
  simp only
  rw [hwalk]
  exact congrArg (fun h => some (kHeapArray (kHeapOrder (kTopCmp q.sort) h))) hvalues

/-! ## The daemon and its copy -/

namespace Daemon

/-- The same daemon with other statistics. -/
def withTable (m : Daemon R) (table : HashTable (KNode XNode R)) : Daemon R :=
  { m with kHashTable := table }

section Frames

omit [Field R] [LinearOrder R] [FloorRing R]

variable (env : Env R) (m : Daemon R) (table : HashTable (KNode XNode R))

@[simp]
theorem withTable_toXTree : (m.withTable table).toXTree = m.toXTree := rfl

@[simp]
theorem withTable_jobs : (m.withTable table).jobs = m.jobs := rfl

@[simp]
theorem withTable_cIdleJob : (m.withTable table).cIdleJob = m.cIdleJob := rfl

@[simp]
theorem withTable_sLnet : (m.withTable table).sLnet = m.sLnet := rfl

@[simp]
theorem withTable_lnets : (m.withTable table).lnets = m.lnets := rfl

theorem jobLookup_withTable (name : CString) (parent : XNode) (owner title start : CString) :
    jobLookup env (m.withTable table) name parent owner title start =
      ((jobLookup env m name parent owner title start).1,
        (jobLookup env m name parent owner title start).2.withTable table) := by
  rw [jobLookup, jobLookup, withTable_toXTree]
  cases m.xLookup .job name <;> rfl

theorem jobEnd_withTable (j : XNode) (now : R) :
    (m.withTable table).jobEnd j now = (m.jobEnd j now).withTable table := by
  rw [jobEnd, jobEnd, withTable_jobs]
  split <;> rfl

theorem clusLookupForHost_withTable (name : CString) :
    (m.withTable table).clusLookupForHost name = m.clusLookupForHost name := by
  induction name with
  | nil => rfl
  | cons c name ih =>
      rw [clusLookupForHost, clusLookupForHost, ih]
      rfl

theorem xHostLookup_withTable (name : CString) :
    (m.withTable table).xHostLookup name =
      ((m.xHostLookup name).1, (m.xHostLookup name).2.withTable table) := by
  rw [xHostLookup, xHostLookup, clusLookupForHost_withTable, withTable_toXTree,
    withTable_cIdleJob]
  cases m.xLookup .host name with
  | some x => rfl
  | none => cases (m.clusLookupForHost name).bind m.cIdleJob <;> rfl

theorem lnetLookupNid_withTable (l nid : CString) :
    (m.withTable table).lnetLookupNid l nid =
      ((m.lnetLookupNid l nid).1, (m.lnetLookupNid l nid).2.withTable table) := by
  rw [lnetLookupNid, lnetLookupNid, xHostLookup_withTable, withTable_lnets]
  cases m.lnets l with
  | none => rfl
  | some nids =>
      simp only
      cases strTableRef nids nid with
      | some x => rfl
      | none =>
          obtain ⟨x, m'⟩ := m.xHostLookup nid
          cases x <;> rfl

theorem servMsg_withTable (s : XNode) (msg : CString) :
    servMsg env (m.withTable table) s msg =
      ((servMsg env m s msg).1.withTable table, (servMsg env m s msg).2) := by
  rw [servMsg, servMsg]
  obtain ⟨nid, rest⟩ := wsep (some msg)
  cases nid with
  | none => rfl
  | some nid =>
      cases rest with
      | none => rfl
      | some rest =>
          simp only [lnetLookupNid_withTable, withTable_sLnet]
          obtain ⟨x, m'⟩ := m.lnetLookupNid (m.sLnet s) nid
          cases x <;> rfl

theorem clusMsgCb_withTable (c : XNode) (msg : CString) (now : R) :
    clusMsgCb env (m.withTable table) c msg now =
      (clusMsgCb env m c msg now).withTable table := by
  rw [clusMsgCb, clusMsgCb]
  split
  · next hostName jobName rest hwords =>
      simp only [jobLookup_withTable]
      generalize jobLookup env m jobName c _ _ _ = created
      obtain ⟨j, m'⟩ := created
      rw [withTable_toXTree]
      obtain ⟨x, t⟩ := m'.xLookupCreate .host hostName (some j)
      simp only
      by_cases hsame : t.parent x = some j
      · rw [if_pos hsame, if_pos hsame]
        rfl
      · rw [if_neg hsame, if_neg hsame]
        cases t.parent x with
        | none => rfl
        | some p =>
            simp only
            split
            · exact jobEnd_withTable { m' with toXTree := t.xSetParent x (some j) } table p now
            · rfl
  · rfl

end Frames

/-- A daemon, and its copy that is not asked, as they stand at `now`. -/
structure Unasked (c : KConf R) (kept : Fin nrStats → Prop) (now : R) (m m' : Daemon R) :
    Prop where
  state : m.toXState.Unread c kept now m'.toXState
  rest : m' = { m with toXState := m'.toXState }

namespace Unasked

variable {c : KConf R} {kept : Fin nrStats → Prop} {a now later : R} {m m' : Daemon R}

theorem mono (h : m.Unasked c kept now m') (hlater : now ≤ later) :
    m.Unasked c kept later m' :=
  ⟨h.state.mono hlater, h.rest⟩

theorem eq_withTable (h : m.Unasked c kept now m') : m' = m.withTable m'.kHashTable := by
  have htree := h.state.tree
  have hnr := h.state.nr_k
  rw [h.rest] at htree hnr ⊢
  rw [withTable]
  generalize m'.toXState = σ at htree hnr ⊢
  cases σ
  simp only at htree hnr
  rw [htree, hnr]

/-- A function that looks at no statistics does the same to both. -/
theorem of_withTable (h : m.Unasked c kept now m') {f : Daemon R → Daemon R}
    (hf : ∀ table, f (m.withTable table) = (f m).withTable table) :
    (f m).Unasked c kept now (f m') := by
  have htable : (f m).kHashTable = m.kHashTable := congrArg (·.kHashTable) (hf m.kHashTable)
  rw [h.eq_withTable, hf]
  exact ⟨⟨rfl, rfl, htable ▸ h.state.table⟩, rfl⟩

/-- The node state changes in both. -/
theorem of_state (h : m.Unasked c kept now m') {σ σ' : XState R}
    (hσ : σ.Unread c kept now σ') :
    Unasked c kept now { m with toXState := σ } { m' with toXState := σ' } :=
  ⟨hσ, by rw [h.rest]⟩

theorem zombie (h : m.Unasked c kept now m') (j : XNode) (later : R) :
    (m.jobZombieCb j later).Unasked c kept now (m'.jobZombieCb j later) := by
  have hstop := h.of_withTable (f := fun m => m.setJob j fun job => { job with jZombieW := none })
    fun _ => rfl
  rw [jobZombieCb, jobZombieCb]
  generalize m.setJob j _ = m₁ at hstop ⊢
  generalize m'.setJob j _ = m₁' at hstop ⊢
  have hjobs : m₁'.jobs = m₁.jobs := by rw [hstop.rest]
  have hlinks : m₁'.links = m₁.links := congrArg XTree.links hstop.state.tree
  simp only
  rw [hjobs, hlinks]
  split_ifs
  · exact hstop
  · exact hstop.of_withTable (f := fun m => m.setJob j (timerStart later)) fun _ => rfl
  · have hgone := hstop.of_state (hstop.state.xDestroy j)
    rwa [hjobs] at hgone

end Unasked

end Daemon

/-! ## Events -/

omit [Field R] [LinearOrder R] [FloorRing R] in
/-- A top query or a GET of a server. -/
def Event.asks : Event R → Bool
  | .top .. | .servGet .. => true
  | .servMsg .. | .clusMsg .. | .zombie .. => false

namespace Daemon.Unasked

variable [IsStrictOrderedRing R] {env : Env R} {kept : Fin nrStats → Prop} {a now : R}
  {m m' : Daemon R}

/-- A query is asked of the daemon, and not of its copy. -/
theorem query (h : m.Unasked env.conf kept now m') (hc : env.conf.Decays a) {event : Event R}
    (hasks : event.asks = true) (htime : now ≤ event.time) :
    (m.step env event).Unasked env.conf kept event.time m' := by
  have hread : ∀ (σ : XState R) (x0 x1 : XNode),
      σ.Unread env.conf kept event.time m'.toXState →
        (σ.kModify x0 x1 fun k => kFreshen env.conf k event.time).Unread env.conf kept event.time
          m'.toXState := fun σ x0 x1 hσ => hσ.freshen_left hc x0 x1
  have hstart := (h.mono htime).state
  cases event with
  | top q now' =>
      rw [step, topQueryCb]
      split
      · next x0 x1 _ _ =>
          exact ⟨kHeapTop_state hread q.d0 q.d1 _ (m.toXState, kHeapInit _) x0 x1 hstart, h.rest⟩
      · exact h.mono htime
  | servGet serv now' =>
      rw [step]
      cases m.xLookup .serv serv with
      | none => exact h.mono htime
      | some s => exact ⟨servGetR_state hread nrXTypes (m.toXState, []) (m.xAll 0) s hstart, h.rest⟩
  | servMsg => cases hasks
  | clusMsg => cases hasks
  | zombie => cases hasks

/-- Anything else happens to both. -/
theorem step (h : m.Unasked env.conf kept now m') (hc : env.conf.Decays a) {event : Event R}
    (hquiet : event.asks = false) (htime : now ≤ event.time) (hpos : 0 < event.time)
    (hd : ∀ call ∈ m.calls env event, ∀ i, kept i → 0 ≤ call.d i) :
    (m.step env event).Unasked env.conf kept event.time (m'.step env event) := by
  have hstart := h.mono htime
  have htree : m'.toXTree = m.toXTree := h.state.tree
  cases event with
  | servMsg serv msg now' =>
      rw [Daemon.step, Daemon.step, htree]
      rw [Daemon.calls] at hd
      cases hs : m.xLookup .serv serv with
      | none => exact hstart
      | some s =>
          rw [hs] at hd
          have hmsg := hstart.of_withTable (f := fun m => (servMsg env m s msg).1)
            fun table => congrArg Prod.fst (servMsg_withTable env m table s msg)
          have hargs : (servMsg env m' s msg).2 = (servMsg env m s msg).2 := by
            rw [h.eq_withTable, servMsg_withTable]
          simp only [servMsgCb] at hd ⊢
          generalize servMsg env m s msg = done at hd hmsg hargs ⊢
          generalize servMsg env m' s msg = done' at hmsg hargs ⊢
          obtain ⟨m₁, args⟩ := done
          obtain ⟨m₁', args'⟩ := done'
          simp only at hargs hmsg
          subst hargs
          cases args' with
          | none => exact hmsg
          | some args =>
              obtain ⟨x, d⟩ := args
              have hdelta := List.forall_mem_singleton.1 hd
              exact hmsg.of_state (hmsg.state.xUpdate hc hpos hdelta x s)
  | clusMsg clus msg now' =>
      rw [Daemon.step, Daemon.step, htree]
      cases m.xLookup .clus clus with
      | none => exact hstart
      | some c =>
          exact hstart.of_withTable (f := fun m => clusMsgCb env m c msg now')
            fun table => clusMsgCb_withTable env m table c msg now'
  | zombie job now' =>
      have hjobs : ∀ j, m'.jobs j = m.jobs j := fun j => by rw [h.rest]
      rw [Daemon.step, Daemon.step, hjobs]
      split
      · exact hstart.zombie job now'
      · exact hstart
  | top => cases hquiet
  | servGet => cases hquiet

/-- A run, and the run without its queries. -/
theorem run (h : m.Unasked env.conf kept now m') (hc : env.conf.Decays a)
    {events : List (Event R)} (hmono : (events.map Event.time).Pairwise (· ≤ ·))
    (hnow : ∀ event ∈ events, now ≤ event.time) (hpos : ∀ event ∈ events, 0 < event.time)
    (hd : ∀ call ∈ m.history env events, ∀ i, kept i → 0 ≤ call.d i) {later : R}
    (hlater : now ≤ later) (hlast : ∀ event ∈ events, event.time ≤ later) :
    (m.run env events).Unasked env.conf kept later
      (m'.run env (events.filter fun event => !event.asks)) := by
  induction events generalizing m m' now with
  | nil => exact h.mono hlater
  | cons event events ih =>
      rw [List.map_cons, List.pairwise_cons] at hmono
      rw [List.forall_mem_cons] at hnow hpos hlast
      rw [Daemon.history, List.forall_mem_append] at hd
      have hrest : ∀ next ∈ events, event.time ≤ next.time := fun next hnext =>
        hmono.1 next.time (List.mem_map_of_mem hnext)
      cases hasks : event.asks with
      | true =>
          rw [List.filter_cons_of_neg (by rw [hasks]; decide)]
          exact ih (h.query hc hasks hnow.1) hmono.2 hrest hpos.2 hd.2 hlast.1 hlast.2
      | false =>
          rw [List.filter_cons_of_pos (by rw [hasks]; rfl)]
          exact ih (h.step hc hasks hnow.1 hpos.1 hd.1) hmono.2 hrest hpos.2 hd.2 hlast.1 hlast.2

/-! ## Replies -/

omit [IsStrictOrderedRing R] in
/-- A query with an owner offers the same pairs. -/
theorem ownerPairs_eq (h : m.Unasked env.conf kept now m') (owner : CString) (d0 d1 : ℕ)
    (x0 x1 : XNode) : m'.ownerPairs owner d0 d1 x0 x1 = m.ownerPairs owner d0 d1 x0 x1 := by
  have hpasses : m'.passes owner = m.passes owner := by
    rw [h.eq_withTable]
    rfl
  rw [ownerPairs, ownerPairs, hpasses, h.state.topPairs_eq]

omit [IsStrictOrderedRing R] in
theorem queryPairs_eq (h : m.Unasked env.conf kept now m') (q : TopQuery) (x0 x1 : XNode) :
    m'.queryPairs q x0 x1 = m.queryPairs q x0 x1 := by
  rw [queryPairs, queryPairs]
  cases q.owner with
  | none => exact h.state.topPairs_eq q.d0 q.d1 x0 x1
  | some owner => exact h.ownerPairs_eq owner q.d0 q.d1 x0 x1

theorem servGet_reply (h : m.Unasked env.conf kept now m') (hc : env.conf.Decays a)
    (hok : StateOk m.toXState) (hok' : StateOk m'.toXState) (s : XNode) :
    List.Forall₂ (ReadsSame kept) (m.servGetCb env s now).2 (m'.servGetCb env s now).2 := by
  obtain ⟨hvalues, -⟩ := servGetCb_snd now (m := m) (s := s) hok hc.tick_pos .refl .refl
  obtain ⟨hvalues', -⟩ := servGetCb_snd now (m := m') (s := s) hok' hc.tick_pos .refl .refl
  have hall : m'.xAll = m.xAll := congrArg XTree.xAll h.state.tree
  rw [hvalues, hvalues', hostPairs, hostPairs, hall, h.state.topPairs_eq]
  exact h.state.freshValues_same _

theorem top_reply (h : m.Unasked env.conf (fun _ => True) now m') (hc : env.conf.Decays a)
    (hok : StateOk m.toXState) (hok' : StateOk m'.toXState) (q : TopQuery) :
    (m.topQueryCb env q now).2 = (m'.topQueryCb env q now).2 := by
  have hstr : ∀ str, m'.xLookupStr str = m.xLookupStr str := fun str =>
    congrArg (fun t : XTree => t.xLookupStr str) h.state.tree
  cases hx0 : m.xLookupStr q.x0 with
  | none => rw [topQueryCb, topQueryCb, hstr, hx0]
  | some x0 =>
      cases hx1 : m.xLookupStr q.x1 with
      | none => rw [topQueryCb, topQueryCb, hstr, hstr, hx0, hx1]
      | some x1 =>
          rw [topQueryCb_offers hok hc.tick_pos hx0 hx1,
            topQueryCb_offers hok' hc.tick_pos ((hstr _).trans hx0) ((hstr _).trans hx1),
            h.queryPairs_eq, eq_of_readsSame (h.state.freshValues_same _)]

end Daemon.Unasked

/-! ## Runs -/

/-- A booted daemon has no statistics yet. -/
theorem unasked_of_boot {env : Env R} {cfg : Config R} {m : Daemon R}
    (hboot : Daemon.boot env cfg = some m) (c : KConf R) (kept : Fin nrStats → Prop) (now : R) :
    m.Unasked c kept now m := by
  refine ⟨⟨rfl, rfl, rfl, fun i => ?_⟩, rfl⟩
  rw [(boot_grown hboot).table]
  exact .nil

variable [IsStrictOrderedRing R]

/-- A run of the daemon and the run without its queries differ in no tree, job,
timer, lnet or pair.  From then on clocks, pending amounts, totals, and the rates of
statistics without negative amounts are found alike, and without negative
amounts every query gets the same reply. -/
theorem queries_leave_no_trace {env : Env R} {a : R} (hc : env.conf.Decays a) {cfg : Config R}
    {m₀ : Daemon R} (hboot : Daemon.boot env cfg = some m₀) {events : List (Event R)}
    (hpos : ∀ event ∈ events, 0 < event.time)
    (hmono : (events.map Event.time).Pairwise (· ≤ ·)) {later : R} (hstart : 0 ≤ later)
    (hlast : ∀ event ∈ events, event.time ≤ later) :
    let asked := m₀.run env events
    let unasked := m₀.run env (events.filter fun event => !event.asks)
    let kept : Fin nrStats → Prop := fun i => ∀ call ∈ m₀.history env events, 0 ≤ call.d i
    unasked = { asked with kHashTable := unasked.kHashTable } ∧
      (∀ x0 x1, Option.Rel (ReadsSame kept)
        ((asked.kLookup x0 x1).map fun k => kFreshen env.conf k later)
        ((unasked.kLookup x0 x1).map fun k => kFreshen env.conf k later)) ∧
      ((∀ i, kept i) → ∀ s q,
        (asked.servGetCb env s later).2 = (unasked.servGetCb env s later).2 ∧
        (asked.topQueryCb env q later).2 = (unasked.topQueryCb env q later).2) := by
  intro asked unasked kept
  have hnow : ∀ event ∈ events, 0 ≤ event.time := fun event hevent => (hpos event hevent).le
  have hrun : ∀ {kept : Fin nrStats → Prop},
      (∀ call ∈ m₀.history env events, ∀ i, kept i → 0 ≤ call.d i) →
      asked.Unasked env.conf kept later unasked := fun hd =>
    (unasked_of_boot hboot env.conf _ 0).run hc hmono hnow hpos hd hstart hlast
  have hkept : asked.Unasked env.conf kept later unasked :=
    hrun fun call hcall i hi => hi call hcall
  refine ⟨hkept.eq_withTable, fun x0 x1 => ?_, fun hall s q => ?_⟩
  · have hold := hkept.state.kLookup x0 x1
    generalize asked.kLookup x0 x1 = k at hold
    generalize unasked.kLookup x0 x1 = k' at hold
    cases hold with
    | none => exact .none
    | @some k k' hk => exact .some ⟨hk.alike later le_rfl, XState.Unread.pair_eq k k' hk⟩
  · have hsame : asked.Unasked env.conf (fun _ => True) later unasked :=
      hrun fun call hcall i _ => hall i call hcall
    have hok := (reached_ok hboot events).state
    have hok' := (reached_ok hboot (events.filter fun event => !event.asks)).state
    exact ⟨eq_of_readsSame (hsame.servGet_reply hc hok hok' s), hsame.top_reply hc hok hok' q⟩

/-! ## A small installation -/

/-- What `exp` gives for the decay of one tick of the sample, to five digits. -/
def sampleDecay : ℚ := 98347 / 100000

/-- libm for the clock of the sample. -/
def sampleLibmEnv : Env ℚ :=
  { sampleEnv with
    conf :=
      { kTick := 10
        kWindow := 600
        exp := fun x => sampleDecay ^ ⌊-60 * x⌋.toNat
        expm1 := fun x => sampleDecay ^ ⌊-60 * x⌋.toNat - 1 } }

theorem sampleLibmEnv_decays : sampleLibmEnv.conf.Decays sampleDecay where
  tick_pos := by decide
  decay_nonneg := by decide +kernel
  decay_le_one := by decide +kernel
  expm1_tick := by decide +kernel
  exp_ticks j := by
    have hticks : -60 * ((j : ℚ) * (-10 / 600)) = j := by ring
    change sampleDecay ^ ⌊-60 * ((j : ℚ) * (-10 / 600))⌋.toNat = sampleDecay ^ j
    rw [hticks, Int.floor_natCast, Int.toNat_natCast]

def sampleLibmDaemon : Daemon ℚ :=
  (Daemon.boot sampleLibmEnv sampleConfig).get (by decide +kernel)

/-- A report, and a GET of the server one tick later. -/
def sampleAsked : List (Event ℚ) := [sampleServMsg, .servGet (lit "oss1") 12]

/-- Two ticks after that the GET makes no difference to another one. -/
theorem queries_leave_no_trace_sample :
    ((sampleLibmDaemon.run sampleLibmEnv sampleAsked).servGetCb sampleLibmEnv
        sampleServ 31).2 =
      ((sampleLibmDaemon.run sampleLibmEnv [sampleServMsg]).servGetCb sampleLibmEnv
        sampleServ 31).2 := by
  have hboot : Daemon.boot sampleLibmEnv sampleConfig = some sampleLibmDaemon :=
    (Option.some_get _).symm
  have hpos : ∀ event ∈ sampleAsked, 0 < event.time := by decide +kernel
  have hmono : (sampleAsked.map Event.time).Pairwise (· ≤ ·) := by decide +kernel
  have hlast : ∀ event ∈ sampleAsked, event.time ≤ 31 := by decide +kernel
  obtain ⟨-, -, hreplies⟩ :=
    queries_leave_no_trace sampleLibmEnv_decays hboot hpos hmono (by decide) hlast
  exact (hreplies (by decide +kernel) sampleServ sampleClusQuery).1

end Xltop.Master
