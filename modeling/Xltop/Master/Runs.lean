import Xltop.Master.Boot

/-!
# Runs of the daemon

Starting the daemon and every event are sequences of node steps, so what every
node step keeps holds in every state the daemon reaches.  For that the daemon
keeps its pointers alive: idle jobs are never reclaimed, timers belong to live
jobs, and a nid stands for a live host.
-/

namespace Xltop.Master

open Function
open Xltop.Text
open Xltop.Hash
open Xltop.Heap
open Xltop.Rate

variable {R : Type*} [Field R] [LinearOrder R] [FloorRing R]

omit [Field R] [LinearOrder R] [FloorRing R] in
/-- The pointers of the daemon are good. -/
structure DaemonOk (m : Daemon R) : Prop where
  state : StateOk m.toXState
  idle : ∀ {c j}, m.cIdleJob c = some j →
    m.Live j ∧ j.xType = .job ∧ (m.jobs j).jFake = true
  timers : ∀ {j}, (m.jobs j).jZombieW ≠ none → m.Live j ∧ j.xType = .job
  nids : ∀ {l table}, m.lnets l = some table →
    table.Forall fun x => m.Live x ∧ x.xType = .host

/-- Nodes may have been added; no statistic and no node that was there has
changed. -/
structure Grown (env : Env R) (m m' : Daemon R) : Prop where
  run : XRun env.conf m.toXState [] m'.toXState
  ok : DaemonOk m'
  table : m'.kHashTable = m.kHashTable
  live : ∀ {x}, m.Live x → m'.Live x
  parent : ∀ {x}, m.Live x → m'.parent x = m.parent x

namespace Grown

variable {env : Env R} {m m' m'' : Daemon R}

/-- The node state is the same. -/
theorem same (hok : DaemonOk m') (hsame : m'.toXState = m.toXState) :
    Grown env m m' :=
  ⟨hsame ▸ .refl, hok, hsame ▸ rfl, fun hx => hsame ▸ hx, fun _ => hsame ▸ rfl⟩

theorem refl (h : DaemonOk m) : Grown env m m :=
  .same h rfl

theorem trans (h : Grown env m m') (h' : Grown env m' m'') : Grown env m m'' :=
  ⟨h.run.trans h'.run, h'.ok, h'.table.trans h.table, fun hx => h'.live (h.live hx),
    fun hx => (h'.parent (h.live hx)).trans (h.parent hx)⟩

/-- Changes outside the node state may follow. -/
theorem then_same (h : Grown env m m') (hok : DaemonOk m'')
    (hsame : m''.toXState = m'.toXState) : Grown env m m'' :=
  h.trans (.same hok hsame)

end Grown

omit [Field R] [LinearOrder R] [FloorRing R] in
/-- What a line of a PUT to a cluster does to the nodes. -/
structure Assigned (m : Daemon R) (hostName jobName : CString) (m' : Daemon R) :
    Prop where
  table : m'.kHashTable = m.kHashTable
  live : ∀ {x}, m.Live x → m'.Live x
  host_job : ∃ x j, (m'.Live x ∧ x.xType = .host ∧ x.xName = hostName) ∧
    (m'.Live j ∧ j.xType = .job ∧ j.xName = jobName) ∧ m'.parent x = some j ∧
    ∀ {y}, m.Live y → y ≠ x → m'.parent y = m.parent y

omit [Field R] [LinearOrder R] [FloorRing R] in
/-- The line, if it has two words, does that to its host and job. -/
def Assigns (m : Daemon R) (msg : CString) (m' : Daemon R) : Prop :=
  ∀ ⦃hostName jobName rest⦄, (split 5 (some msg)).1 = hostName :: jobName :: rest →
    Assigned m hostName jobName m'

/-- What a line of a server does: nothing if the server is unknown.  Otherwise
`serv_msg` looks up its host, and then one pair may be updated. -/
inductive Reported (env : Env R) (m : Daemon R) (msg : CString) (now : R) :
    List (Call R) → Daemon R → Prop where
  | ignored : Reported env m msg now [] m
  | looked (s : XNode) (hgrown : Grown env m (Daemon.servMsg env m s msg).1) :
      Reported env m msg now [] (Daemon.servMsg env m s msg).1
  | updated (s : XNode) {x : XNode} {d : Stats R} {m' : Daemon R} {σ : XState R}
      (hm : m' = (Daemon.servMsg env m s msg).1) (hgrown : Grown env m m')
      (hstep : XStep env.conf m'.toXState [⟨m'.toXTree, x, s, d⟩] σ)
      (hupdate : XState.Updated env.conf m'.toXState x s d now σ) :
      Reported env m msg now [⟨m'.toXTree, x, s, d⟩] { m' with toXState := σ }

/-- A top query brings statistics up to date, and changes nothing else. -/
theorem step_top (env : Env R) (m : Daemon R) (q : Daemon.TopQuery) (now : R) :
    ∃ σ, m.step env (.top q now) = { m with toXState := σ } ∧
      Reads env.conf m.toXState σ := by
  rw [Daemon.step, Daemon.topQueryCb]
  split
  · next x0 x1 _ _ => exact ⟨_, rfl, .kHeapTop _ _ _ (m.toXState, kHeapInit _) x0 x1⟩
  · exact ⟨_, rfl, .refl⟩

/-- So does a GET of a server. -/
theorem step_servGet (env : Env R) (m : Daemon R) (serv : CString) (now : R) :
    ∃ σ, m.step env (.servGet serv now) = { m with toXState := σ } ∧
      Reads env.conf m.toXState σ := by
  rw [Daemon.step]
  cases m.xLookup .serv serv with
  | none => exact ⟨_, rfl, .refl⟩
  | some s => exact ⟨(m.servGetCb env s now).1.toXState, rfl,
      .servGetR nrXTypes (m.toXState, []) (m.xAll 0) s⟩

namespace DaemonOk

variable (env : Env R) {m : Daemon R}

omit [Field R] [LinearOrder R] [FloorRing R] in
/-- A change of the trees that keeps all nodes alive. -/
theorem of_tree (h : DaemonOk m) {t : XTree}
    (hstate : StateOk { m.toXState with toXTree := t })
    (hlive : ∀ {x}, m.Live x → t.Live x) : DaemonOk { m with toXTree := t } where
  state := hstate
  idle hj := ⟨hlive (h.idle hj).1, (h.idle hj).2⟩
  timers hj := ⟨hlive (h.timers hj).1, (h.timers hj).2⟩
  nids hl := (h.nids hl).mono fun _ hx => ⟨hlive hx.1, hx.2⟩

omit [Field R] [LinearOrder R] [FloorRing R] in
/-- A change of the nodes' statistics. -/
theorem of_state (h : DaemonOk m) {σ : XState R} (hstate : StateOk σ)
    (htree : σ.toXTree = m.toXTree) : DaemonOk { m with toXState := σ } where
  state := hstate
  idle hj := by
    change σ.toXTree.Live _ ∧ _
    rw [htree]
    exact h.idle hj
  timers hj := by
    change σ.toXTree.Live _ ∧ _
    rw [htree]
    exact h.timers hj
  nids hl := (h.nids hl).mono fun x hx => by
    change σ.toXTree.Live x ∧ _
    rw [htree]
    exact hx

/-- A new node below a live node one level up. -/
theorem xInit (h : DaemonOk m) {type : XType} {p : XNode} {name : CString}
    (hp : m.Live p) (hup : type.up = some p.xType)
    (hname : m.xLookup type name = none) :
    Grown env m { m with toXTree := (m.xInit type (some p) (strHash name) name).2 } := by
  have hlive : ∀ {x}, m.Live x →
      (m.xInit type (some p) (strHash name) name).2.Live x := fun hx =>
    (m.live_xInit type (strHash name) name (some p)).2 (.inr hx)
  refine ⟨.single (.create hp hup hname), h.of_tree (h.state.create hp hup hname) hlive,
    rfl, hlive, fun {x} hx => ?_⟩
  refine (m.parent_xInit type p (strHash name) name x).trans (if_neg ?_)
  rintro rfl
  exact h.state.tree.not_live_next _ _ _ hx

theorem xLookupCreate (h : DaemonOk m) (name : CString) {type : XType} {p : XNode}
    (hp : m.Live p) (hup : type.up = some p.xType) :
    Grown env m { m with toXTree := (m.xLookupCreate type name (some p)).2 } ∧
      (m.xLookupCreate type name (some p)).2.Live
        (m.xLookupCreate type name (some p)).1 ∧
      (m.xLookupCreate type name (some p)).1.xType = type ∧
      (m.xLookupCreate type name (some p)).1.xName = name := by
  rw [XTree.xLookupCreate]
  cases hname : m.xLookup type name with
  | some x => exact ⟨.refl h, h.state.tree.xLookup_eq_some.1 hname⟩
  | none =>
      exact ⟨h.xInit env hp hup hname,
        (m.live_xInit type (strHash name) name (some p)).2 (.inl rfl), rfl, rfl⟩

/-! ## Jobs -/

omit [Field R] [LinearOrder R] [FloorRing R] in
/-- A change of a live job, which leaves an idle job fake. -/
theorem setJob (h : DaemonOk m) {j : XNode} {f : JobNode R → JobNode R}
    (hlive : m.Live j) (hjob : j.xType = .job)
    (hfake : ∀ {c}, m.cIdleJob c = some j → (f (m.jobs j)).jFake = true) :
    DaemonOk (m.setJob j f) where
  state := h.state
  idle {c i} hi := by
    obtain ⟨hilive, hitype, hifake⟩ := h.idle hi
    refine ⟨hilive, hitype, ?_⟩
    change (update m.jobs j (f (m.jobs j)) i).jFake = true
    rcases eq_or_ne i j with rfl | hij
    · rw [update_self]
      exact hfake hi
    · rw [update_of_ne hij]
      exact hifake
  timers {i} hi := by
    rcases eq_or_ne i j with rfl | hij
    · exact ⟨hlive, hjob⟩
    · refine h.timers (j := i) ?_
      change (update m.jobs j (f (m.jobs j)) i).jZombieW ≠ none at hi
      rwa [update_of_ne hij] at hi
  nids := h.nids

theorem jobLookup (h : DaemonOk m) {parent : XNode} (hp : m.Live parent)
    (hclus : parent.xType = .clus) (name owner title start : CString) :
    Grown env m (Daemon.jobLookup env m name parent owner title start).2 ∧
      (Daemon.jobLookup env m name parent owner title start).2.Live
        (Daemon.jobLookup env m name parent owner title start).1 ∧
      (Daemon.jobLookup env m name parent owner title start).1.xType = .job ∧
      (Daemon.jobLookup env m name parent owner title start).1.xName = name := by
  rw [Daemon.jobLookup]
  cases hname : m.xLookup .job name with
  | some j => exact ⟨.refl h, h.state.tree.xLookup_eq_some.1 hname⟩
  | none =>
      have hgrown := h.xInit env hp
        (by rw [hclus]; rfl : XType.job.up = some parent.xType) hname
      have hnew : (m.xInit .job (some parent) (strHash name) name).2.Live
          (m.next .job (strHash name) name) :=
        (m.live_xInit .job (strHash name) name (some parent)).2 (.inl rfl)
      have hfresh : ∀ {c}, m.cIdleJob c ≠ some (m.next .job (strHash name) name) :=
        fun hidle => h.state.tree.not_live_next _ _ _ (h.idle hidle).1
      have hset := hgrown.ok.setJob (j := m.next .job (strHash name) name)
        (f := fun _ => ⟨owner, title, env.strtod start, none,
          env.freshBit (m.next .job (strHash name) name)⟩) hnew rfl
        fun hidle => absurd hidle hfresh
      exact ⟨hgrown.then_same hset rfl, hnew, rfl, rfl⟩

theorem jobEnd (h : DaemonOk m) {j : XNode} (hlive : m.Live j)
    (hjob : j.xType = .job) (now : R) : Grown env m (m.jobEnd j now) := by
  rw [Daemon.jobEnd]
  split
  · exact .refl h
  · exact .same (h.setJob hlive hjob fun hidle => (h.idle hidle).2.2) rfl

/-! ## Hosts -/

theorem xHostLookup (h : DaemonOk m) (name : CString) :
    Grown env m (m.xHostLookup name).2 ∧
      (m.xHostLookup name).2.lnets = m.lnets ∧
      ∀ {x}, (m.xHostLookup name).1 = some x →
        (m.xHostLookup name).2.Live x ∧ x.xType = .host := by
  rw [Daemon.xHostLookup]
  cases hname : m.xLookup .host name with
  | some x =>
      obtain ⟨hlive, htype, -⟩ := h.state.tree.xLookup_eq_some.1 hname
      refine ⟨.refl h, rfl, fun {y} hy => ?_⟩
      rw [← Option.some.inj hy]
      exact ⟨hlive, htype⟩
  | none =>
      cases hp : (m.clusLookupForHost name).bind m.cIdleJob with
      | none => exact ⟨.refl h, rfl, fun hx => nomatch hx⟩
      | some p =>
          obtain ⟨c, -, hidle⟩ := Option.bind_eq_some_iff.1 hp
          obtain ⟨hlive, hjob, -⟩ := h.idle hidle
          refine ⟨h.xInit env hlive (by rw [hjob]; rfl) hname, rfl, fun {y} hy => ?_⟩
          rw [← Option.some.inj hy]
          exact ⟨(m.live_xInit .host (strHash name) name (some p)).2 (.inl rfl), rfl⟩

omit [Field R] [LinearOrder R] [FloorRing R] in
/-- A change of one lnet to a table of live hosts. -/
theorem setLnet (h : DaemonOk m) (l : CString) (table : Option (StrTable XNode))
    (htable : ∀ {t}, table = some t → t.Forall fun x => m.Live x ∧ x.xType = .host) :
    DaemonOk { m with lnets := update m.lnets l table } where
  state := h.state
  idle := h.idle
  timers := h.timers
  nids {l' t} hl := by
    change update m.lnets l table l' = some t at hl
    rcases eq_or_ne l' l with rfl | hne
    · rw [update_self] at hl
      exact htable hl
    · rw [update_of_ne hne] at hl
      exact h.nids hl

theorem lnetLookupNid (h : DaemonOk m) (l nid : CString) :
    Grown env m (m.lnetLookupNid l nid).2 ∧
      ∀ {x}, (m.lnetLookupNid l nid).1 = some x →
        (m.lnetLookupNid l nid).2.Live x ∧ x.xType = .host := by
  rw [Daemon.lnetLookupNid]
  cases hl : m.lnets l with
  | none => exact ⟨.refl h, fun hx => by cases hx⟩
  | some table =>
      simp only
      cases href : strTableRef table nid with
      | some x =>
          refine ⟨.refl h, fun {y} hy => ?_⟩
          rw [← Option.some.inj hy]
          exact (h.nids hl).of_ref href
      | none =>
          obtain ⟨hgrown, hlnets, hhost⟩ := h.xHostLookup env nid
          have htable : table.Forall fun x =>
              (m.xHostLookup nid).2.Live x ∧ x.xType = .host :=
            hgrown.ok.nids (hlnets ▸ hl)
          rcases hx : m.xHostLookup nid with ⟨_ | x, m'⟩
          · rw [hx] at hgrown htable
            have hset := hgrown.ok.setLnet l
              (some (table.erase StrTableEntry.eKey strHash nid))
              fun heq => Option.some.inj heq ▸ htable.erase nid
            exact ⟨hgrown.then_same hset rfl, fun hx => by cases hx⟩
          · rw [hx] at hgrown htable hhost
            have hset := hgrown.ok.setLnet l
              (some (strTableAssign (strTableCreate table nid) nid x))
              fun heq => Option.some.inj heq ▸ htable.set nid (hhost rfl)
            refine ⟨hgrown.then_same hset rfl, fun {y} hy => ?_⟩
            rw [← Option.some.inj hy]
            exact hhost rfl

/-! ## Events -/

theorem servMsg (h : DaemonOk m) (s : XNode) (msg : CString) :
    Grown env m (Daemon.servMsg env m s msg).1 ∧
      ∀ {x d}, (Daemon.servMsg env m s msg).2 = some (x, d) →
        (Daemon.servMsg env m s msg).1.Live x ∧ x.xType = .host := by
  rw [Daemon.servMsg]
  split
  · next nid rest hwords =>
      obtain ⟨hgrown, hhost⟩ := h.lnetLookupNid env (m.sLnet s) nid
      rcases hx : m.lnetLookupNid (m.sLnet s) nid with ⟨_ | x, m'⟩
      · rw [hx] at hgrown
        exact ⟨hgrown, fun hd => nomatch hd⟩
      · rw [hx] at hgrown hhost
        refine ⟨hgrown, fun {y d} hd => ?_⟩
        obtain ⟨d', -, heq⟩ := Option.map_eq_some_iff.1 hd
        obtain rfl : x = y := congrArg Prod.fst heq
        exact hhost rfl
  · exact ⟨.refl h, fun hd => nomatch hd⟩

theorem clusMsgCb (h : DaemonOk m) {c : XNode} (hc : m.Live c)
    (hclus : c.xType = .clus) (msg : CString) (now : R) :
    XRun env.conf m.toXState [] (Daemon.clusMsgCb env m c msg now).toXState ∧
      DaemonOk (Daemon.clusMsgCb env m c msg now) ∧
      Assigns m msg (Daemon.clusMsgCb env m c msg now) := by
  rw [Daemon.clusMsgCb]
  split
  · next hostName jobName rest hwords =>
      obtain ⟨hgrown, hj, hjob, hjobName⟩ := h.jobLookup env hc hclus jobName
        (rest[0]?.getD (lit "NONE")) (rest[1]?.getD (lit "NONE"))
        (rest[2]?.getD (lit "0"))
      generalize Daemon.jobLookup env m jobName c _ _ _ = created
        at hgrown hj hjob hjobName
      obtain ⟨j, m₁⟩ := created
      obtain ⟨hgrown', hx, hhost, hhostName⟩ := hgrown.ok.xLookupCreate env
        hostName hj (by rw [hjob]; rfl : XType.host.up = some j.xType)
      have hj' := hgrown'.live hj
      simp only at hgrown' hx hhost hhostName hj' hjobName ⊢
      generalize m₁.xLookupCreate .host hostName (some j) = found
        at hgrown' hx hhost hhostName hj' ⊢
      obtain ⟨x, t⟩ := found
      have hall := hgrown.trans hgrown'
      have hup : x.xType.up = some j.xType := by rw [hhost, hjob]; rfl
      have hassigned : ∀ {m' : Daemon R}, m'.kHashTable = m.kHashTable →
          (∀ y, m'.Live y ↔ t.Live y) →
          (∀ y, m'.parent y = if y = x then some j else t.parent y) →
          Assigns m msg m' := by
        intro m' htable hlive hparent hostName' jobName' rest' heq
        rw [hwords] at heq
        obtain ⟨rfl, htail⟩ := List.cons_eq_cons.1 heq
        obtain ⟨rfl, -⟩ := List.cons_eq_cons.1 htail
        refine ⟨htable, fun hy => (hlive _).2 (hall.live hy), x, j,
          ⟨(hlive x).2 hx, hhost, hhostName⟩, ⟨(hlive j).2 hj', hjob, hjobName⟩,
          (hparent x).trans (if_pos rfl), fun hy hne => ?_⟩
        exact (hparent _).trans ((if_neg hne).trans (hall.parent hy))
      split
      · next hsame =>
          refine ⟨hall.run, hall.ok, hassigned hall.table (fun _ => .rfl) fun y => ?_⟩
          split
          · next heq => rw [heq]; exact hsame
          · rfl
      · have hmove : XStep env.conf { m₁.toXState with toXTree := t } []
            { m₁.toXState with toXTree := t.xSetParent x (some j) } :=
          .move hx hhost hj' hjob
        have hmoved : DaemonOk { m₁ with toXTree := t.xSetParent x (some j) } :=
          hall.ok.of_tree (hall.ok.state.move hx hhost hj' hjob)
            fun hy => (XTree.live_xSetParent _).2 hy
        have hrun := hall.run.trans (.single hmove)
        have hafter : ∀ m' : Daemon R, m'.toXState =
            { m₁.toXState with toXTree := t.xSetParent x (some j) } →
            Assigns m msg m' := fun m' hm' =>
          hassigned (hm' ▸ hall.table) (fun y => hm' ▸ XTree.live_xSetParent y)
            fun y => hm' ▸ XTree.parent_xSetParent x (some j) y
        cases hp : t.parent x with
        | none => exact ⟨hrun, hmoved, hafter _ rfl⟩
        | some p =>
            simp only
            split
            · next hempty =>
                have hplive : (t.xSetParent x (some j)).Live p :=
                  (XTree.live_xSetParent p).2 (hall.ok.state.tree.parent_live hp)
                have hend := hmoved.jobEnd env hplive hempty.1 now
                refine ⟨hrun.trans hend.run, hend.ok, hafter _ ?_⟩
                rw [Daemon.jobEnd]
                split <;> rfl
            · exact ⟨hrun, hmoved, hafter _ rfl⟩
  · next hwords =>
      exact ⟨.refl, h, fun _ _ _ heq => absurd heq (hwords _ _ _)⟩

theorem jobZombieCb (h : DaemonOk m) {j : XNode} (hlive : m.Live j)
    (hjob : j.xType = .job) (now : R) :
    XRun env.conf m.toXState [] (m.jobZombieCb j now).toXState ∧
      DaemonOk (m.jobZombieCb j now) := by
  have hstop := h.setJob (f := fun job => { job with jZombieW := none }) hlive hjob
    fun hidle => (h.idle hidle).2.2
  rw [Daemon.jobZombieCb]
  simp only
  split_ifs with hfake hchild
  · exact ⟨.refl, hstop⟩
  · exact ⟨.refl, hstop.setJob hlive hjob fun hidle => (hstop.idle hidle).2.2⟩
  · have hempty : m.children j = [] := by
      rw [← List.length_eq_zero_iff, ← h.state.tree.linked.nr_child]
      exact Nat.eq_zero_of_not_pos hchild
    have hstep : XStep env.conf m.toXState [] (m.xDestroy j) :=
      .destroy hlive hjob hempty
    have hstate := h.state.step hstep
    have hdestroy := destroyed_of_step h.state hjob
    have hkept : ∀ {x}, m.Live x → x ≠ j → (m.xDestroy j).Live x := by
      intro x hx hne
      rw [hdestroy.tree]
      exact (h.state.tree.live_xRemove hlive hempty).2 ⟨hx, hne⟩
    have hjobs : ∀ i, i ≠ j → (m.setJob j fun job => { job with
        jZombieW := none }).jobs i = m.jobs i := fun i hne => update_of_ne hne _ _
    refine ⟨.single hstep, hstate, fun {c i} hi => ?_, fun {i} hi => ?_, fun hl => ?_⟩
    · obtain ⟨hilive, hitype, hifake⟩ := hstop.idle hi
      refine ⟨hkept hilive ?_, hitype, hifake⟩
      rintro rfl
      exact hfake hifake
    · have hne : i ≠ j := by
        rintro rfl
        refine hi (congrArg JobNode.jZombieW (?_ : _ = { m.jobs i with jZombieW := none }))
        exact update_self (β := fun _ => JobNode R) _ _ _
      refine ⟨hkept (h.timers (j := i) ?_).1 hne, (h.timers (j := i) ?_).2⟩ <;>
      · rw [← hjobs i hne]
        exact hi
    · refine (h.nids hl).mono fun x hx => ⟨hkept hx.1 ?_, hx.2⟩
      rintro rfl
      rw [hjob] at hx
      cases hx.2

theorem reported_step (h : DaemonOk m) (serv msg : CString) (now : R) :
    Reported env m msg now (m.calls env (.servMsg serv msg now))
      (m.step env (.servMsg serv msg now)) := by
  rw [Daemon.calls, Daemon.step]
  cases hs : m.xLookup .serv serv with
  | none => exact .ignored
  | some s =>
      obtain ⟨hlive, hserv, -⟩ := h.state.tree.xLookup_eq_some.1 hs
      obtain ⟨hgrown, hhost⟩ := h.servMsg env s msg
      have hlooked : Reported env m msg now [] (Daemon.servMsg env m s msg).1 :=
        .looked s hgrown
      simp only [Daemon.servMsgCb]
      rcases hd : Daemon.servMsg env m s msg with ⟨m', _ | ⟨x, d⟩⟩
      · rw [hd] at hlooked
        exact hlooked
      · rw [hd] at hgrown hhost
        have hlive' := hgrown.live hlive
        exact .updated s (by rw [hd]) hgrown
          (.update (hhost rfl).1 (hhost rfl).2 hlive' hserv d now)
          (updated_of_step env.conf hgrown.ok.state (hhost rfl).1 (hhost rfl).2 hlive'
            hserv d now)

/-- Every event is a sequence of node steps with its calls. -/
theorem step (h : DaemonOk m) (event : Event R) :
    XRun env.conf m.toXState (m.calls env event) (m.step env event).toXState ∧
      DaemonOk (m.step env event) := by
  have hquery : ∀ {σ : XState R}, Reads env.conf m.toXState σ →
      XRun env.conf m.toXState [] σ ∧ DaemonOk { m with toXState := σ } :=
    fun hreads => ⟨hreads.run, h.of_state (h.state.run hreads.run) hreads.tree⟩
  cases event with
  | servMsg serv msg now =>
      have hreported := h.reported_step env serv msg now
      generalize m.calls env _ = calls, m.step env _ = m' at hreported ⊢
      cases hreported with
      | ignored => exact ⟨.refl, h⟩
      | looked s hgrown => exact ⟨hgrown.run, hgrown.ok⟩
      | updated s hm hgrown hstep hupdate =>
          exact ⟨hgrown.run.trans (.single hstep),
            hgrown.ok.of_state (hgrown.ok.state.step hstep) hupdate.tree⟩
  | clusMsg clus msg now =>
      rw [Daemon.calls, Daemon.step]
      · cases hc : m.xLookup .clus clus with
        | none => exact ⟨.refl, h⟩
        | some c =>
            obtain ⟨hlive, hclus, -⟩ := h.state.tree.xLookup_eq_some.1 hc
            obtain ⟨hrun, hok, -⟩ := h.clusMsgCb env hlive hclus msg now
            exact ⟨hrun, hok⟩
      · exact fun _ _ _ heq => nomatch heq
  | zombie job now =>
      rw [Daemon.calls, Daemon.step]
      · split
        · next htimer =>
            obtain ⟨hlive, hjob⟩ := h.timers (Option.isSome_iff_ne_none.1 htimer)
            exact h.jobZombieCb env hlive hjob now
        · exact ⟨.refl, h⟩
      · exact fun _ _ _ heq => nomatch heq
  | top q now =>
      obtain ⟨σ, hm, hreads⟩ := step_top env m q now
      rw [hm]
      exact hquery hreads
  | servGet serv now =>
      obtain ⟨σ, hm, hreads⟩ := step_servGet env m serv now
      rw [hm]
      exact hquery hreads

/-! ## Starting -/

theorem clusLookup (h : DaemonOk m) (name : CString) :
    Grown env m (Daemon.clusLookup env m name).2 := by
  rw [Daemon.clusLookup]
  cases hname : m.xLookup .clus name with
  | some c => exact .refl h
  | none =>
      have hroot : XType.clus.up = some (m.xAll 0).xType := by
        rw [h.state.tree.all_type]
        rfl
      have hcreate := h.xInit env (h.state.tree.all_live 0) hroot hname
      have hclive : (m.xInit .clus (some (m.xAll 0)) (strHash name) name).2.Live
          (m.next .clus (strHash name) name) :=
        (m.live_xInit .clus (strHash name) name (some (m.xAll 0))).2 (.inl rfl)
      obtain ⟨hgrown, hj, hjob, -⟩ := hcreate.ok.jobLookup env hclive rfl
        (lit "IDLE@" ++ name) (lit "NONE") (lit "NONE") (lit "0")
      have hset := hgrown.ok.setJob (f := fun job => { job with jFake := true }) hj hjob
        fun _ => rfl
      refine hcreate.trans (hgrown.then_same ⟨hset.state, fun {c' i} hi => ?_,
        hset.timers, hset.nids⟩ rfl)
      change update (β := fun _ => Option XNode) _ (m.next .clus (strHash name) name)
        _ c' = some i at hi
      rcases eq_or_ne c' (m.next .clus (strHash name) name) with rfl | hne
      · rw [update_self] at hi
        rw [← Option.some.inj hi]
        exact ⟨hj, hjob, congrArg JobNode.jFake
          (update_self (β := fun _ => JobNode R) _ _ _)⟩
      · rw [update_of_ne hne] at hi
        exact hset.idle hi

theorem clusCfg (h : DaemonOk m) (cfg : ClusCfg) :
    Grown env m (Daemon.clusCfg env m cfg) := by
  have hgrown := h.clusLookup env cfg.name
  exact List.foldlRecOn (motive := Grown env m) cfg.domains _ hgrown fun _ hm domain _ =>
    hm.then_same ⟨hm.ok.state, hm.ok.idle, hm.ok.timers, hm.ok.nids⟩ rfl

theorem lnetReadLine (h : DaemonOk m) (l line : CString) :
    Grown env m (Daemon.lnetReadLine l m line) := by
  rw [Daemon.lnetReadLine]
  split
  · next nid name hwords =>
      obtain ⟨hgrown, hlnets, hhost⟩ := h.xHostLookup env name
      rcases hx : m.xHostLookup name with ⟨_ | x, m'⟩
      · rw [hx] at hgrown
        exact hgrown
      · rw [hx] at hgrown hhost
        refine hgrown.then_same (hgrown.ok.setLnet l _ fun {t} ht => ?_) rfl
        obtain ⟨table, htable, rfl⟩ := Option.map_eq_some_iff.1 ht
        exact (hgrown.ok.nids htable).set nid (hhost rfl)
  · exact .refl h

theorem lnetCfg (h : DaemonOk m) {m' : Daemon R} {hint : UInt64} {cfg : LnetCfg}
    (hm : Daemon.lnetCfg hint m cfg = some m') : Grown env m m' := by
  have hset := h.setLnet cfg.name (some (hashTableInit hint))
    fun heq => Option.some.inj heq ▸ StrTable.Forall.init hint
  exact lnetCfg_keeps (P := Grown env m) (fun _ => .same hset rfl)
    (fun _ _ hgrown => hgrown.trans (hgrown.ok.lnetReadLine env cfg.name _)) (.refl h) hm

theorem servCreate (h : DaemonOk m) {p : XNode} (hp : m.Live p)
    (hfs : p.xType = .fs) (l name : CString) :
    Grown env m (Daemon.servCreate p l m name) := by
  rw [Daemon.servCreate]
  cases hname : m.xLookup .serv name with
  | some s => exact .refl h
  | none =>
      have hgrown := h.xInit env hp
        (by rw [hfs]; rfl : XType.serv.up = some p.xType) hname
      exact hgrown.then_same ⟨hgrown.ok.state, hgrown.ok.idle, hgrown.ok.timers,
        hgrown.ok.nids⟩ rfl

theorem fsCfg (h : DaemonOk m) {m' : Daemon R} {cfg : FsCfg R}
    (hm : Daemon.fsCfg m cfg = some m') : Grown env m m' := by
  have hroot : XType.fs.up = some (m.xAll 1).xType := by
    rw [h.state.tree.all_type]
    rfl
  obtain ⟨hgrown, hlive, hfs, -⟩ := h.xLookupCreate env cfg.name
    (h.state.tree.all_live 1) hroot
  exact (fsCfg_keeps (P := fun m₁ => Grown env m m₁ ∧ m₁.Live _) ⟨hgrown, hlive⟩
    (fun l name hm₁ =>
      have hserv := hm₁.1.ok.servCreate env hm₁.2 hfs l name
      ⟨hm₁.1.trans hserv, hserv.live hm₁.2⟩) hm).1

omit [LinearOrder R] [FloorRing R] in
theorem start (cfg : Config R) : DaemonOk (Daemon.start cfg) where
  state := stateOk_xStateInit cfg.hint
  idle hj := nomatch hj
  timers hj := absurd rfl hj
  nids hl := nomatch hl

end DaemonOk

/-- The daemon starts with its pointers in order. -/
theorem boot_grown {env : Env R} {cfg : Config R} {m : Daemon R}
    (hboot : Daemon.boot env cfg = some m) : Grown env (Daemon.start cfg) m := by
  have hnone := (DaemonOk.start cfg).clusLookup env (lit "NONE")
  refine boot_keeps hboot (fun heq => ?_) (fun clus hm => hm.trans (hm.ok.clusCfg env clus))
    (fun _ hm hl => hm.trans (hm.ok.lnetCfg env hl))
    fun hm hf => hm.trans (hm.ok.fsCfg env hf)
  rw [heq] at hnone
  exact hnone.then_same ⟨hnone.ok.state, hnone.ok.idle, hnone.ok.timers, hnone.ok.nids⟩ rfl

/-- A run of events is a sequence of node steps with the calls of the run. -/
theorem run_steps {env : Env R} {m : Daemon R} (h : DaemonOk m)
    (events : List (Event R)) :
    XRun env.conf m.toXState (m.history env events) (m.run env events).toXState ∧
      DaemonOk (m.run env events) := by
  induction events generalizing m with
  | nil => exact ⟨.refl, h⟩
  | cons event events ih =>
      obtain ⟨hstep, hok⟩ := h.step env event
      obtain ⟨hrun, hok'⟩ := ih hok
      exact ⟨hstep.trans hrun, hok'⟩

/-- Everything since the tables were empty, as one sequence of node steps. -/
theorem reached_steps {env : Env R} {cfg : Config R} {m : Daemon R}
    (hboot : Daemon.boot env cfg = some m) (events : List (Event R)) :
    XRun env.conf (xStateInit cfg.hint) (m.history env events)
      (m.run env events).toXState := by
  have hgrown := boot_grown hboot
  exact hgrown.run.trans (run_steps hgrown.ok events).1

/-! ## A small installation -/

section Sample

/-- The clock of a master whose only message is `1 2 3`. -/
def sampleEnv : Env ℚ where
  conf := { kTick := 10, kWindow := 600, exp := fun x => 1 + x, expm1 := id }
  strtod := fun _ => 0
  sscanfStats := fun msg => if msg = lit "1 2 3" then some ![1, 2, 3] else none
  freshBit := fun _ => false

/-- One filesystem with one server, and no cluster but the default one. -/
def sampleConfig : Config ℚ where
  nrHostsHint := 16
  nrJobsHint := 16
  clus := []
  lnets := [⟨lit "lnet0", []⟩]
  fs := [⟨lit "scratch", some (lit "lnet0"), [lit "oss1"], 300⟩]

def sampleDaemon : Daemon ℚ :=
  (Daemon.boot sampleEnv sampleConfig).get (by decide +kernel)

theorem boot_sample : Daemon.boot sampleEnv sampleConfig = some sampleDaemon :=
  (Option.some_get _).symm

/-- The server of the sample, and the host that its first message creates. -/
def sampleServ : XNode := ⟨5, .serv, strHash (lit "oss1"), lit "oss1"⟩

def sampleHost : XNode := ⟨6, .host, strHash (lit "10.0.0.1@tcp"), lit "10.0.0.1@tcp"⟩

def sampleServMsg : Event ℚ := .servMsg (lit "oss1") (lit "10.0.0.1@tcp 1 2 3") 1

/-- A second host, in a job of its own. -/
def sampleBusy : List (Event ℚ) :=
  [sampleServMsg, .clusMsg (lit "NONE") (lit "10.0.0.2@tcp j1 alice") 2,
    .servMsg (lit "oss1") (lit "10.0.0.2@tcp 1 2 3") 3]

end Sample

end Xltop.Master
