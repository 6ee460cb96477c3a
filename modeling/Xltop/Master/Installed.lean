import Xltop.Master.Domains

/-!
# What is installed

Servers, clusters and filesystems come from the configuration.  Events create
and remove hosts and jobs only, so that these nodes keep their names, their
parents and their order.
-/

namespace Xltop.Master

open Xltop.Hash
open Xltop.Rate
open Xltop.Text

/-- The nodes that events create. -/
def XType.Comes (type : XType) : Prop :=
  type = .host ∨ type = .job

instance (type : XType) : Decidable type.Comes :=
  inferInstanceAs (Decidable (type = .host ∨ type = .job))

theorem XType.which_of_comes {type : XType} (h : type.Comes) : type.which = 0 := by
  rcases h with rfl | rfl <;> rfl

variable {R : Type*}

/-- The installed nodes are the same, and those below the filesystems have the
same order. -/
structure Installed (m m' : Daemon R) : Prop where
  live : ∀ {y}, ¬ y.xType.Comes → (m'.Live y ↔ m.Live y)
  children : ∀ {y}, y.which = 1 → m'.children y = m.children y
  domains : SameDomains m m'

namespace Installed

variable {m m' m'' : Daemon R}

theorem refl (m : Daemon R) : Installed m m :=
  ⟨fun _ => Iff.rfl, fun _ => rfl, .refl m⟩

theorem trans (h : Installed m m') (h' : Installed m' m'') : Installed m m'' where
  live hy := (h'.live hy).trans (h.live hy)
  children hy := (h'.children hy).trans (h.children hy)
  domains := h.domains.trans h'.domains

theorem xLookup (h : Installed m m') (hok : DaemonOk m) (hok' : DaemonOk m') {type : XType}
    (htype : ¬ type.Comes) (name : CString) : m'.xLookup type name = m.xLookup type name := by
  ext x
  rw [hok'.state.tree.xLookup_eq_some, hok.state.tree.xLookup_eq_some]
  constructor
  · rintro ⟨hlive, rfl, hname⟩
    exact ⟨(h.live htype).1 hlive, rfl, hname⟩
  · rintro ⟨hlive, rfl, hname⟩
    exact ⟨(h.live htype).2 hlive, rfl, hname⟩

end Installed

variable [Field R] [LinearOrder R] [FloorRing R] {env : Env R} {m m' : Daemon R}

/-! ## Live nodes -/

/-- Nodes that come and go have been added. -/
def Comers (m m' : Daemon R) : Prop :=
  ∀ ⦃y : XNode⦄, m'.Live y → m.Live y ∨ y.xType.Comes

omit [Field R] [LinearOrder R] [FloorRing R] in
theorem Comers.of_tree (htree : m'.toXTree = m.toXTree) : Comers m m' := fun _ hy =>
  .inl (htree ▸ hy)

theorem comers_servMsg (env : Env R) (h : DaemonOk m) (s : XNode) (msg : CString) :
    Comers m (Daemon.servMsg env m s msg).1 := by
  rw [Daemon.servMsg]
  split
  · next nid rest hcut =>
      rcases hx : m.lnetLookupNid (m.sLnet s) nid with ⟨x, m'⟩
      have hfound : NidFound m (m.sLnet s) nid x m' := by
        have hnid := nidFound env h (m.sLnet s) nid
        rw [hx] at hnid
        exact hnid
      cases hfound with
      | @host name x _ hname hfound =>
          intro y hy
          rcases (hfound.live y).1 hy with hy | rfl
          · exact .inl hy
          · exact .inr (.inl (hfound.ok.state.tree.xLookup_eq_some.1 hfound.found).2.1)
      | none hname hok hsame => exact .of_tree (by rw [hsame])
  · exact .of_tree rfl

theorem comers_step (env : Env R) (h : DaemonOk m) (event : Event R) :
    Comers m (m.step env event) := by
  cases event with
  | servMsg serv msg now =>
      rw [Daemon.step]
      split
      · next s hs =>
          have hadded := comers_servMsg env h s msg
          rw [Daemon.servMsgCb]
          split
          · next hmsg =>
              rw [hmsg] at hadded
              exact hadded
          · next m₁ x d hmsg =>
              rw [hmsg] at hadded
              intro y hy
              have htree : (m₁.xUpdate env.conf x s d now).toXTree = m₁.toXTree := by
                rw [XState.xUpdate_eq, XState.foldl_kTouch_toXTree]
              exact hadded (htree ▸ hy)
      · exact .of_tree rfl
  | clusMsg clus msg now =>
      cases told_step env h clus msg now with
      | ignored hsame => exact .of_tree (by rw [hsame])
      | line hc hwords hline =>
          intro y hy
          rcases (hline.live y).1 hy with (hy | rfl) | rfl
          · exact .inl hy
          · exact .inr (.inr hline.types.2)
          · exact .inr (.inl hline.types.1)
  | zombie job now =>
      cases fired_step env h job now with
      | inactive hstart hsame => exact .of_tree (by rw [hsame])
      | fake hfake hm => exact .of_tree (by rw [hm]; rfl)
      | rearmed hchildren hm => exact .of_tree (by rw [hm]; rfl)
      | destroyed hstart hlive hjob hchildren hstate hjobs hidle =>
          intro y hy
          rw [hstate.tree, h.state.tree.live_xRemove hlive hchildren] at hy
          exact .inl hy.1
  | top q now =>
      obtain ⟨σ, hstep, hreads⟩ := step_top env m q now
      exact .of_tree (by rw [hstep]; exact hreads.tree)
  | servGet serv now =>
      obtain ⟨σ, hstep, hreads⟩ := step_servGet env m serv now
      exact .of_tree (by rw [hstep]; exact hreads.tree)

/-! ## Child lists -/

omit [Field R] [LinearOrder R] [FloorRing R] in
/-- The servers of a filesystem are its children. -/
theorem DaemonOk.servOfFs (h : DaemonOk m) {x c : XNode}
    (hfs : x.xType = .fs) (hc : c ∈ m.children x) : m.Live c ∧ c.xType = .serv := by
  have hparent := (h.state.tree.linked.mem_children x c).1 hc
  have hup := h.state.tree.up_of_parent hparent
  rw [hfs] at hup
  refine ⟨h.state.tree.live_of_parent hparent, ?_⟩
  revert hup
  cases c.xType <;> decide

/-- Below a provider, nodes may be added at the end. -/
def ProvidersKept (σ σ' : XState R) : Prop :=
  ∀ y : XNode, y.which = 1 → σ.children y <+: σ'.children y

theorem providersKept_step {c : KConf R} {σ σ' : XState R} {calls : List (Call R)}
    (h : StateOk σ) (hstep : XStep c σ calls σ') : ProvidersKept σ σ' := by
  intro y hy
  cases hstep with
  | create hp hup hname =>
      rw [h.tree.children_xInit hp]
      split
      · next heq => rw [heq]; exact List.prefix_append _ _
      · exact List.prefix_rfl
  | @move x p hx hhost hp hjob =>
      have hne : y ≠ p := by
        rintro rfl
        rw [XNode.which, hjob] at hy
        cases hy
      obtain ⟨j, hj, hjtype⟩ := h.tree.shape.host x (h.tree.held_iff.2 hx) hhost
      rw [h.tree.children_xSetParent (by rw [hj]; exact Option.some_ne_none j), if_neg hne]
      have hnot : x ∉ σ.children y := by
        rw [h.tree.linked.mem_children, hj, Option.some.injEq]
        rintro rfl
        rw [XNode.which, hjtype] at hy
        cases hy
      rw [List.erase_of_not_mem hnot]
  | update hx0 hhost hx1 hserv d now =>
      rw [(updated_of_step c h hx0 hhost hx1 hserv d now).tree]
  | @destroy x hx hjob hempty =>
      rw [(destroyed_of_step h hjob).tree]
      obtain ⟨q, hq, hqtype⟩ := h.tree.shape.job x (h.tree.held_iff.2 hx) hjob
      rw [h.tree.children_xRemove hq hempty, if_neg]
      rintro rfl
      rw [XNode.which, hqtype] at hy
      cases hy
  | freshen x0 x1 now => exact List.prefix_rfl

theorem providersKept_run {c : KConf R} {σ σ' : XState R} {calls : List (Call R)}
    (h : StateOk σ) (hrun : XRun c σ calls σ') : ProvidersKept σ σ' := by
  have hkept : StateOk σ' ∧ ProvidersKept σ σ' := by
    apply hrun.induct (motive := fun _ σ' => StateOk σ' ∧ ProvidersKept σ σ')
    · exact ⟨h, fun _ _ => List.prefix_rfl⟩
    · rintro _ σ₁ _ σ₂ ⟨hok, hkept⟩ hstep
      exact ⟨hok.step hstep, fun y hy => (hkept y hy).trans (providersKept_step hok hstep y hy)⟩
  exact hkept.2

/-! ## Steps -/

/-- An event leaves what is installed. -/
theorem installed_step (env : Env R) (h : DaemonOk m) (event : Event R) :
    Installed m (m.step env event) := by
  obtain ⟨hrun, hok⟩ := h.step env event
  have hlive : ∀ {y : XNode}, ¬ y.xType.Comes → ((m.step env event).Live y ↔ m.Live y) :=
    fun hy => ⟨fun hy' => (comers_step env h event hy').resolve_right hy,
      live_step h event fun hjob => hy (.inr hjob)⟩
  refine ⟨hlive, fun {y} hy => ?_, .step env h event⟩
  obtain ⟨new, hnew⟩ := providersKept_run h.state hrun y hy
  rw [← hnew]
  suffices hnil : new = [] by rw [hnil, List.append_nil]
  rw [List.eq_nil_iff_forall_not_mem]
  intro x hx
  have hmem : x ∈ (m.step env event).children y := hnew ▸ List.mem_append_right _ hx
  have hparent := (hok.state.tree.linked.mem_children y x).1 hmem
  have hxlive := hok.state.tree.live_of_parent hparent
  have hcomes : ¬ x.xType.Comes := fun hcomes => by
    have hwhich := XType.which_of_up (hok.state.tree.up_of_parent hparent)
    rw [XType.which_of_comes hcomes] at hwhich
    rw [XNode.which, hwhich] at hy
    cases hy
  -- a node that was there had its parent already, and so is in the list before
  have hold : x ∈ m.children y := by
    have hxold := (hlive hcomes).1 hxlive
    obtain ⟨p, hp⟩ : ∃ p, m.parent x = some p := by
      have hup := h.state.tree.parent_type hxold
      rw [hok.state.tree.up_of_parent hparent] at hup
      exact (Option.map_eq_some_iff.1 hup).imp fun p hp => hp.1
    have hwhich : p.which = 1 := by
      have hx1 := XType.which_of_up (hok.state.tree.up_of_parent hparent)
      have hx2 := XType.which_of_up (h.state.tree.up_of_parent hp)
      rw [XNode.which, hx2, ← hx1]
      exact hy
    have hmemp : x ∈ (m.step env event).children p :=
      (providersKept_run h.state hrun p hwhich).subset
        ((h.state.tree.linked.mem_children p x).2 hp)
    rw [hok.state.tree.linked.mem_children, hparent, Option.some.injEq] at hmemp
    rw [h.state.tree.linked.mem_children, hmemp]
    exact hp
  have hnodup := hok.state.tree.linked.nodup_children y
  rw [← hnew] at hnodup
  exact (List.nodup_append.1 hnodup).2.2 x hold x hx rfl

theorem installed_run (env : Env R) (h : DaemonOk m) (events : List (Event R)) :
    Installed m (m.run env events) := by
  induction events using List.reverseRecOn with
  | nil => exact .refl m
  | append_singleton events event ih =>
      rw [Daemon.run_concat]
      exact ih.trans (installed_step env (run_steps h events).2 event)

end Xltop.Master
