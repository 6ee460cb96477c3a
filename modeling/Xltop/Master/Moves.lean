import Xltop.Master.Runs
import Xltop.Master.TopWalk

/-!
# Moves of hosts

`x_update` and `x_destroy` keep the pairs closed under consumers, and so does
every event but one: a line of a cluster that moves a host to a job without
statistics for one of the host's servers.  `x_set_parent` carries nothing over
to the new job.
-/

namespace Xltop.Master

open Xltop.Text
open Xltop.Hash
open Xltop.Heap
open Xltop.Rate

variable {R : Type*} [Field R] [LinearOrder R] [FloorRing R]

namespace Daemon

omit [Field R] [LinearOrder R] [FloorRing R] in
/-- If the event is a line that assigns an existing host to a job, then the job
exists and has a `k_node` with every provider that the host has one with. -/
def MoveSafe (m : Daemon R) : Event R → Prop
  | .clusMsg clus msg _ => ∀ ⦃c hostName jobName rest x x1⦄,
      m.xLookup .clus clus = some c →
      (split 5 (some msg)).1 = hostName :: jobName :: rest →
      m.xLookup .host hostName = some x → m.HasPair x x1 →
      ∃ j, m.xLookup .job jobName = some j ∧ m.HasPair j x1
  | _ => True

/-- Every event of the run finds the state so. -/
def SafeRun (env : Env R) (m : Daemon R) : List (Event R) → Prop
  | [] => True
  | event :: events => m.MoveSafe event ∧ SafeRun env (m.step env event) events

theorem SafeRun.of_prefix {env : Env R} {m : Daemon R} {events reached : List (Event R)}
    (h : m.SafeRun env events) (hreached : reached <+: events) :
    m.SafeRun env reached := by
  induction reached generalizing m events with
  | nil => trivial
  | cons event reached ih =>
      obtain ⟨later, rfl⟩ := hreached
      exact ⟨h.1, ih h.2 (List.prefix_append _ _)⟩

end Daemon

/-! ## What each operation does to the closure -/

section Closure

variable {c : KConf R} {env : Env R} {m m' : Daemon R} {σ σ' : XState R}

omit [Field R] [LinearOrder R] [FloorRing R] in
theorem XState.hasPair_congr (htable : σ'.kHashTable = σ.kHashTable) (x0 x1 : XNode) :
    σ'.HasPair x0 x1 ↔ σ.HasPair x0 x1 := by
  rw [XState.HasPair, XState.kLookup_congr htable]
  rfl

omit [Field R] [LinearOrder R] [FloorRing R] in
theorem StateOk.consumer_live (h : StateOk σ) {x0 x1 : XNode}
    (hpair : σ.HasPair x0 x1) : σ.Live x0 := by
  obtain ⟨k, hk⟩ := hpair
  exact (h.pairs.consumer hk).1

/-- New nodes have no statistics. -/
theorem Grown.consumersClosed (h : Grown env m m') (hok : DaemonOk m)
    (hclosed : m.ConsumersClosed) : m'.ConsumersClosed := by
  intro y0 y1 p hy hp
  rw [XState.hasPair_congr h.table] at hy ⊢
  rw [h.parent (hok.state.consumer_live hy)] at hp
  exact hclosed hy hp

theorem Reads.consumersClosed (h : Reads c σ σ') (hclosed : σ.ConsumersClosed) :
    σ'.ConsumersClosed := by
  have hpair : ∀ x0 x1, σ'.HasPair x0 x1 ↔ σ.HasPair x0 x1 := fun x0 x1 => by
    rw [hasPair_iff, hasPair_iff, ne_eq, ne_eq, h.pairs x0 x1]
  intro y0 y1 p hy hp
  rw [hpair] at hy ⊢
  rw [h.tree] at hp
  exact hclosed hy hp

/-- The pairs that a message touches are closed by themselves. -/
theorem XState.Updated.consumersClosed {x0 x1 : XNode} {d : Stats R} {now : R}
    (h : XState.Updated c σ x0 x1 d now σ') (hclosed : σ.ConsumersClosed) :
    σ'.ConsumersClosed := by
  have hpair : ∀ y0 y1, σ'.HasPair y0 y1 ↔
      σ.HasPair y0 y1 ∨ σ.Above x0 y0 ∧ σ.Above x1 y1 := by
    intro y0 y1
    by_cases habove : σ.Above x0 y0 ∧ σ.Above x1 y1
    · rw [XState.HasPair, h.above habove.1 habove.2]
      exact iff_of_true ⟨_, rfl⟩ (.inr habove)
    · rw [XState.HasPair, h.other habove, or_iff_left habove]
      rfl
  intro y0 y1 p hy hp
  rw [h.tree] at hp
  rw [hpair] at hy ⊢
  rcases hy with hold | ⟨h0, h1⟩
  · exact .inl (hclosed hold hp)
  · exact .inr ⟨h0.tail hp, h1⟩

omit [Field R] [LinearOrder R] [FloorRing R] in
/-- A consumer without children takes only its own pairs with it. -/
theorem XState.Destroyed.consumersClosed {x : XNode} (h : XState.Destroyed σ x σ')
    (hstate : StateOk σ) (hx : σ.Live x) (hjob : x.xType = .job)
    (hempty : σ.children x = []) (hclosed : σ.ConsumersClosed) :
    σ'.ConsumersClosed := by
  obtain ⟨q, hq, -⟩ := hstate.tree.exists_parent hx
    (by rw [hjob]; rfl : x.xType.up = some .clus)
  intro y0 y1 p hy hp
  have hne : y0 ≠ x := by
    rintro rfl
    obtain ⟨k, hk⟩ := hy
    rw [h.gone y1] at hk
    cases hk
  rw [h.tree, hstate.tree.parent_xRemove hq hempty, if_neg hne] at hp
  have hpx : p ≠ x := by
    rintro rfl
    have hmem := (hstate.tree.linked.mem_children p y0).2 hp
    rw [hempty] at hmem
    cases hmem
  rw [XState.HasPair, h.other y1 hne] at hy
  rw [XState.HasPair, h.other y1 hpx]
  exact hclosed hy hp

omit [Field R] [LinearOrder R] [FloorRing R] in
/-- The line keeps the closure exactly when its job already covers its host. -/
theorem Assigned.consumersClosed_iff {hostName jobName : CString}
    (h : Assigned m hostName jobName m') (hok : DaemonOk m) (hok' : DaemonOk m')
    (hclosed : m.ConsumersClosed) :
    m'.ConsumersClosed ↔ ∀ ⦃x x1⦄, m.xLookup .host hostName = some x →
      m.HasPair x x1 → ∃ j, m.xLookup .job jobName = some j ∧ m.HasPair j x1 := by
  obtain ⟨x, j, hx, hj, hparent, hother⟩ := h.host_job
  have hpair : ∀ x0 x1, m'.HasPair x0 x1 ↔ m.HasPair x0 x1 :=
    XState.hasPair_congr h.table
  have hfound : ∀ {type name y y'}, m.xLookup type name = some y →
      m'.Live y' ∧ y'.xType = type ∧ y'.xName = name → y = y' := by
    intro type name y y' hy hy'
    have hlook := hok.state.tree.xLookup_of_live hok'.state.tree hy
      (h.live (hok.state.tree.xLookup_eq_some.1 hy).1)
    rw [hok'.state.tree.xLookup_eq_some.2 hy'] at hlook
    exact (Option.some.inj hlook).symm
  constructor
  · intro hclosed' x' x1 hx' hxpair
    obtain rfl := hfound hx' hx
    have hjpair := (hpair j x1).1 (hclosed' ((hpair x' x1).2 hxpair) hparent)
    exact ⟨j, hok.state.tree.xLookup_eq_some.2
      ⟨hok.state.consumer_live hjpair, hj.2⟩, hjpair⟩
  · intro hsafe y0 y1 p hy hp
    rw [hpair] at hy ⊢
    have hlive := hok.state.consumer_live hy
    rcases eq_or_ne y0 x with rfl | hne
    · obtain ⟨j', hj', hjpair⟩ := hsafe
        (hok.state.tree.xLookup_eq_some.2 ⟨hlive, hx.2⟩) hy
      obtain rfl := hfound hj' hj
      obtain rfl : j' = p := Option.some.inj (hparent.symm.trans hp)
      exact hjpair
    · rw [hother hlive hne] at hp
      exact hclosed hy hp

end Closure

/-! ## Runs -/

section Runs

variable {env : Env R} {m : Daemon R}

omit [Field R] [LinearOrder R] [FloorRing R] in
theorem consumersClosed_zombie (h : DaemonOk m) {j : XNode} (hlive : m.Live j)
    (hjob : j.xType = .job) (now : R) (hclosed : m.ConsumersClosed) :
    (m.jobZombieCb j now).ConsumersClosed := by
  rw [Daemon.jobZombieCb]
  simp only
  split_ifs with hfake hchild
  · exact hclosed
  · exact hclosed
  · have hempty : m.children j = [] := by
      rw [← List.length_eq_zero_iff, ← h.state.tree.linked.nr_child]
      exact Nat.eq_zero_of_not_pos hchild
    exact (destroyed_of_step h.state hjob).consumersClosed h.state hlive hjob hempty
      hclosed

theorem Reported.consumersClosed {msg : CString} {now : R} {calls : List (Call R)}
    {m' : Daemon R} (h : Reported env m msg now calls m') (hok : DaemonOk m)
    (hclosed : m.ConsumersClosed) : m'.ConsumersClosed := by
  cases h with
  | ignored => exact hclosed
  | looked s hgrown => exact hgrown.consumersClosed hok hclosed
  | updated s hm hgrown hstep hupdate =>
      exact hupdate.consumersClosed (hgrown.consumersClosed hok hclosed)

/-- Every event but a careless move keeps the pairs closed. -/
theorem consumersClosed_step (h : DaemonOk m) (hclosed : m.ConsumersClosed)
    (event : Event R) :
    (m.step env event).ConsumersClosed ↔ m.MoveSafe event := by
  cases event with
  | servMsg serv msg now =>
      exact iff_of_true ((h.reported_step env serv msg now).consumersClosed h hclosed) trivial
  | clusMsg clus msg now =>
      rw [Daemon.step, Daemon.MoveSafe]
      cases hc : m.xLookup .clus clus with
      | none => exact iff_of_true hclosed fun _ _ _ _ _ _ heq => by cases heq
      | some c =>
          obtain ⟨hlive, hclus, -⟩ := h.state.tree.xLookup_eq_some.1 hc
          obtain ⟨-, hok, hassigns⟩ := h.clusMsgCb env hlive hclus msg now
          by_cases hwords : ∃ hostName jobName rest,
              (split 5 (some msg)).1 = hostName :: jobName :: rest
          · obtain ⟨hostName, jobName, rest, hwords⟩ := hwords
            simp only
            rw [(hassigns hwords).consumersClosed_iff h hok hclosed]
            constructor
            · intro hsafe c' hostName' jobName' rest' x x1 _ hwords' hx hpair
              rw [hwords] at hwords'
              obtain ⟨rfl, htail⟩ := List.cons_eq_cons.1 hwords'
              obtain ⟨rfl, -⟩ := List.cons_eq_cons.1 htail
              exact hsafe hx hpair
            · exact fun hsafe x x1 hx hpair => hsafe rfl hwords hx hpair
          · refine iff_of_true ?_ fun c' hostName jobName rest x x1 _ heq =>
              absurd ⟨hostName, jobName, rest, heq⟩ hwords
            simp only
            rw [Daemon.clusMsgCb]
            split
            · next heq => exact absurd ⟨_, _, _, heq⟩ hwords
            · exact hclosed
  | zombie job now =>
      refine iff_of_true ?_ trivial
      rw [Daemon.step]
      split
      · next htimer =>
          obtain ⟨hlive, hjob⟩ := h.timers (Option.isSome_iff_ne_none.1 htimer)
          exact consumersClosed_zombie h hlive hjob now hclosed
      · exact hclosed
  | top q now =>
      obtain ⟨σ, hm, hreads⟩ := step_top env m q now
      rw [hm]
      exact iff_of_true (hreads.consumersClosed hclosed) trivial
  | servGet serv now =>
      obtain ⟨σ, hm, hreads⟩ := step_servGet env m serv now
      rw [hm]
      exact iff_of_true (hreads.consumersClosed hclosed) trivial

theorem consumersClosed_run (h : DaemonOk m) (hclosed : m.ConsumersClosed)
    {events : List (Event R)} (hsafe : m.SafeRun env events) :
    (m.run env events).ConsumersClosed := by
  induction events generalizing m with
  | nil => exact hclosed
  | cons event events ih =>
      exact ih (h.step env event).2 ((consumersClosed_step h hclosed event).2 hsafe.1)
        hsafe.2

theorem consumersClosed_boot {cfg : Config R} (hboot : Daemon.boot env cfg = some m) :
    m.ConsumersClosed := by
  refine (boot_grown hboot).consumersClosed (.start cfg) fun y0 y1 p hy => ?_
  rw [hasPair_iff] at hy
  exact absurd (kLookup_xStateInit cfg.hint y0 y1) hy

/-- In every state of a run without careless moves, a top walk finds every pair
at the asked depths; and the first careless move is the end of that. -/
theorem top_walk_complete {env : Env R} {cfg : Config R} {m₀ : Daemon R}
    (hboot : Daemon.boot env cfg = some m₀) :
    (∀ events reached : List (Event R), m₀.SafeRun env events → reached <+: events →
        (m₀.run env reached).TopComplete env.conf) ∧
      ∀ (events : List (Event R)) (event : Event R),
        (m₀.run env events).TopComplete env.conf →
        ((m₀.run env (events ++ [event])).TopComplete env.conf ↔
          (m₀.run env events).MoveSafe event) := by
  have hok := (boot_grown hboot).ok
  have hclosed := consumersClosed_boot hboot
  constructor
  · intro events reached hsafe hreached
    rw [topComplete_iff (run_steps hok reached).2.state]
    exact consumersClosed_run hok hclosed (hsafe.of_prefix hreached)
  · intro events event hcomplete
    have hok' : DaemonOk (m₀.run env events) := (run_steps hok events).2
    rw [topComplete_iff hok'.state] at hcomplete
    rw [topComplete_iff (run_steps hok _).2.state, Daemon.run, List.foldl_append,
      List.foldl_cons, List.foldl_nil]
    exact consumersClosed_step hok' hcomplete event

theorem top_walk_complete_sample :
    (sampleDaemon.run sampleEnv [sampleServMsg]).TopComplete sampleEnv.conf :=
  (top_walk_complete boot_sample).1 [sampleServMsg] [sampleServMsg]
    ⟨trivial, trivial⟩ (List.prefix_refl _)

/-- The line that moves the host of the sample to a new job. -/
def sampleMove : Event ℚ := .clusMsg (lit "NONE") (lit "10.0.0.1@tcp j1") 2

/-- The host has statistics with the server, its new job has none. -/
theorem top_walk_misses_moved_host :
    ¬ (sampleDaemon.run sampleEnv [sampleServMsg, sampleMove]).TopComplete
      sampleEnv.conf := by
  have hok := (boot_grown boot_sample).ok
  rw [topComplete_iff (run_steps hok [sampleServMsg, sampleMove]).2.state]
  intro hclosed
  have hpair : (sampleDaemon.run sampleEnv [sampleServMsg, sampleMove]).HasPair
      sampleHost sampleServ := Option.isSome_iff_exists.1 (by decide +kernel)
  have hparent : (sampleDaemon.run sampleEnv [sampleServMsg, sampleMove]).parent
      sampleHost = some ⟨7, .job, strHash (lit "j1"), lit "j1"⟩ := by
    decide +kernel
  apply hasPair_iff.1 (hclosed hpair hparent)
  exact Option.isNone_iff_eq_none.1 (by decide +kernel)

end Runs

end Xltop.Master
