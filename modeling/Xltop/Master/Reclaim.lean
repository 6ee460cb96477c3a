import Xltop.Master.Lines

/-!
# Reclaiming jobs

A job that is destroyed takes its statistics along and no others.  Every job
without hosts waits for that with its timer active, provided that every byte
of `j_fake` that `malloc` hands out for a job is zero, since `job_lookup` never
writes the field.
-/

namespace Xltop.Master

open Function
open Xltop.Text
open Xltop.Hash
open Xltop.Rate

variable {R : Type*} [Field R] [LinearOrder R] [FloorRing R]

/-! ## The statistics of a job -/

section Statistics

omit [Field R] [LinearOrder R] [FloorRing R]

/-- The statistics of the consumer `x` have gone, and nothing else. -/
structure StatsRemoved (σ : XState R) (x : XNode) (σ' : XState R) : Prop where
  kLookup : ∀ x0 x1, σ'.kLookup x0 x1 = if x0 = x then none else σ.kLookup x0 x1
  toList : σ'.kHashTable.toList.Perm (σ.kHashTable.toList.filter fun k => k.kX0 ≠ x)
  nr_k : σ.nrK = σ'.nrK + (σ.kHashTable.toList.filter fun k => k.kX0 = x).length

variable {σ σ' : XState R} {x : XNode}

theorem StateOk.mem_toList (h : σ.TableOk) {k : KNode XNode R} :
    k ∈ σ.kHashTable.toList ↔ σ.kLookup k.kX0 k.kX1 = some k :=
  h.keyed.mem_toList

theorem XState.Destroyed.statsRemoved (h : XState.Destroyed σ x σ') (hstate : StateOk σ) :
    StatsRemoved σ x σ' := by
  have hlookup : ∀ x0 x1, σ'.kLookup x0 x1 =
      if x0 = x then none else σ.kLookup x0 x1 := fun x0 x1 => by
    split
    · next heq => rw [heq, h.gone]
    · next hne => exact h.other x1 hne
  have hperm : σ'.kHashTable.toList.Perm
      (σ.kHashTable.toList.filter fun k => k.kX0 ≠ x) := by
    apply (List.perm_ext_iff_of_nodup h.table.keyed.nodup_toList
      (hstate.pairs.keyed.nodup_toList.filter _)).2
    intro k
    rw [List.mem_filter, StateOk.mem_toList h.table, StateOk.mem_toList hstate.pairs.toTableOk,
      hlookup]
    by_cases hk : k.kX0 = x <;> simp [hk]
  refine ⟨hlookup, hperm, ?_⟩
  have hsplit := List.length_eq_length_filter_add (l := σ.kHashTable.toList)
    fun k => decide (k.kX0 ≠ x)
  calc σ.nrK = σ.kHashTable.toList.length := hstate.pairs.nr_k
    _ = (σ.kHashTable.toList.filter fun k => k.kX0 ≠ x).length +
        (σ.kHashTable.toList.filter fun k => !decide (k.kX0 ≠ x)).length := hsplit
    _ = σ'.nrK + (σ.kHashTable.toList.filter fun k => k.kX0 = x).length := by
        rw [← hperm.length_eq, ← h.table.nr_k]
        simp

end Statistics

omit [Field R] [LinearOrder R] [FloorRing R] in
/-- The job of a timer is the only node that the timer takes away. -/
theorem Fired.of_gone {m m' : Daemon R} {j x : XNode} {now : R} (h : Fired m j now m')
    (hok : DaemonOk m) (hx : m.Live x) (hgone : ¬ m'.Live x) :
    x = j ∧ j.xType = .job ∧ (∃ start, (m.jobs j).jZombieW = some start) ∧
      m.children j = [] ∧ XState.Destroyed m.toXState j m'.toXState := by
  cases h with
  | inactive hstart hsame => exact absurd (hsame ▸ hx) hgone
  | fake hfake hm => exact absurd (hm ▸ hx) hgone
  | rearmed hchildren hm => exact absurd (hm ▸ hx) hgone
  | destroyed hstart hlive hjob hchildren hstate hjobs hidle =>
      rw [hstate.tree, hok.state.tree.live_xRemove hlive hchildren, not_and_not_right] at hgone
      exact ⟨hgone hx, hjob, ⟨_, hstart⟩, hchildren, hstate⟩

/-- A zombie timer that takes a job away takes the statistics of that job and
no others; and the two ends of all statistics are in memory. -/
theorem job_destruction_exact {env : Env R} {cfg : Config R} {m₀ : Daemon R}
    (hboot : Daemon.boot env cfg = some m₀) :
    (∀ (events : List (Event R)) (job : XNode) (now : R) (x : XNode),
        (m₀.run env events).Held x →
        ¬ ((m₀.run env events).step env (.zombie job now)).Held x →
        x.xType = .job ∧ StatsRemoved (m₀.run env events).toXState x
          ((m₀.run env events).step env (.zombie job now)).toXState) ∧
      ∀ (events : List (Event R)), ∀ k ∈ (m₀.run env events).kHashTable.toList,
        (m₀.run env events).Held k.kX0 ∧ (m₀.run env events).Held k.kX1 := by
  constructor
  · intro events job now x hx hgone
    have hok := reached_ok hboot events
    have hok' := (hok.step env (.zombie job now)).2
    rw [hok.state.tree.held_iff] at hx
    rw [hok'.state.tree.held_iff] at hgone
    obtain ⟨rfl, hjob, -, -, hstate⟩ := (fired_step env hok job now).of_gone hok hx hgone
    exact ⟨hjob, hstate.statsRemoved hok.state⟩
  · intro events k hk
    have hok := reached_ok hboot events
    rw [hok.state.tree.held_iff, hok.state.tree.held_iff]
    have hlookup := (StateOk.mem_toList hok.state.pairs.toTableOk).1 hk
    exact ⟨(hok.state.pairs.consumer hlookup).1, (hok.state.pairs.provider hlookup).1⟩

/-- The host of the sample runs `j1`, and its server reports it; then the host
goes to `j2`. -/
def sampleEnding : List (Event ℚ) :=
  [.clusMsg (lit "NONE") (lit "10.0.0.1@tcp j1") 1, sampleServMsg,
    .clusMsg (lit "NONE") (lit "10.0.0.1@tcp j2") 2]

def sampleJob : XNode := ⟨6, .job, strHash (lit "j1"), lit "j1"⟩

theorem job_destruction_exact_sample :
    StatsRemoved (sampleDaemon.run sampleEnv sampleEnding).toXState sampleJob
        ((sampleDaemon.run sampleEnv sampleEnding).step sampleEnv
          (.zombie sampleJob 302)).toXState ∧
      ∀ k ∈ (sampleDaemon.run sampleEnv sampleEnding).kHashTable.toList,
        (sampleDaemon.run sampleEnv sampleEnding).Held k.kX0 ∧
          (sampleDaemon.run sampleEnv sampleEnding).Held k.kX1 :=
  ⟨((job_destruction_exact boot_sample).1 sampleEnding sampleJob 302 sampleJob
      (by decide +kernel) (by decide +kernel)).2,
    (job_destruction_exact boot_sample).2 sampleEnding⟩

/-! ## Jobs without hosts -/

section Scheduled

omit [Field R] [LinearOrder R] [FloorRing R]

/-- The job is the `c_idle_job` of a cluster. -/
def Daemon.IdleJob (m : Daemon R) (j : XNode) : Prop :=
  ∃ c, m.Live c ∧ c.xType = .clus ∧ m.cIdleJob c = some j

/-- Only idle jobs are fake, and every other job without hosts has its zombie
timer active. -/
structure Scheduled (m : Daemon R) : Prop where
  fake : ∀ j, m.Live j → j.xType = .job → (m.jobs j).jFake = true → m.IdleJob j
  timer : ∀ j, m.Live j → j.xType = .job → m.children j = [] → ¬ m.IdleJob j →
    (m.jobs j).jZombieW ≠ none

/-- If the event is a line that creates a job, `malloc` returns a zero where
`j_fake` will be. -/
def Daemon.FreshZero (env : Env R) (m : Daemon R) : Event R → Prop
  | .clusMsg clus msg _ => ∀ ⦃c hostName jobName rest⦄,
      m.xLookup .clus clus = some c →
      (split 5 (some msg)).1 = hostName :: jobName :: rest →
      m.xLookup .job jobName = none →
      env.freshBit (m.next .job (strHash jobName) jobName) = false
  | _ => True

variable {env : Env R} {m m' : Daemon R}

theorem Daemon.IdleJob.mono {j : XNode} (h : m.IdleJob j)
    (hlive : ∀ {c}, c.xType = .clus → m.Live c → m'.Live c)
    (hidle : m'.cIdleJob = m.cIdleJob) : m'.IdleJob j := by
  obtain ⟨c, hc, hclus, hj⟩ := h
  exact ⟨c, hlive hclus hc, hclus, hidle ▸ hj⟩

theorem JobsKept.scheduled (h : JobsKept m m') (hs : Scheduled m) : Scheduled m' where
  fake j hlive hjob hfake := by
    rw [h.jobs] at hfake
    exact (hs.fake j (h.job hjob hlive) hjob hfake).mono (fun _ => h.live) h.idle
  timer j hlive hjob hnil hidle := by
    rw [h.jobs]
    apply hs.timer j (h.job hjob hlive) hjob
    · exact List.prefix_nil.1 (hnil ▸ h.children hjob)
    · exact fun hidle' => hidle (hidle'.mono (fun _ => h.live) h.idle)

@[simp]
theorem ended_jFake (now : R) (job : JobNode R) : (ended now job).jFake = job.jFake := by
  rw [ended]
  split <;> rfl

theorem ended_jZombieW {job : JobNode R} (hfake : job.jFake = false) (now : R) :
    (ended now job).jZombieW = some (job.jZombieW.getD now) := by
  rw [ended, if_neg (ne_true_of_eq_false hfake)]
  rfl

namespace Line

variable {c x j : XNode} {hostName jobName : CString} {rest : List CString} {now : R}

theorem scheduled (h : Line env m c hostName jobName rest now x j m') (hs : Scheduled m)
    (hfresh : ¬ m.Live j → env.freshBit j = false) : Scheduled m' where
  fake i hlive hjob hfake := by
    have hidle : m.IdleJob i := by
      rw [h.jobs] at hfake
      by_cases hij : i = j
      · subst hij
        by_cases hl : m.Live i
        · rw [if_pos rfl, if_pos hl] at hfake
          exact hs.fake i hl hjob hfake
        · rw [if_pos rfl, if_neg hl, newJob, hfresh hl] at hfake
          cases hfake
      · have hl := h.live_job hjob hij hlive
        rw [if_neg hij] at hfake
        apply hs.fake i hl hjob
        split at hfake
        · rwa [ended_jFake] at hfake
        · exact hfake
    exact hidle.mono (fun _ hl => (h.live _).2 (.inl (.inl hl))) h.idle
  timer i hlive hjob hnil hidle := by
    have hij : i ≠ j := by
      rintro rfl
      have hmem := h.mem_children
      rw [hnil] at hmem
      cases hmem
    have hl := h.live_job hjob hij hlive
    have hnot : ¬ m.IdleJob i := fun hi =>
      hidle (hi.mono (fun _ hl => (h.live _).2 (.inl (.inl hl))) h.idle)
    have hreal : (m.jobs i).jFake = false := by
      apply Bool.eq_false_iff.2
      exact fun hfake => hnot (hs.fake i hl hjob hfake)
    rw [h.children i hjob, if_neg hij] at hnil
    rw [h.jobs, if_neg hij]
    by_cases hx : x ∈ m.children i
    · rw [if_pos ((erase_eq_nil_iff hx).1 hnil), ended_jZombieW hreal]
      exact Option.some_ne_none _
    · rw [List.erase_of_not_mem hx] at hnil
      have hne : m.children i ≠ [x] := fun heq => hx (heq ▸ List.mem_singleton_self x)
      rw [if_neg hne]
      exact hs.timer i hl hjob hnil hnot

end Line

/-- The timer of a job without hosts is switched off only if the job is fake. -/
theorem Scheduled.setTimer (hs : Scheduled m) {j : XNode} {timer : Option R}
    (hoff : m.children j = [] → (m.jobs j).jFake = false → timer ≠ none) :
    Scheduled (m.setJob j fun job => { job with jZombieW := timer }) where
  fake i hlive hjob hfake := by
    apply hs.fake i hlive hjob
    rw [setJob_jobs] at hfake
    split at hfake
    · next heq => rwa [heq]
    · exact hfake
  timer i hlive hjob hnil hidle := by
    rw [setJob_jobs]
    split
    · next heq =>
        subst heq
        apply hoff hnil
        apply Bool.eq_false_iff.2
        exact fun hfake => hidle (hs.fake i hlive hjob hfake)
    · exact hs.timer i hlive hjob hnil hidle

theorem Fired.scheduled {j : XNode} {now : R} (h : Fired m j now m') (hok : DaemonOk m)
    (hs : Scheduled m) : Scheduled m' := by
  have hchildren := fun {i} hi => h.children hok (i := i) hi
  have hother := fun {i} hi => h.jobs_of_ne (i := i) hi
  cases h with
  | inactive hstart hsame => exact hsame ▸ hs
  | fake hfake hm =>
      rw [hm]
      exact hs.setTimer fun _ hreal => absurd hfake (ne_true_of_eq_false hreal)
  | rearmed hhosts hm =>
      rw [hm]
      exact hs.setTimer fun hnil _ => absurd hnil hhosts
  | destroyed hstart hlive hjob hempty hstate hjobs hidle =>
      have hlive' : ∀ {y}, m'.Live y ↔ m.Live y ∧ y ≠ j := by
        intro y
        rw [hstate.tree]
        exact hok.state.tree.live_xRemove hlive hempty
      have hclus : ∀ {y}, y.xType = .clus → m.Live y → m'.Live y := by
        intro y hy hl
        exact hlive'.2 ⟨hl, XNode.ne_of_types hy hjob (by decide)⟩
      refine ⟨fun i hi hijob hfake => ?_, fun i hi hijob hnil hidle' => ?_⟩
      · rw [hother (hlive'.1 hi).2] at hfake
        exact (hs.fake i (hlive'.1 hi).1 hijob hfake).mono hclus hidle
      · rw [hother (hlive'.1 hi).2]
        rw [hchildren hijob] at hnil
        exact hs.timer i (hlive'.1 hi).1 hijob hnil fun hi => hidle' (hi.mono hclus hidle)

/-! ## Starting -/

/-- Before the first event the only jobs are idle jobs. -/
structure Starting (m : Daemon R) : Prop where
  ok : DaemonOk m
  idle : ∀ j, m.Live j → j.xType = .job → m.IdleJob j

namespace Starting

theorem scheduled (h : Starting m) : Scheduled m where
  fake j hlive hjob _ := h.idle j hlive hjob
  timer j hlive hjob _ hidle := absurd (h.idle j hlive hjob) hidle

theorem kept (h : Starting m) (hok : DaemonOk m') (hkept : JobsKept m m') :
    Starting m' where
  ok := hok
  idle j hlive hjob :=
    (h.idle j (hkept.job hjob hlive) hjob).mono (fun _ => hkept.live) hkept.idle

end Starting

end Scheduled

namespace Starting

variable {m m' : Daemon R}

theorem clusLookup (env : Env R) (h : Starting m) (name : CString) :
    Starting (Daemon.clusLookup env m name).2 := by
  have hok := (h.ok.clusLookup env name).ok
  revert hok
  rw [Daemon.clusLookup]
  cases hname : m.xLookup .clus name with
  | some c => exact fun _ => h
  | none =>
      have hroot : XType.clus.up = some (m.xAll 0).xType := by
        rw [h.ok.state.tree.all_type]
        rfl
      have hcreate := h.ok.xInit env (h.ok.state.tree.all_live 0) hroot hname
      have hlive := fun y => m.live_xInit .clus (strHash name) name (some (m.xAll 0)) (x := y)
      have hfresh := h.ok.state.tree.not_live_next .clus (strHash name) name
      have hjob := hcreate.ok.jobFound env ((hlive _).2 (.inl rfl)) rfl
        (lit "IDLE@" ++ name) []
      intro hok
      refine ⟨hok, fun i hi hijob => ?_⟩
      have hclus : ∀ {y}, m.Live y ∨ y = m.next .clus (strHash name) name →
          ((Daemon.clusLookup env m name).2).Live y := by
        intro y hy
        rw [Daemon.clusLookup, hname]
        exact (hjob.live y).2 (.inl ((hlive y).2 hy.symm))
      rw [Daemon.clusLookup, hname] at hclus
      rcases (hjob.live i).1 hi with hold | rfl
      · have hne : i ≠ m.next .clus (strHash name) name := by
          rintro rfl
          cases hijob
        obtain ⟨c, hc, hctype, hcidle⟩ :=
          h.idle i (((hlive i).1 hold).resolve_left hne) hijob
        refine ⟨c, hclus (.inl hc), hctype, ?_⟩
        have hcne : c ≠ m.next .clus (strHash name) name := fun heq => hfresh (by rwa [heq] at hc)
        apply (update_of_ne hcne _ _).trans
        exact (congrFun hjob.idle c).trans hcidle
      · exact ⟨_, hclus (.inr rfl), rfl, update_self ..⟩

theorem clusCfg (env : Env R) (h : Starting m) (cfg : ClusCfg) :
    Starting (Daemon.clusCfg env m cfg) := by
  refine List.foldlRecOn cfg.domains _ (h.clusLookup env cfg.name) fun m hm domain _ => ?_
  exact hm.kept ⟨hm.ok.state, hm.ok.idle, hm.ok.timers, hm.ok.nids⟩ (.of_tree rfl rfl rfl)

theorem lnetReadLine (env : Env R) (h : Starting m) (l line : CString) :
    Starting (Daemon.lnetReadLine l m line) := by
  have hok := (h.ok.lnetReadLine env l line).ok
  revert hok
  rw [Daemon.lnetReadLine]
  split
  · next nid name hwords =>
      have hkept := JobsKept.xHostLookup h.ok name
      rcases hx : m.xHostLookup name with ⟨_ | x, m'⟩
      · rw [hx] at hkept
        exact fun hok => h.kept hok hkept
      · rw [hx] at hkept
        exact fun hok => h.kept hok (hkept.trans (.of_tree rfl rfl rfl))
  · exact fun _ => h

theorem lnetCfg (env : Env R) (h : Starting m) {hint : UInt64} {cfg : LnetCfg}
    (hm : Daemon.lnetCfg hint m cfg = some m') : Starting m' := by
  refine lnetCfg_keeps (fun _ => ?_) (fun _ _ hm₁ => hm₁.lnetReadLine env cfg.name _) h hm
  have hset := h.ok.setLnet cfg.name (some (hashTableInit hint))
    fun heq => Option.some.inj heq ▸ StrTable.Forall.init hint
  exact h.kept hset (.of_tree rfl rfl rfl)

theorem servCreate (env : Env R) (h : Starting m) {p : XNode} (hp : m.Live p) (hfs : p.xType = .fs)
    (l name : CString) : Starting (Daemon.servCreate p l m name) := by
  have hok := (h.ok.servCreate env hp hfs l name).ok
  revert hok
  rw [Daemon.servCreate]
  cases hname : m.xLookup .serv name with
  | some s => exact fun _ => h
  | none =>
      have hkept : JobsKept m
          { m with toXTree := (m.xInit .serv (some p) (strHash name) name).2 } :=
        JobsKept.xInit h.ok hp fun heq => by cases heq
      exact fun hok => h.kept hok (hkept.trans (.of_tree rfl rfl rfl))

theorem fsCfg (env : Env R) (h : Starting m) {cfg : FsCfg R} (hm : Daemon.fsCfg m cfg = some m') :
    Starting m' := by
  have hroot : XType.fs.up = some (m.xAll 1).xType := by
    rw [h.ok.state.tree.all_type]
    rfl
  have hfound := h.ok.xLookupCreate env cfg.name (h.ok.state.tree.all_live 1) hroot
  have hstart : Starting { m with toXTree :=
      (m.xLookupCreate .fs cfg.name (some (m.xAll 1))).2 } := by
    apply h.kept hfound.1.ok
    rw [XTree.xLookupCreate]
    cases hname : m.xLookup .fs cfg.name with
    | some x => exact .refl m
    | none =>
        exact .xInit h.ok (h.ok.state.tree.all_live 1) fun heq : XType.fs = .job => by
          cases heq
  have hcfg := fsCfg_keeps (P := fun m' => Starting m' ∧
      m'.Live (m.xLookupCreate .fs cfg.name (some (m.xAll 1))).1)
    ⟨hstart, hfound.2.1⟩ (fun l name hm₁ =>
      have hserv := hm₁.1.ok.servCreate env hm₁.2 hfound.2.2.1 l name
      ⟨hm₁.1.servCreate env hm₁.2 hfound.2.2.1 l name, hserv.live hm₁.2⟩) hm
  exact hcfg.1

end Starting

omit [LinearOrder R] [FloorRing R] in
theorem starting_start (cfg : Config R) : Starting (Daemon.start cfg) where
  ok := .start cfg
  idle j hlive hjob := by
    have hnone : (Daemon.start cfg).nodes .job = [] :=
      HashTable.toList_init (cfg.hint .job)
    rw [XTree.Live, hjob, hnone] at hlive
    cases hlive

theorem starting_boot {env : Env R} {cfg : Config R} {m : Daemon R}
    (hboot : Daemon.boot env cfg = some m) : Starting m := by
  apply boot_keeps hboot
  · intro c m₀ hnone
    have hfirst := (starting_start cfg).clusLookup env (lit "NONE")
    rw [hnone] at hfirst
    exact hfirst.kept ⟨hfirst.ok.state, hfirst.ok.idle, hfirst.ok.timers, hfirst.ok.nids⟩
      (.of_tree rfl rfl rfl)
  · exact fun clus hm => hm.clusCfg env clus
  · exact fun _ hm h => hm.lnetCfg env h
  · exact fun hm h => hm.fsCfg env h

/-! ## Runs -/

section Runs

variable {env : Env R} {cfg : Config R} {m m₀ : Daemon R}

theorem scheduled_step (h : DaemonOk m) (hs : Scheduled m) {event : Event R}
    (hfresh : m.FreshZero env event) : Scheduled (m.step env event) := by
  rcases step_cases env h event with ⟨clus, msg, now, rfl⟩ | ⟨job, now, rfl⟩ | hkept
  · cases told_step env h clus msg now with
    | ignored hsame _ =>
        rw [hsame]
        exact hs
    | line hc hwords hline =>
        apply hline.scheduled hs
        intro hnew
        rw [hline.fresh hnew]
        exact hfresh hc hwords ((hline.xLookup_eq_none_iff h hline.job).2 hnew)
  · exact (fired_step env h job now).scheduled h hs
  · exact hkept.scheduled hs

/-- A line that creates a job where `j_fake` is not zero leaves a fake job that
is no idle job. -/
theorem freshZero_of_scheduled (h : DaemonOk m) {event : Event R}
    (hs : Scheduled (m.step env event)) : m.FreshZero env event := by
  cases event with
  | clusMsg clus msg now =>
      cases told_step env h clus msg now with
      | ignored _ hnone => exact fun c hostName jobName rest hc hwords => (hnone hc hwords).elim
      | @line c x j hostName jobName rest hc hwords hline =>
          intro c' hostName' jobName' rest' _ hwords' hnone
          rw [hwords] at hwords'
          obtain ⟨rfl, htail⟩ := List.cons_eq_cons.1 hwords'
          obtain ⟨rfl, -⟩ := List.cons_eq_cons.1 htail
          have hnew := (hline.xLookup_eq_none_iff h hline.job).1 hnone
          rw [← hline.fresh hnew]
          apply Bool.eq_false_iff.2
          intro hfresh
          obtain ⟨i, -, -, hidle⟩ := hs.fake j ((hline.live j).2 (.inl (.inr rfl)))
            hline.types.2 (by rw [hline.jobs, if_pos rfl, if_neg hnew]; exact hfresh)
          rw [hline.idle] at hidle
          exact hnew (h.idle hidle).1
  | zombie job now => trivial
  | servMsg serv msg now => trivial
  | top q now => trivial
  | servGet serv now => trivial

/-- All states of a run are in order about its jobs exactly when every job of
the run is created with a zero in `j_fake`. -/
theorem empty_jobs_scheduled_iff (hboot : Daemon.boot env cfg = some m₀)
    (events : List (Event R)) :
    (∀ reached, reached <+: events → Scheduled (m₀.run env reached)) ↔
      m₀.Throughout env (fun m event => m.FreshZero env event) events := by
  induction events using List.reverseRecOn with
  | nil =>
      refine iff_of_true (fun reached hreached => ?_) trivial
      rw [List.prefix_nil.1 hreached]
      exact (starting_boot hboot).scheduled
  | append_singleton events event ih =>
      have hok := reached_ok hboot events
      rw [Daemon.throughout_concat, ← ih]
      constructor
      · intro hs
        refine ⟨fun reached hreached => hs reached (hreached.trans (List.prefix_append ..)), ?_⟩
        apply freshZero_of_scheduled hok
        rw [← Daemon.run_concat]
        exact hs _ List.prefix_rfl
      · rintro ⟨hs, hfresh⟩ reached hreached
        rcases List.prefix_concat_iff.1 hreached with rfl | hreached
        · rw [Daemon.run_concat]
          exact scheduled_step hok (hs events List.prefix_rfl) hfresh
        · exact hs reached hreached

theorem empty_jobs_scheduled_sample :
    (∀ reached, reached <+: sampleEnding →
        Scheduled (sampleDaemon.run sampleEnv reached)) ↔
      sampleDaemon.Throughout sampleEnv (fun m event => m.FreshZero sampleEnv event)
        sampleEnding :=
  empty_jobs_scheduled_iff boot_sample sampleEnding

/-- The sample on a heap of ones. -/
def dirtyEnv : Env ℚ := { sampleEnv with freshBit := fun _ => true }

def dirtyDaemon : Daemon ℚ :=
  (Daemon.boot dirtyEnv sampleConfig).get (by decide +kernel)

/-- The new job is fake: its timer will never be started. -/
theorem dirty_job_not_scheduled :
    Daemon.boot dirtyEnv sampleConfig = some dirtyDaemon ∧
      ¬ Scheduled (dirtyDaemon.run dirtyEnv
        [.clusMsg (lit "NONE") (lit "10.0.0.1@tcp j1") 1]) := by
  have hboot : Daemon.boot dirtyEnv sampleConfig = some dirtyDaemon :=
    (Option.some_get _).symm
  refine ⟨hboot, fun hs => ?_⟩
  have hok := (boot_grown hboot).ok
  have hstep : Scheduled (dirtyDaemon.step dirtyEnv
      (.clusMsg (lit "NONE") (lit "10.0.0.1@tcp j1") 1)) := hs
  have hzero := freshZero_of_scheduled hok hstep
  have hclus : dirtyDaemon.xLookup .clus (lit "NONE") =
      some ⟨2, .clus, strHash (lit "NONE"), lit "NONE"⟩ := by decide +kernel
  have hwords : (split 5 (some (lit "10.0.0.1@tcp j1"))).1 =
      [lit "10.0.0.1@tcp", lit "j1"] := by decide +kernel
  have hnone : dirtyDaemon.xLookup .job (lit "j1") = none := by decide +kernel
  exact Bool.noConfusion (hzero hclus hwords hnone)

end Runs

end Xltop.Master
