import Xltop.Master.Reclaim
import Mathlib.Algebra.Order.Field.Basic

/-!
# The grace period of a job

A job is destroyed when its zombie timer goes off and it has no hosts.  The
timer runs from the first time the job was left, and nothing stops or restarts
it when hosts come back.  So the job has been empty for the whole timeout only
if no last host leaves while the timer is active.
-/

namespace Xltop.Master

open Xltop.Text
open Xltop.Hash
open Xltop.Rate

variable {R : Type*} [Field R] [LinearOrder R] [FloorRing R]

/-- `job_zombie_timeout`. -/
def jobZombieTimeout : R := 300

omit [Field R] [LinearOrder R] [FloorRing R] in
def Event.time : Event R → R
  | .servMsg _ _ now | .clusMsg _ _ now | .zombie _ now | .top _ now | .servGet _ now => now

namespace Daemon

/-- libev runs a one-shot timer no earlier than its timeout after its start. -/
def Due (m : Daemon R) : Event R → Prop
  | .zombie job now => ∀ start ∈ (m.jobs job).jZombieW, start + jobZombieTimeout ≤ now
  | _ => True

instance (m : Daemon R) (event : Event R) : Decidable (m.Due event) :=
  match event with
  | .zombie job now => inferInstanceAs
      (Decidable (∀ start ∈ (m.jobs job).jZombieW, start + jobZombieTimeout ≤ now))
  | .servMsg .. | .clusMsg .. | .top .. | .servGet .. => isTrue trivial

omit [Field R] [LinearOrder R] [FloorRing R] in
/-- If the event is a line that takes the last host from a job, the zombie timer
of that job is not active. -/
def LeavesFresh (m : Daemon R) : Event R → Prop
  | .clusMsg clus msg _ => ∀ ⦃c hostName jobName rest x p⦄,
      m.xLookup .clus clus = some c →
      (split 5 (some msg)).1 = hostName :: jobName :: rest →
      m.xLookup .host hostName = some x → m.parent x = some p →
      (m.links p).xNrChild = 1 → m.xLookup .job jobName ≠ some p →
      (m.jobs p).jZombieW = none
  | _ => True

/-- The job `j` has no host in any state that an event later than `since`
finds. -/
abbrev EmptySince (env : Env R) (m : Daemon R) (events : List (Event R)) (since : R)
    (j : XNode) : Prop :=
  m.Throughout env (fun m event => since < event.time → m.children j = []) events

end Daemon

/-! ## One event -/

section Step

variable {env : Env R} {m m' : Daemon R} {j : XNode}

omit [Field R] [LinearOrder R] [FloorRing R] in
/-- A timer that fires starts no timer of a job without hosts. -/
theorem Fired.timer_eq {i : XNode} {now start : R} (h : Fired m i now m')
    (hnil : m.children j = []) (hstart : (m'.jobs j).jZombieW = some start) :
    (m.jobs j).jZombieW = some start := by
  by_cases hij : j = i
  · subst hij
    cases h with
    | inactive _ hsame => rwa [hsame] at hstart
    | fake _ hm =>
        rw [hm, setJob_jobs, if_pos rfl] at hstart
        cases hstart
    | rearmed hchildren _ => exact absurd hnil hchildren
    | destroyed _ _ _ _ _ hjobs _ =>
        rw [hjobs, setJob_jobs, if_pos rfl] at hstart
        cases hstart
  · rwa [h.jobs_of_ne hij] at hstart

omit [Field R] [LinearOrder R] [FloorRing R] in
/-- A line starts the timer of the job that loses its last host, and of no other
job. -/
theorem Line.timer_eq {c x i : XNode} {clus msg hostName jobName : CString}
    {rest : List CString} {now start : R}
    (hline : Line env m c hostName jobName rest now x i m') (h : DaemonOk m)
    (hc : m.xLookup .clus clus = some c)
    (hwords : (split 5 (some msg)).1 = hostName :: jobName :: rest)
    (hfresh : m.LeavesFresh (.clusMsg clus msg now)) (hjob : j.xType = .job)
    (hstart : (m'.jobs j).jZombieW = some start) (hnil : m'.children j = []) :
    start = now ∨ (m.jobs j).jZombieW = some start ∧ m.children j = [] := by
  have hij : j ≠ i := by
    rintro rfl
    have hmem := hline.mem_children
    rw [hnil] at hmem
    cases hmem
  rw [hline.children j hjob, if_neg hij] at hnil
  rw [hline.jobs, if_neg hij] at hstart
  by_cases hx : x ∈ m.children j
  · have honly := (erase_eq_nil_iff hx).1 hnil
    have hparent := (h.state.tree.linked.mem_children j x).1 hx
    have hhost := hline.xLookup_of_live h hline.host (h.state.tree.live_of_parent hparent)
    have hnew : m.xLookup .job jobName ≠ some j := fun hfound =>
      hij (Option.some.inj ((hline.xLookup_mono h hfound).symm.trans hline.job))
    have hone : (m.links j).xNrChild = 1 := by
      rw [h.state.tree.linked.nr_child, honly, List.length_singleton]
    have hoff := hfresh hc hwords hhost hparent hone hnew
    rw [if_pos honly, ended] at hstart
    split at hstart
    · rw [hoff] at hstart
      cases hstart
    · rw [Daemon.timerStart, hoff] at hstart
      exact .inl (Option.some.inj hstart).symm
  · rw [List.erase_of_not_mem hx] at hnil
    rw [hnil, if_neg (List.cons_ne_nil x []).symm] at hstart
    exact .inr ⟨hstart, hnil⟩

/-- What an event does to the timer of a job without hosts after the event: the
timer was not active before and is started now, or it runs on, and then the job
was empty before as well. -/
theorem timer_step (h : DaemonOk m) {event : Event R} (hfresh : m.LeavesFresh event)
    (hjob : j.xType = .job) {start : R}
    (hstart : ((m.step env event).jobs j).jZombieW = some start)
    (hnil : (m.step env event).children j = []) :
    start = event.time ∨ (m.jobs j).jZombieW = some start ∧ m.children j = [] := by
  rcases step_cases env h event with ⟨clus, msg, now, rfl⟩ | ⟨i, now, rfl⟩ | hkept
  · cases told_step env h clus msg now with
    | ignored hsame _ =>
        rw [hsame] at hstart hnil
        exact .inr ⟨hstart, hnil⟩
    | line hc hwords hline => exact hline.timer_eq h hc hwords hfresh hjob hstart hnil
  · have hfired := fired_step env h i now
    rw [hfired.children h hjob] at hnil
    exact .inr ⟨hfired.timer_eq hnil hstart, hnil⟩
  · rw [hkept.jobs] at hstart
    exact .inr ⟨hstart, List.prefix_nil.1 (hnil ▸ hkept.children hjob)⟩

end Step

/-! ## Runs -/

section Runs

variable {env : Env R} {cfg : Config R} {m₀ : Daemon R}

/-- A job without hosts whose timer is active has been empty since the timer was
started. -/
theorem emptySince_start (hboot : Daemon.boot env cfg = some m₀) {events : List (Event R)}
    (hmono : (events.map Event.time).Pairwise (· ≤ ·))
    (hfresh : m₀.Throughout env Daemon.LeavesFresh events) {j : XNode}
    (hjob : j.xType = .job) {start : R}
    (hstart : ((m₀.run env events).jobs j).jZombieW = some start)
    (hnil : (m₀.run env events).children j = []) :
    m₀.EmptySince env events start j := by
  induction events using List.reverseRecOn with
  | nil => trivial
  | append_singleton events event ih =>
      rw [List.map_append, List.pairwise_append] at hmono
      rw [Daemon.throughout_concat] at hfresh
      rw [Daemon.run_concat] at hstart hnil
      have hlast : ∀ earlier ∈ events, earlier.time ≤ event.time := fun earlier hmem =>
        hmono.2.2 _ (List.mem_map_of_mem hmem) _ List.mem_cons_self
      have hstep := timer_step (reached_ok hboot events) hfresh.2 hjob hstart hnil
      rcases hstep with hnow | ⟨hstart', hnil'⟩
      · rw [Daemon.EmptySince, Daemon.throughout_concat]
        refine ⟨hfresh.1.mono fun m earlier hmem _ hlt => ?_, fun hlt => ?_⟩
        · exact absurd (hlast earlier hmem) (hnow ▸ hlt).not_ge
        · exact absurd hnow hlt.ne
      · rw [Daemon.EmptySince, Daemon.throughout_concat]
        exact ⟨ih hmono.1 hfresh.1 hstart' hnil', fun _ => hnil'⟩

/-- In a run in which the last host of a job never leaves while the timer of the
job is active, a job is destroyed only if it has had no host for the timeout. -/
theorem grace_period [IsStrictOrderedRing R] (hboot : Daemon.boot env cfg = some m₀)
    {events : List (Event R)}
    (hmono : (events.map Event.time).Pairwise (· ≤ ·))
    (hdue : m₀.Throughout env Daemon.Due events)
    (hfresh : m₀.Throughout env Daemon.LeavesFresh events)
    {reached : List (Event R)} {job : XNode} {now : R}
    (hreached : reached ++ [.zombie job now] <+: events) {x : XNode}
    (hx : (m₀.run env reached).Live x)
    (hgone : ¬ (m₀.run env (reached ++ [.zombie job now])).Live x) :
    m₀.EmptySince env (reached ++ [.zombie job now]) (now - jobZombieTimeout) x := by
  obtain ⟨later, rfl⟩ := hreached
  have hok := reached_ok hboot reached
  rw [Daemon.throughout_append, Daemon.throughout_concat] at hdue hfresh
  rw [Daemon.run_concat] at hgone
  rw [List.map_append, List.map_append, List.pairwise_append, List.pairwise_append] at hmono
  obtain ⟨rfl, hjob, ⟨start, hstart⟩, hnil, -⟩ :=
    (fired_step env hok job now).of_gone hok hx hgone
  have hempty := emptySince_start hboot hmono.1.1 hfresh.1.1 hjob hstart hnil
  have hlong : start ≤ now - jobZombieTimeout := le_sub_iff_add_le.2 (hdue.1.2 start hstart)
  rw [Daemon.EmptySince, Daemon.throughout_concat]
  exact ⟨hempty.mono fun m event _ hm hlt => hm (hlong.trans_lt hlt), fun _ => hnil⟩

/-- The job of the sample is left at 2, by its first and only host. -/
theorem sampleEnding_leavesFresh : sampleDaemon.Throughout sampleEnv Daemon.LeavesFresh
    (sampleEnding ++ [.zombie sampleJob 302]) := by
  have hfirst : (split 5 (some (lit "10.0.0.1@tcp j1"))).1 =
      [lit "10.0.0.1@tcp", lit "j1"] := by decide +kernel
  have hlast : (split 5 (some (lit "10.0.0.1@tcp j2"))).1 =
      [lit "10.0.0.1@tcp", lit "j2"] := by decide +kernel
  refine ⟨fun c hostName jobName rest x p _ hwords hhost => ?_, trivial,
    fun c hostName jobName rest x p _ hwords hhost hparent _ _ => ?_, trivial, trivial⟩
  · obtain ⟨rfl, -⟩ := List.cons_eq_cons.1 (hfirst.symm.trans hwords)
    have hnone : sampleDaemon.xLookup .host (lit "10.0.0.1@tcp") = none := by
      decide +kernel
    rw [hnone] at hhost
    cases hhost
  · obtain ⟨rfl, -⟩ := List.cons_eq_cons.1 (hlast.symm.trans hwords)
    have hjob : ((sampleDaemon.run sampleEnv (sampleEnding.take 2)).xLookup .host
        (lit "10.0.0.1@tcp")).bind
          (sampleDaemon.run sampleEnv (sampleEnding.take 2)).parent = some sampleJob := by
      decide +kernel
    have hp : some sampleJob = some p :=
      hjob.symm.trans (Option.bind_eq_some_iff.2 ⟨x, hhost, hparent⟩)
    rw [← Option.some.inj hp]
    have hoff : ((sampleDaemon.run sampleEnv (sampleEnding.take 2)).jobs
        sampleJob).jZombieW = none := by decide +kernel
    exact hoff

theorem grace_period_sample :
    sampleDaemon.EmptySince sampleEnv (sampleEnding ++ [.zombie sampleJob 302])
      (302 - jobZombieTimeout) sampleJob :=
  grace_period boot_sample (by decide +kernel) (by decide +kernel) sampleEnding_leavesFresh
    List.prefix_rfl (by decide +kernel) (by decide +kernel)

/-- The host is with `j1`, leaves it at 10, is back from 110 to 309, and leaves
again. -/
def sampleReturn : List (Event ℚ) :=
  [.clusMsg (lit "NONE") (lit "10.0.0.1@tcp j1") 0,
    .clusMsg (lit "NONE") (lit "10.0.0.1@tcp j2") 10,
    .clusMsg (lit "NONE") (lit "10.0.0.1@tcp j1") 110,
    .clusMsg (lit "NONE") (lit "10.0.0.1@tcp j2") 309]

/-- The timer of `j1` runs since 10, so `j1` goes one second after its host. -/
theorem early_destruction :
    Daemon.boot sampleEnv sampleConfig = some sampleDaemon ∧
      ((sampleReturn ++ [Event.zombie sampleJob 310]).map Event.time).Pairwise (· ≤ ·) ∧
      sampleDaemon.Throughout sampleEnv Daemon.Due
        (sampleReturn ++ [.zombie sampleJob 310]) ∧
      (sampleDaemon.run sampleEnv sampleReturn).Live sampleJob ∧
      ¬ (sampleDaemon.run sampleEnv (sampleReturn ++ [.zombie sampleJob 310])).Live
        sampleJob ∧
      ¬ sampleDaemon.EmptySince sampleEnv (sampleReturn ++ [.zombie sampleJob 310])
        (310 - jobZombieTimeout) sampleJob :=
  ⟨boot_sample, by decide +kernel⟩

end Runs

end Xltop.Master
