import Xltop.Master.Shape

/-!
# What a line and a timer do to the jobs

A line of a PUT to a cluster may create its job and its host, moves the host,
and ends the job that it left empty.  A zombie timer goes off for one job.
Everything else leaves the jobs alone.  Each is said once, and what follows
about jobs and their timers uses nothing else of the callbacks.
-/

namespace Xltop.Master

open Function
open Xltop.Text
open Xltop.Hash
open Xltop.Heap
open Xltop.Rate

namespace XTree.TreeOk

variable {t : XTree} (h : t.TreeOk) {x p : XNode}

include h

theorem not_mem_children (hx : ¬ t.Live x) (p : XNode) : x ∉ t.children p := by
  intro hmem
  have hp := (h.linked.mem_children p x).1 hmem
  exact hx (h.live_of_parent hp)

theorem children_xSetParent (hx : t.parent x ≠ none) (y : XNode) :
    (t.xSetParent x (some p)).children y =
      if y = p then
        if x ∈ t.children p then t.children p else t.children p ++ [x]
      else (t.children y).erase x := by
  obtain ⟨q, hq⟩ := Option.ne_none_iff_exists'.1 hx
  have hmem : ∀ r, x ∈ t.children r ↔ q = r := fun r => by
    rw [h.linked.mem_children, hq, Option.some.injEq]
  rcases eq_or_ne q p with rfl | hne
  · rw [XTree.xSetParent, if_pos hq]
    split
    · next heq => rw [heq, if_pos ((hmem q).2 rfl)]
    · next hy => exact (List.erase_of_not_mem fun hx => hy ((hmem y).1 hx).symm).symm
  · rw [xSetParent_of_ne hq hne, setParentLink_children, appendChild_children,
      removeChild_children, if_neg hne.symm, if_neg fun hx => hne ((hmem p).1 hx)]
    split
    · rfl
    · rw [removeChild_children]
      split
      · next heq => rw [heq]
      · next hy =>
          exact (List.erase_of_not_mem fun hx => hy ((hmem y).1 hx).symm).symm

/-- The count that `clus_msg_cb` looks at, after the host has left. -/
theorem nrChild_eq_zero {y : XNode} : (t.links y).xNrChild = 0 ↔ t.children y = [] := by
  rw [h.linked.nr_child, List.length_eq_zero_iff]

end XTree.TreeOk

theorem erase_eq_nil_iff {x : XNode} {l : List XNode} (hx : x ∈ l) :
    l.erase x = [] ↔ l = [x] := by
  constructor
  · intro hnil
    have hlength := List.length_erase_of_mem hx
    rw [hnil, List.length_nil] at hlength
    have hone : l.length = 1 := by
      have hpos := List.length_pos_of_mem hx
      omega
    obtain ⟨y, rfl⟩ := List.length_eq_one_iff.1 hone
    rw [List.mem_singleton.1 hx]
  · rintro rfl
    exact List.erase_cons_head ..

variable {R : Type*} [Field R] [LinearOrder R] [FloorRing R]

/-! ## A line -/

omit [Field R] [LinearOrder R] [FloorRing R] in
/-- `job_end` of a job whose record is `job`. -/
def ended (now : R) (job : JobNode R) : JobNode R :=
  if job.jFake then job else Daemon.timerStart now job

omit [Field R] [LinearOrder R] [FloorRing R] in
/-- The record of a job that the line creates. -/
def newJob (env : Env R) (rest : List CString) (j : XNode) : JobNode R where
  jOwner := rest[0]?.getD (lit "NONE")
  jTitle := rest[1]?.getD (lit "NONE")
  jStartTime := env.strtod (rest[2]?.getD (lit "0"))
  jZombieW := none
  jFake := env.freshBit j

omit [Field R] [LinearOrder R] [FloorRing R] in
/-- What `job_lookup` of a line to the cluster `c` leaves. -/
structure JobFound (env : Env R) (m : Daemon R) (c : XNode) (name : CString)
    (rest : List CString) (j : XNode) (m' : Daemon R) : Prop where
  ok : DaemonOk m'
  found : m'.xLookup .job name = some j
  live : ∀ y, m'.Live y ↔ m.Live y ∨ y = j
  fresh : ¬ m.Live j → j = m.next .job (strHash name) name
  parent : ∀ y, m'.parent y = if y = j ∧ ¬ m.Live j then some c else m.parent y
  children : ∀ i, i.xType = .job → m'.children i = m.children i
  jobs : ∀ i, m'.jobs i = if i = j ∧ ¬ m.Live j then newJob env rest j else m.jobs i
  idle : m'.cIdleJob = m.cIdleJob

omit [Field R] [LinearOrder R] [FloorRing R] in
theorem jobEnd_jobs (m : Daemon R) (p : XNode) (now : R) (i : XNode) :
    (m.jobEnd p now).jobs i = if i = p then ended now (m.jobs p) else m.jobs i := by
  rw [Daemon.jobEnd, ended]
  split
  · split
    · next heq => rw [heq]
    · rfl
  · exact update_apply ..

omit [Field R] [LinearOrder R] [FloorRing R] in
theorem jobEnd_same (m : Daemon R) (p : XNode) (now : R) :
    (m.jobEnd p now).toXState = m.toXState ∧ (m.jobEnd p now).cIdleJob = m.cIdleJob := by
  rw [Daemon.jobEnd]
  split <;> exact ⟨rfl, rfl⟩

omit [Field R] [LinearOrder R] [FloorRing R] in
/-- The state of a line between its look-ups of the job and the host and the
move of the host. -/
structure LookedUp (env : Env R) (m : Daemon R) (c : XNode)
    (hostName jobName : CString) (rest : List CString) (x j : XNode) (m' : Daemon R) :
    Prop where
  ok : DaemonOk m'
  host : m'.xLookup .host hostName = some x
  job : m'.xLookup .job jobName = some j
  live : ∀ y, m'.Live y ↔ (m.Live y ∨ y = j) ∨ y = x
  fresh : ¬ m.Live j → j = m.next .job (strHash jobName) jobName
  known : m.Live x → m'.parent x = m.parent x
  new : ¬ m.Live x → m'.parent x = some j
  parent : ∀ y, y ≠ x → m'.parent y = if y = j ∧ ¬ m.Live j then some c else m.parent y
  children : ∀ i, i.xType = .job → m'.children i =
    if m.Live x then m.children i else if i = j then m.children j ++ [x] else m.children i
  jobs : ∀ i, m'.jobs i =
    if i = j then if m.Live j then m.jobs j else newJob env rest j else m.jobs i
  idle : m'.cIdleJob = m.cIdleJob

omit [Field R] [LinearOrder R] [FloorRing R] in
/-- What a line does to the trees and the jobs. -/
structure Line (env : Env R) (m : Daemon R) (c : XNode) (hostName jobName : CString)
    (rest : List CString) (now : R) (x j : XNode) (m' : Daemon R) : Prop where
  ok : DaemonOk m'
  host : m'.xLookup .host hostName = some x
  job : m'.xLookup .job jobName = some j
  live : ∀ y, m'.Live y ↔ (m.Live y ∨ y = j) ∨ y = x
  fresh : ¬ m.Live j → j = m.next .job (strHash jobName) jobName
  parent : ∀ y, m'.parent y = if y = x then some j
    else if y = j ∧ ¬ m.Live j then some c else m.parent y
  /-- The host goes to the end of the list of its new job. -/
  children : ∀ i, i.xType = .job → m'.children i =
    if i = j then if x ∈ m.children j then m.children j else m.children j ++ [x]
    else (m.children i).erase x
  /-- A new job gets its record, and a job whose only host leaves is ended. -/
  jobs : ∀ i, m'.jobs i =
    if i = j then if m.Live j then m.jobs j else newJob env rest j
    else if m.children i = [x] then ended now (m.jobs i) else m.jobs i
  idle : m'.cIdleJob = m.cIdleJob

namespace DaemonOk

variable {m : Daemon R}

theorem jobFound (env : Env R) (h : DaemonOk m) {c : XNode} (hc : m.Live c)
    (hclus : c.xType = .clus) (name : CString) (rest : List CString) :
    JobFound env m c name rest
      (Daemon.jobLookup env m name c (rest[0]?.getD (lit "NONE"))
        (rest[1]?.getD (lit "NONE")) (rest[2]?.getD (lit "0"))).1
      (Daemon.jobLookup env m name c (rest[0]?.getD (lit "NONE"))
        (rest[1]?.getD (lit "NONE")) (rest[2]?.getD (lit "0"))).2 := by
  have hlook := h.jobLookup env hc hclus name (rest[0]?.getD (lit "NONE"))
    (rest[1]?.getD (lit "NONE")) (rest[2]?.getD (lit "0"))
  have hok := hlook.1.ok
  have hfound := hok.state.tree.xLookup_eq_some.2 hlook.2
  revert hok hfound
  rw [Daemon.jobLookup]
  cases hname : m.xLookup .job name with
  | some j =>
      intro hok hfound
      have hlive := (h.state.tree.xLookup_eq_some.1 hname).1
      have hold : ∀ y, ¬ (y = j ∧ ¬ m.Live j) := fun y hy => hy.2 hlive
      exact
        { ok := hok
          found := hname
          live := fun y => ⟨.inl, fun hy => hy.elim id fun heq => heq ▸ hlive⟩
          fresh := fun hnew => absurd hlive hnew
          parent := fun y => (if_neg (hold y)).symm
          children := fun _ _ => rfl
          jobs := fun i => (if_neg (hold i)).symm
          idle := rfl }
  | none =>
      intro hok hfound
      have hfresh : ¬ m.Live (m.next .job (strHash name) name) :=
        h.state.tree.not_live_next _ _ _
      refine
        { ok := hok
          found := hfound
          live := fun y => (m.live_xInit .job (strHash name) name (some c)).trans or_comm
          fresh := fun _ => rfl
          parent := fun y => ?_
          children := fun i hi => ?_
          jobs := fun i => ?_
          idle := rfl }
      · simp only [XTree.xInit_fst, hfresh, not_false_eq_true, and_true]
        exact m.parent_xInit .job c (strHash name) name y
      · have hne : i ≠ c := XNode.ne_of_types hi hclus (by decide)
        exact (h.state.tree.children_xInit hc i).trans (if_neg hne)
      · simp only [XTree.xInit_fst, hfresh, not_false_eq_true, and_true]
        exact update_apply ..

/-- `x_lookup` of the host of a line, whose job is `j`. -/
theorem lookedUp {env : Env R} {c j : XNode}
    {hostName jobName : CString} {rest : List CString} {m₁ : Daemon R}
    (hjob : JobFound env m c jobName rest j m₁) {x : XNode} {t : XTree}
    (hx : m₁.xLookupCreate .host hostName (some j) = (x, t)) :
    LookedUp env m c hostName jobName rest x j { m₁ with toXTree := t } := by
  obtain ⟨hjlive, hjtype, -⟩ := hjob.ok.state.tree.xLookup_eq_some.1 hjob.found
  have hlook := hjob.ok.xLookupCreate env hostName hjlive
    (by rw [hjtype]; rfl : XType.host.up = _)
  rw [hx] at hlook
  have hok := hlook.1.ok
  have hhost := hok.state.tree.xLookup_eq_some.2 hlook.2
  have hjfound := hjob.ok.state.tree.xLookup_of_live hok.state.tree hjob.found
    (hlook.1.live hjlive)
  have hjobs : ∀ i, m₁.jobs i =
      if i = j then if m.Live j then m.jobs j else newJob env rest j else m.jobs i := by
    intro i
    rw [hjob.jobs]
    by_cases hi : i = j
    · subst hi
      by_cases hl : m.Live i <;> simp [hl]
    · simp [hi]
  have hxj : x ≠ j := XNode.ne_of_types hlook.2.2.1 hjtype (by decide)
  have hxold : m₁.Live x ↔ m.Live x := by rw [hjob.live, or_iff_left hxj]
  have hxparent : m₁.parent x = m.parent x := by
    rw [hjob.parent, if_neg fun heq => hxj heq.1]
  rw [XTree.xLookupCreate] at hx
  cases hname : m₁.xLookup .host hostName with
  | some y =>
      rw [hname] at hx
      obtain ⟨rfl, rfl⟩ := Prod.ext_iff.1 hx
      have hlive := (hjob.ok.state.tree.xLookup_eq_some.1 hname).1
      exact
        { ok := hok
          host := hhost
          job := hjfound
          live := fun z => by
            rw [← hjob.live]
            exact ⟨.inl, fun hz => hz.elim id fun heq => heq ▸ hlive⟩
          fresh := hjob.fresh
          known := fun _ => hxparent
          new := fun hnew => absurd (hxold.1 hlive) hnew
          parent := fun z _ => hjob.parent z
          children := fun i hi => by
            rw [if_pos (hxold.1 hlive)]
            exact hjob.children i hi
          jobs := hjobs
          idle := hjob.idle }
  | none =>
      rw [hname] at hx
      obtain ⟨rfl, rfl⟩ := Prod.ext_iff.1 hx
      have hfresh : ¬ m₁.Live (m₁.next .host (strHash hostName) hostName) :=
        hjob.ok.state.tree.not_live_next _ _ _
      have hparent := m₁.parent_xInit .host j (strHash hostName) hostName
      exact
        { ok := hok
          host := hhost
          job := hjfound
          live := fun z => by
            rw [← hjob.live]
            exact (m₁.live_xInit .host (strHash hostName) hostName (some j)).trans or_comm
          fresh := hjob.fresh
          known := fun hl => absurd (hxold.2 hl) hfresh
          new := fun _ => (hparent _).trans (if_pos rfl)
          parent := fun z hz => ((hparent z).trans (if_neg hz)).trans (hjob.parent z)
          children := fun i hi => by
            rw [if_neg (mt hxold.2 hfresh), ← hjob.children i hi, ← hjob.children j hjtype]
            exact hjob.ok.state.tree.children_xInit hjlive i
          jobs := hjobs
          idle := hjob.idle }

end DaemonOk

namespace LookedUp

variable {env : Env R} {m m' : Daemon R} {c x j : XNode} {hostName jobName : CString}
  {rest : List CString}

omit [Field R] [LinearOrder R] [FloorRing R] in
/-- A host that is listed with a job has that job as its parent. -/
theorem parent_of_mem (h : LookedUp env m c hostName jobName rest x j m')
    (hok : DaemonOk m) {i : XNode} (hi : x ∈ m.children i) : m'.parent x = some i := by
  have hp := (hok.state.tree.linked.mem_children i x).1 hi
  rw [h.known (hok.state.tree.live_of_parent hp), hp]

omit [Field R] [LinearOrder R] [FloorRing R] in
/-- The host is with its job already. -/
theorem line_of_same (h : LookedUp env m c hostName jobName rest x j m')
    (hok : DaemonOk m) (now : R) (hsame : m'.parent x = some j) :
    Line env m c hostName jobName rest now x j m' := by
  have hother : ∀ i, i ≠ j → x ∉ m.children i := fun i hi hx =>
    hi (Option.some.inj ((h.parent_of_mem hok hx).symm.trans hsame))
  have hmem : m.Live x → x ∈ m.children j := fun hl => by
    rw [hok.state.tree.linked.mem_children, ← h.known hl, hsame]
  refine
    { ok := h.ok
      host := h.host
      job := h.job
      live := h.live
      fresh := h.fresh
      parent := fun y => ?_
      children := fun i hi => ?_
      jobs := fun i => ?_
      idle := h.idle }
  · split
    · next heq => rw [heq, hsame]
    · next hne => exact h.parent y hne
  · rw [h.children i hi]
    by_cases hl : m.Live x
    · rw [if_pos hl, if_pos (hmem hl)]
      split
      · next heq => rw [heq]
      · next hij => exact (List.erase_of_not_mem (hother i hij)).symm
    · rw [if_neg hl, if_neg (hok.state.tree.not_mem_children hl j),
        List.erase_of_not_mem (hok.state.tree.not_mem_children hl i)]
  · rw [h.jobs]
    split
    · rfl
    · next hij =>
        have hne : m.children i ≠ [x] := fun heq =>
          hother i hij (heq ▸ List.mem_singleton_self x)
        rw [if_neg hne]

omit [Field R] [LinearOrder R] [FloorRing R] in
/-- The host leaves a job `p`, which ends if it was alone there. -/
theorem line_of_move (h : LookedUp env m c hostName jobName rest x j m')
    (hok : DaemonOk m) (now : R) {p : XNode} (hp : m'.parent x = some p) (hpj : p ≠ j)
    {m₂ : Daemon R} (hm₂ : m₂ = { m' with toXTree := m'.xSetParent x (some j) })
    {m₃ : Daemon R} (hm₃ : m₃ = if p.xType = .job ∧ (m₂.links p).xNrChild = 0 then
      m₂.jobEnd p now else m₂) (hok₃ : DaemonOk m₃) :
    Line env m c hostName jobName rest now x j m₃ := by
  obtain ⟨hxlive, hxtype, -⟩ := h.ok.state.tree.xLookup_eq_some.1 h.host
  obtain ⟨hjlive, hjtype, -⟩ := h.ok.state.tree.xLookup_eq_some.1 h.job
  have hup : x.xType.up = some j.xType := by rw [hxtype, hjtype]; rfl
  have hptype : p.xType = .job := by
    have hpup := h.ok.state.tree.up_of_parent hp
    rw [hup, hjtype] at hpup
    exact (Option.some.inj hpup).symm
  have hxold : m.Live x := by
    by_contra hl
    exact hpj (Option.some.inj (hp.symm.trans (h.new hl)))
  have hchildren : ∀ i, i.xType = .job → m'.children i = m.children i := fun i hi => by
    rw [h.children i hi, if_pos hxold]
  have hmem : ∀ i, x ∈ m.children i ↔ i = p := fun i => by
    rw [hok.state.tree.linked.mem_children, ← h.known hxold, hp, Option.some.injEq, eq_comm]
  have htree : m₂.toXTree.TreeOk := by
    rw [hm₂]
    exact h.ok.state.tree.xSetParent hxlive hjlive hup
  have hset : ∀ i, i.xType = .job → m₂.children i =
      if i = j then if x ∈ m.children j then m.children j else m.children j ++ [x]
      else (m.children i).erase x := fun i hi => by
    rw [← hchildren i hi, ← hchildren j hjtype, hm₂]
    exact h.ok.state.tree.children_xSetParent (hp ▸ Option.some_ne_none p) i
  have hzero : p.xType = .job ∧ (m₂.links p).xNrChild = 0 ↔ m.children p = [x] := by
    rw [htree.nrChild_eq_zero, hset p hptype, if_neg hpj, erase_eq_nil_iff ((hmem p).2 rfl),
      and_iff_right hptype]
  have hsame : m₃.toXState = m₂.toXState ∧ m₃.cIdleJob = m₂.cIdleJob := by
    rw [hm₃]
    split
    · exact jobEnd_same m₂ p now
    · exact ⟨rfl, rfl⟩
  have hlive : ∀ y, m₃.Live y ↔ m'.Live y := fun y => by
    rw [hsame.1, hm₂]
    exact XTree.live_xSetParent y
  refine
    { ok := hok₃
      host := ?_
      job := ?_
      live := fun y => (hlive y).trans (h.live y)
      fresh := h.fresh
      parent := fun y => ?_
      children := fun i hi => ?_
      jobs := fun i => ?_
      idle := ?_ }
  · exact h.ok.state.tree.xLookup_of_live hok₃.state.tree h.host ((hlive x).2 hxlive)
  · exact h.ok.state.tree.xLookup_of_live hok₃.state.tree h.job ((hlive j).2 hjlive)
  · rw [hsame.1, hm₂]
    apply (XTree.parent_xSetParent x (some j) y).trans
    split
    · rfl
    · next hne => exact h.parent y hne
  · rw [hsame.1]
    exact hset i hi
  · have hjobs : m₂.jobs = m'.jobs := by rw [hm₂]
    have hend : m₃.jobs i = if i = p ∧ m.children p = [x] then ended now (m'.jobs p)
        else m'.jobs i := by
      rw [hm₃]
      split
      · next hempty => simp [jobEnd_jobs, hjobs, hzero.1 hempty]
      · next hfull => simp [hjobs, mt hzero.2 hfull]
    rw [hend, h.jobs p, if_neg hpj, h.jobs i]
    by_cases hij : i = j
    · rw [if_neg fun heq => hpj (heq.1.symm.trans hij), if_pos hij, if_pos hij]
    · rw [if_neg hij, if_neg hij]
      by_cases hip : i = p
      · simp [hip]
      · have hne : m.children i ≠ [x] := fun heq =>
          hip ((hmem i).1 (heq ▸ List.mem_singleton_self x))
        rw [if_neg fun heq => hip heq.1, if_neg hne]
  · rw [hsame.2, hm₂]
    exact h.idle

end LookedUp

/-- A line of two words or more, to a cluster that is there. -/
theorem DaemonOk.clusMsgCb_line (env : Env R) {m : Daemon R} (h : DaemonOk m) {c : XNode}
    (hc : m.Live c) (hclus : c.xType = .clus) {msg hostName jobName : CString}
    {rest : List CString}
    (hwords : (split 5 (some msg)).1 = hostName :: jobName :: rest) (now : R) :
    ∃ x j, Line env m c hostName jobName rest now x j
      (Daemon.clusMsgCb env m c msg now) := by
  have hok := (h.clusMsgCb env hc hclus msg now).2.1
  have hjob := h.jobFound env hc hclus jobName rest
  revert hok
  rw [Daemon.clusMsgCb, hwords]
  simp only
  generalize Daemon.jobLookup env m jobName c _ _ _ = looked at hjob ⊢
  obtain ⟨j, m₁⟩ := looked
  rcases hx : m₁.xLookupCreate .host hostName (some j) with ⟨x, t⟩
  have hlooked := lookedUp hjob hx
  intro hok
  refine ⟨x, j, ?_⟩
  by_cases hsame : t.parent x = some j
  · rw [if_pos hsame]
    exact hlooked.line_of_same h now hsame
  · rw [if_neg hsame] at hok ⊢
    obtain ⟨hxlive, hxtype, -⟩ := hlooked.ok.state.tree.xLookup_eq_some.1 hlooked.host
    obtain ⟨p, hp, -⟩ := hlooked.ok.state.tree.exists_parent hxlive
      (by rw [hxtype]; rfl : x.xType.up = some .job)
    have hpj : p ≠ j := fun heq => hsame (heq ▸ hp)
    have hp' : t.parent x = some p := hp
    simp only [hp'] at hok ⊢
    exact hlooked.line_of_move h now hp hpj rfl rfl hok

/-- What the event `clusMsg` does: nothing for an unknown cluster or fewer than
two words, and otherwise a line. -/
inductive Told (env : Env R) (m : Daemon R) (clus msg : CString) (now : R)
    (m' : Daemon R) : Prop where
  | ignored (hsame : m' = m) (hnone : ∀ ⦃c hostName jobName rest⦄,
      m.xLookup .clus clus = some c →
      (split 5 (some msg)).1 = hostName :: jobName :: rest → False)
  | line {c x j : XNode} {hostName jobName : CString} {rest : List CString}
      (hc : m.xLookup .clus clus = some c)
      (hwords : (split 5 (some msg)).1 = hostName :: jobName :: rest)
      (hline : Line env m c hostName jobName rest now x j m')

theorem told_step (env : Env R) {m : Daemon R} (h : DaemonOk m) (clus msg : CString)
    (now : R) : Told env m clus msg now (m.step env (.clusMsg clus msg now)) := by
  rw [Daemon.step]
  cases hc : m.xLookup .clus clus with
  | none => exact .ignored rfl fun c _ _ _ heq => by rw [hc] at heq; cases heq
  | some c =>
      obtain ⟨hlive, hclus, -⟩ := h.state.tree.xLookup_eq_some.1 hc
      by_cases hwords : ∃ hostName jobName rest,
          (split 5 (some msg)).1 = hostName :: jobName :: rest
      · obtain ⟨hostName, jobName, rest, hwords⟩ := hwords
        obtain ⟨x, j, hline⟩ := h.clusMsgCb_line env hlive hclus hwords now
        exact .line hc hwords hline
      · refine .ignored ?_ fun c hostName jobName rest _ heq => hwords ⟨_, _, _, heq⟩
        simp only
        rw [Daemon.clusMsgCb]
        split
        · next heq => exact absurd ⟨_, _, _, heq⟩ hwords
        · rfl

namespace Line

omit [Field R] [LinearOrder R] [FloorRing R]

variable {env : Env R} {m m' : Daemon R} {c x j y : XNode} {hostName jobName : CString}
  {rest : List CString} {now : R} {type : XType} {name : CString}

theorem types (h : Line env m c hostName jobName rest now x j m') :
    x.xType = .host ∧ j.xType = .job :=
  ⟨(h.ok.state.tree.xLookup_eq_some.1 h.host).2.1,
    (h.ok.state.tree.xLookup_eq_some.1 h.job).2.1⟩

theorem xLookup_mono (h : Line env m c hostName jobName rest now x j m') (hok : DaemonOk m)
    (hy : m.xLookup type name = some y) : m'.xLookup type name = some y := by
  have hlive := (hok.state.tree.xLookup_eq_some.1 hy).1
  exact hok.state.tree.xLookup_of_live h.ok.state.tree hy ((h.live y).2 (.inl (.inl hlive)))

theorem xLookup_of_live (h : Line env m c hostName jobName rest now x j m')
    (hok : DaemonOk m) (hy : m'.xLookup type name = some y) (hlive : m.Live y) :
    m.xLookup type name = some y :=
  h.ok.state.tree.xLookup_of_live hok.state.tree hy hlive

/-- The host and the job of a line are new exactly when look-up fails before. -/
theorem xLookup_eq_none_iff (h : Line env m c hostName jobName rest now x j m')
    (hok : DaemonOk m) (hy : m'.xLookup type name = some y) :
    m.xLookup type name = none ↔ ¬ m.Live y := by
  constructor
  · intro hnone hl
    rw [h.xLookup_of_live hok hy hl] at hnone
    cases hnone
  · intro hl
    by_contra hsome
    obtain ⟨z, hz⟩ := Option.ne_none_iff_exists'.1 hsome
    obtain rfl : y = z := Option.some.inj (hy.symm.trans (h.xLookup_mono hok hz))
    exact hl (hok.state.tree.xLookup_eq_some.1 hz).1

theorem live_job (h : Line env m c hostName jobName rest now x j m')
    (hjob : y.xType = .job) (hyj : y ≠ j) (hlive : m'.Live y) : m.Live y := by
  have hyx : y ≠ x := XNode.ne_of_types hjob h.types.1 (by decide)
  exact (((h.live y).1 hlive).resolve_right hyx).resolve_right hyj

/-- The job of the line has the host of the line. -/
theorem mem_children (h : Line env m c hostName jobName rest now x j m') :
    x ∈ m'.children j := by
  rw [h.children j h.types.2, if_pos rfl]
  split
  · next hmem => exact hmem
  · exact List.mem_append_right _ (List.mem_singleton_self x)

end Line

theorem Daemon.run_concat (env : Env R) (m : Daemon R) (events : List (Event R))
    (event : Event R) :
    m.run env (events ++ [event]) = (m.run env events).step env event := by
  rw [Daemon.run, List.foldl_append]
  rfl

namespace Daemon

/-- Every event of the run finds a state that satisfies `P`. -/
def Throughout (env : Env R) (P : Daemon R → Event R → Prop) (m : Daemon R) :
    List (Event R) → Prop
  | [] => True
  | event :: events => P m event ∧ Throughout env P (m.step env event) events

instance decidableThroughout (env : Env R) (P : Daemon R → Event R → Prop)
    [∀ m event, Decidable (P m event)] (m : Daemon R) (events : List (Event R)) :
    Decidable (m.Throughout env P events) :=
  match events with
  | [] => isTrue trivial
  | event :: events =>
      have := decidableThroughout env P (m.step env event) events
      inferInstanceAs (Decidable (P m event ∧ Throughout env P (m.step env event) events))

variable {env : Env R} {P Q : Daemon R → Event R → Prop} {m : Daemon R}
  {events later : List (Event R)} {event : Event R}

theorem throughout_append : m.Throughout env P (events ++ later) ↔
    m.Throughout env P events ∧ (m.run env events).Throughout env P later := by
  induction events generalizing m with
  | nil => exact (and_iff_right trivial).symm
  | cons first events ih =>
      rw [List.cons_append, Throughout, ih, Throughout, and_assoc]
      rfl

theorem throughout_concat : m.Throughout env P (events ++ [event]) ↔
    m.Throughout env P events ∧ P (m.run env events) event := by
  rw [throughout_append]
  exact and_congr_right fun _ => and_iff_left trivial

theorem Throughout.mono (h : m.Throughout env P events)
    (hPQ : ∀ m, ∀ event ∈ events, P m event → Q m event) : m.Throughout env Q events := by
  induction events generalizing m with
  | nil => trivial
  | cons first events ih =>
      have hfirst := hPQ m first List.mem_cons_self h.1
      exact ⟨hfirst, ih h.2 fun m event hmem => hPQ m event (List.mem_cons_of_mem _ hmem)⟩

end Daemon

/-! ## Everything else but timers -/

omit [Field R] [LinearOrder R] [FloorRing R] in
/-- The jobs and their timers are the same, and hosts may have been added. -/
structure JobsKept (m m' : Daemon R) : Prop where
  jobs : m'.jobs = m.jobs
  idle : m'.cIdleJob = m.cIdleJob
  live : ∀ {y}, m.Live y → m'.Live y
  job : ∀ {j}, j.xType = .job → m'.Live j → m.Live j
  children : ∀ {j}, j.xType = .job → m.children j <+: m'.children j

namespace JobsKept

omit [Field R] [LinearOrder R] [FloorRing R]

variable {m m' m₂ : Daemon R}

theorem of_tree (htree : m'.toXTree = m.toXTree) (hjobs : m'.jobs = m.jobs)
    (hidle : m'.cIdleJob = m.cIdleJob) : JobsKept m m' where
  jobs := hjobs
  idle := hidle
  live hy := htree ▸ hy
  job _ hj := htree ▸ hj
  children _ := htree ▸ List.prefix_rfl

theorem refl (m : Daemon R) : JobsKept m m :=
  .of_tree rfl rfl rfl

theorem trans (h : JobsKept m m') (h' : JobsKept m' m₂) : JobsKept m m₂ where
  jobs := h'.jobs.trans h.jobs
  idle := h'.idle.trans h.idle
  live hy := h'.live (h.live hy)
  job hj hlive := h.job hj (h'.job hj hlive)
  children hj := (h.children hj).trans (h'.children hj)

/-- Creating a node that is no job. -/
theorem xInit (h : DaemonOk m) {type : XType} {p : XNode} {name : CString}
    (hp : m.Live p) (htype : type ≠ .job) :
    JobsKept m { m with toXTree := (m.xInit type (some p) (strHash name) name).2 } where
  jobs := rfl
  idle := rfl
  live hy := (m.live_xInit type (strHash name) name (some p)).2 (.inr hy)
  job {j} hj hlive := by
    apply ((m.live_xInit type (strHash name) name (some p)).1 hlive).resolve_left
    rintro rfl
    exact htype hj
  children {j} _ := by
    have hchildren : (m.xInit type (some p) (strHash name) name).2.children j = _ :=
      h.state.tree.children_xInit hp j
    change m.children j <+: (m.xInit type (some p) (strHash name) name).2.children j
    rw [hchildren]
    split
    · next heq => rw [heq]; exact List.prefix_append ..
    · exact List.prefix_rfl

theorem xHostLookup (h : DaemonOk m) (name : CString) :
    JobsKept m (m.xHostLookup name).2 := by
  rw [Daemon.xHostLookup]
  cases m.xLookup .host name with
  | some x => exact .refl m
  | none =>
      cases hp : (m.clusLookupForHost name).bind m.cIdleJob with
      | none => exact .refl m
      | some p =>
          obtain ⟨c, -, hidle⟩ := Option.bind_eq_some_iff.1 hp
          exact .xInit h (h.idle hidle).1 fun heq => by cases heq

theorem lnetLookupNid (h : DaemonOk m) (l nid : CString) :
    JobsKept m (m.lnetLookupNid l nid).2 := by
  rw [Daemon.lnetLookupNid]
  cases m.lnets l with
  | none => exact .refl m
  | some table =>
      simp only
      cases strTableRef table nid with
      | some x => exact .refl m
      | none =>
          have hkept := xHostLookup h nid
          rcases hx : m.xHostLookup nid with ⟨_ | x, m'⟩
          · rw [hx] at hkept
            exact hkept.trans (.of_tree rfl rfl rfl)
          · rw [hx] at hkept
            exact hkept.trans (.of_tree rfl rfl rfl)

theorem servMsg (env : Env R) (h : DaemonOk m) (s : XNode) (msg : CString) :
    JobsKept m (Daemon.servMsg env m s msg).1 := by
  rw [Daemon.servMsg]
  split
  · next nid rest hwords =>
      have hkept := lnetLookupNid h (m.sLnet s) nid
      rcases hx : m.lnetLookupNid (m.sLnet s) nid with ⟨_ | x, m'⟩
      · rw [hx] at hkept
        exact hkept
      · rw [hx] at hkept
        exact hkept
  · exact .refl m

end JobsKept

/-- Only lines of clusters and timers change the jobs. -/
theorem step_cases (env : Env R) {m : Daemon R} (h : DaemonOk m) (event : Event R) :
    (∃ clus msg now, event = .clusMsg clus msg now) ∨ (∃ job now, event = .zombie job now) ∨
      JobsKept m (m.step env event) := by
  cases event with
  | clusMsg clus msg now => exact .inl ⟨clus, msg, now, rfl⟩
  | zombie job now => exact .inr (.inl ⟨job, now, rfl⟩)
  | servMsg serv msg now =>
      have hreported := h.reported_step env serv msg now
      generalize m.calls env _ = calls, m.step env _ = m' at hreported ⊢
      refine .inr (.inr ?_)
      cases hreported with
      | ignored => exact .refl m
      | looked s hgrown => exact .servMsg env h s msg
      | updated s hm hgrown hstep hupdate =>
          have hkept := JobsKept.servMsg env h s msg
          rw [← hm] at hkept
          exact hkept.trans (.of_tree hupdate.tree rfl rfl)
  | top q now =>
      obtain ⟨σ, hm, hreads⟩ := step_top env m q now
      rw [hm]
      exact .inr (.inr (.of_tree hreads.tree rfl rfl))
  | servGet serv now =>
      obtain ⟨σ, hm, hreads⟩ := step_servGet env m serv now
      rw [hm]
      exact .inr (.inr (.of_tree hreads.tree rfl rfl))

/-! ## Timers -/

omit [Field R] [LinearOrder R] [FloorRing R] in
/-- What the event `zombie j` at `now` does: nothing if the timer is not active,
and otherwise one of the three branches of `job_zombie_cb`. -/
inductive Fired (m : Daemon R) (j : XNode) (now : R) (m' : Daemon R) : Prop where
  | inactive (hstart : (m.jobs j).jZombieW = none) (hsame : m' = m)
  | fake (hfake : (m.jobs j).jFake = true)
      (hm : m' = m.setJob j fun job => { job with jZombieW := none })
  | rearmed (hchildren : m.children j ≠ [])
      (hm : m' = m.setJob j fun job => { job with jZombieW := some now })
  | destroyed {start : R} (hstart : (m.jobs j).jZombieW = some start)
      (hlive : m.Live j) (hjob : j.xType = .job) (hchildren : m.children j = [])
      (hstate : XState.Destroyed m.toXState j m'.toXState)
      (hjobs : m'.jobs = (m.setJob j fun job => { job with jZombieW := none }).jobs)
      (hidle : m'.cIdleJob = m.cIdleJob)

section Fired

omit [Field R] [LinearOrder R] [FloorRing R]

variable {m m' : Daemon R} {i j : XNode} {now : R}

theorem setJob_jobs (m : Daemon R) (j : XNode) (f : JobNode R → JobNode R) (i : XNode) :
    (m.setJob j f).jobs i = if i = j then f (m.jobs j) else m.jobs i :=
  update_apply ..

namespace Fired

theorem jobs_of_ne (h : Fired m j now m') (hij : i ≠ j) : m'.jobs i = m.jobs i := by
  cases h with
  | inactive _ hsame => rw [hsame]
  | fake _ hm => rw [hm, setJob_jobs, if_neg hij]
  | rearmed _ hm => rw [hm, setJob_jobs, if_neg hij]
  | destroyed _ _ _ _ _ hjobs _ => rw [hjobs, setJob_jobs, if_neg hij]

/-- Not even the hosts of the job that goes away, which has none. -/
theorem children (h : Fired m j now m') (hok : DaemonOk m) (hjob : i.xType = .job) :
    m'.children i = m.children i := by
  cases h with
  | inactive _ hsame => rw [hsame]
  | fake _ hm => rw [hm]; rfl
  | rearmed _ hm => rw [hm]; rfl
  | destroyed _ hlive hj hchildren hstate _ _ =>
      obtain ⟨q, hq, hqtype⟩ := hok.state.tree.exists_parent hlive
        (by rw [hj]; rfl : j.xType.up = some .clus)
      have hiq : i ≠ q := XNode.ne_of_types hjob hqtype (by decide)
      rw [hstate.tree, hok.state.tree.children_xRemove hq hchildren, if_neg hiq]

end Fired

end Fired

theorem fired_step (env : Env R) {m : Daemon R} (h : DaemonOk m) (j : XNode) (now : R) :
    Fired m j now (m.step env (.zombie j now)) := by
  rw [Daemon.step]
  cases hstart : (m.jobs j).jZombieW with
  | none => exact .inactive hstart rfl
  | some start =>
      obtain ⟨hlive, hjob⟩ := h.timers (hstart ▸ Option.some_ne_none start)
      have hself : (m.setJob j fun job => { job with jZombieW := none }).jobs j =
          { m.jobs j with jZombieW := none } :=
        update_self (β := fun _ => JobNode R) _ _ _
      rw [Option.isSome_some, if_pos rfl, Daemon.jobZombieCb]
      simp only [hself]
      split_ifs with hfake hchild
      · exact .fake hfake rfl
      · refine .rearmed (fun hnil => ?_) ?_
        · rw [← h.state.tree.nrChild_eq_zero] at hnil
          exact hchild.ne' hnil
        · rw [Daemon.setJob, Daemon.setJob, Daemon.setJob]
          simp [Daemon.timerStart]
      · have hnil : m.children j = [] :=
          h.state.tree.nrChild_eq_zero.1 (Nat.eq_zero_of_not_pos hchild)
        exact .destroyed hstart hlive hjob hnil (destroyed_of_step h.state hjob) rfl rfl

end Xltop.Master
