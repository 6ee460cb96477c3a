import Xltop.Core.NBuf
import Xltop.Core.Words
import Xltop.Master.Lines

/-!
# A PUT to a cluster

The lines of a body may create jobs and hosts and move hosts about, each on top
of what the lines before it did.  What they leave is nevertheless a function of
the body: a host is in the job that the last line about it names, and a job has
the owner, title and start time of the first line that names it.
-/

namespace Xltop.Master

open Xltop.Buffer
open Xltop.Hash
open Xltop.Text

variable {R : Type*} [Field R] [LinearOrder R] [FloorRing R]

omit [Field R] [LinearOrder R] [FloorRing R] in
/-- `clus_put_cb` with the body `nb`. -/
def Daemon.clusPutCb (env : Env R) (m : Daemon R) (c : XNode) (nb : NBuf) (now : R) :
    Daemon R :=
  (nBufMsgs nb).foldl (fun m msg => clusMsgCb env m c (cstr msg) now) m

/-! ## Assignments -/

/-- What a line of two or more words says. -/
structure Assignment where
  host : CString
  job : CString
  owner : CString
  title : CString
  start : CString
  deriving DecidableEq, Repr

def assignment (line : CString) : Option Assignment :=
  match words line with
  | host :: job :: rest =>
      some
        { host := host
          job := job
          owner := rest[0]?.getD (lit "NONE")
          title := rest[1]?.getD (lit "NONE")
          start := rest[2]?.getD (lit "0") }
  | _ => none

/-- The assignments of a body, in order. -/
def assignments (body : List Byte) : List Assignment :=
  (bodyLines body).filterMap assignment

/-- The last assignment of a host. -/
def lastOf (as : List Assignment) (host : CString) : Option Assignment :=
  (as.filter fun a => a.host = host).getLast?

/-- The first assignment to a job. -/
def firstOf (as : List Assignment) (job : CString) : Option Assignment :=
  as.find? fun a => a.job = job

section Lists

variable {as : List Assignment} {a : Assignment}

theorem lastOf_concat (as : List Assignment) (a : Assignment) (host : CString) :
    lastOf (as ++ [a]) host = if a.host = host then some a else lastOf as host := by
  rw [lastOf, List.filter_append]
  split
  · next heq => rw [List.filter_cons_of_pos (by simpa using heq), List.filter_nil,
      List.getLast?_concat]
  · next hne => rw [List.filter_cons_of_neg (by simpa using hne), List.filter_nil,
      List.append_nil, lastOf]

theorem firstOf_concat (as : List Assignment) (a : Assignment) (job : CString) :
    firstOf (as ++ [a]) job =
      (firstOf as job).or (if a.job = job then some a else none) := by
  rw [firstOf, List.find?_append, ← firstOf, List.find?_singleton]
  simp only [decide_eq_true_eq]

theorem firstOf_job {job : CString} (h : firstOf as job = some a) : a.job = job := by
  rw [firstOf] at h
  simpa using List.find?_some h

end Lists

/-! ## What a PUT does -/

/-- The fields of a job that a PUT leaves alone. -/
structure SameJob (job job' : JobNode R) : Prop where
  owner : job'.jOwner = job.jOwner
  title : job'.jTitle = job.jTitle
  start : job'.jStartTime = job.jStartTime

/-- The fields of a job are those of an assignment. -/
structure JobOf (env : Env R) (a : Assignment) (job : JobNode R) : Prop where
  owner : job.jOwner = a.owner
  title : job.jTitle = a.title
  start : job.jStartTime = env.strtod a.start

namespace SameJob

omit [Field R] [LinearOrder R] [FloorRing R]

variable {job job' job'' : JobNode R}

theorem refl (job : JobNode R) : SameJob job job :=
  ⟨rfl, rfl, rfl⟩

theorem trans (h : SameJob job job') (h' : SameJob job' job'') : SameJob job job'' :=
  ⟨h'.owner.trans h.owner, h'.title.trans h.title, h'.start.trans h.start⟩

theorem ended (now : R) (job : JobNode R) : SameJob job (ended now job) := by
  rw [Master.ended]
  split <;> exact ⟨rfl, rfl, rfl⟩

theorem jobOf {env : Env R} {a : Assignment} (h : SameJob job job') (hjob : JobOf env a job) :
    JobOf env a job' :=
  ⟨h.owner.trans hjob.owner, h.title.trans hjob.title, h.start.trans hjob.start⟩

end SameJob

/-- What the lines of a PUT do together. -/
structure AssignedAll (env : Env R) (m : Daemon R) (c : XNode) (as : List Assignment)
    (m' : Daemon R) : Prop where
  ok : DaemonOk m'
  live : ∀ {y}, m.Live y → m'.Live y
  /-- New hosts are named by the lines. -/
  host_new : ∀ {x}, m'.Live x → x.xType = .host → ¬ m.Live x → lastOf as x.xName ≠ none
  assigned : ∀ {host a}, lastOf as host = some a → ∃ x j,
    m'.xLookup .host host = some x ∧ m'.xLookup .job a.job = some j ∧ m'.parent x = some j
  unassigned : ∀ {x}, m.Live x → x.xType = .host → lastOf as x.xName = none →
    m'.parent x = m.parent x
  job_kept : ∀ {j}, m.Live j → j.xType = .job →
    m'.parent j = m.parent j ∧ SameJob (m.jobs j) (m'.jobs j)
  job_new : ∀ {j}, m'.Live j → j.xType = .job → ¬ m.Live j →
    m'.parent j = some c ∧ ∃ a, firstOf as j.xName = some a ∧ JobOf env a (m'.jobs j)
  /-- A job that is named is there. -/
  job_named : ∀ {a}, a ∈ as → ∃ j, m'.xLookup .job a.job = some j

omit [Field R] [LinearOrder R] [FloorRing R] in
/-- The words of an assignment as `clus_msg_cb` has them. -/
theorem assignment_eq_some {line : CString} {a : Assignment}
    (h : assignment line = some a) :
    ∃ rest, (split 5 (some line)).1 = a.host :: a.job :: rest ∧
      ∀ (env : Env R) (j : XNode), JobOf env a (newJob env rest j) := by
  rw [split_fst, refWords, Option.map_some, Option.getD_some]
  rw [assignment] at h
  split at h
  · next host job rest hwords =>
      cases h
      rw [hwords]
      refine ⟨rest.take 3, rfl, fun env j => ⟨?_, ?_, ?_⟩⟩ <;>
        simp [newJob]
  · cases h

theorem assignment_eq_none {line : CString} (h : assignment line = none)
    {hostName jobName : CString} {rest : List CString} :
    (split 5 (some line)).1 ≠ hostName :: jobName :: rest := by
  rw [split_fst, refWords, Option.map_some, Option.getD_some]
  rw [assignment] at h
  split at h
  · cases h
  · next hwords =>
      intro heq
      rcases hall : words line with _ | ⟨host, _ | ⟨job, more⟩⟩
      · rw [hall] at heq
        cases heq
      · rw [hall] at heq
        cases heq
      · exact hwords host job more hall

namespace Line

omit [Field R] [LinearOrder R] [FloorRing R]

variable {env : Env R} {m m' : Daemon R} {c x j y i : XNode} {hostName jobName : CString}
  {rest : List CString} {now : R}

theorem parent_host (h : Line env m c hostName jobName rest now x j m')
    (hy : y.xType = .host) (hyx : y ≠ x) : m'.parent y = m.parent y := by
  have hyj : y ≠ j := XNode.ne_of_types hy h.types.2 (by decide)
  rw [h.parent, if_neg hyx, if_neg fun heq => hyj heq.1]

theorem job_kept (h : Line env m c hostName jobName rest now x j m') (hi : m.Live i)
    (hjob : i.xType = .job) : m'.parent i = m.parent i ∧ SameJob (m.jobs i) (m'.jobs i) := by
  have hix : i ≠ x := XNode.ne_of_types hjob h.types.1 (by decide)
  constructor
  · rw [h.parent, if_neg hix, if_neg fun heq => heq.2 (heq.1 ▸ hi)]
  · rw [h.jobs]
    split
    · next hij => rw [if_pos (hij ▸ hi), hij]; exact .refl _
    · split
      · exact .ended now _
      · exact .refl _

end Line

namespace AssignedAll

variable {env : Env R} {m m' m'' : Daemon R} {c : XNode} {as : List Assignment}

omit [Field R] [LinearOrder R] [FloorRing R]

theorem nil (h : DaemonOk m) : AssignedAll env m c [] m where
  ok := h
  live := id
  host_new hx _ hnew := absurd hx hnew
  assigned hlast := by cases hlast
  unassigned _ _ _ := rfl
  job_kept _ _ := ⟨rfl, .refl _⟩
  job_new hj _ hnew := absurd hj hnew
  job_named hmem := by cases hmem

/-- A job that is not there has not been named. -/
theorem firstOf_eq_none (h : AssignedAll env m c as m') {name : CString}
    (hnone : m'.xLookup .job name = none) : firstOf as name = none := by
  by_contra hsome
  obtain ⟨a, ha⟩ := Option.ne_none_iff_exists'.1 hsome
  obtain ⟨j, hj⟩ := h.job_named (List.mem_of_find?_eq_some ha)
  rw [firstOf_job ha, hnone] at hj
  cases hj

/-- One more line, that assigns `x` to `j`. -/
theorem concat (h : AssignedAll env m c as m') {a : Assignment} {rest : List CString}
    {now : R} {x j : XNode} (hline : Line env m' c a.host a.job rest now x j m'')
    (hnew : JobOf env a (newJob env rest j)) : AssignedAll env m c (as ++ [a]) m'' := by
  obtain ⟨hxtype, hjtype⟩ := hline.types
  obtain ⟨hxlive, -, hxname⟩ := hline.ok.state.tree.xLookup_eq_some.1 hline.host
  obtain ⟨hjlive, -, hjname⟩ := hline.ok.state.tree.xLookup_eq_some.1 hline.job
  have hlive : ∀ {y}, m'.Live y → m''.Live y := fun {y} hy => (hline.live y).2 (.inl (.inl hy))
  have hmono : ∀ {type name y}, m'.xLookup type name = some y →
      m''.xLookup type name = some y := hline.xLookup_mono h.ok
  refine
    { ok := hline.ok
      live := fun hy => hlive (h.live hy)
      host_new := fun {y} hy hytype hyold => ?_
      assigned := fun {host b} hlast => ?_
      unassigned := fun {y} hy hytype hlast => ?_
      job_kept := fun {i} hi hitype => ?_
      job_new := fun {i} hi hitype hiold => ?_
      job_named := fun {b} hmem => ?_ }
  · rw [lastOf_concat]
    split
    · exact Option.some_ne_none a
    · next hname =>
        have hyx : y ≠ x := fun heq => hname (heq ▸ hxname.symm)
        have hyj : y ≠ j := XNode.ne_of_types hytype hjtype (by decide)
        have hyold' := ((hline.live y).1 hy).resolve_right hyx |>.resolve_right hyj
        exact h.host_new hyold' hytype hyold
  · rw [lastOf_concat] at hlast
    split at hlast
    · next hname =>
        cases hlast
        rw [← hname]
        exact ⟨x, j, hline.host, hline.job, by rw [hline.parent, if_pos rfl]⟩
    · next hname =>
        -- an earlier line assigns the host, and this one moves another host
        obtain ⟨y, i, hy, hi, hparent⟩ := h.assigned hlast
        obtain ⟨hylive, hytype, hyname⟩ := h.ok.state.tree.xLookup_eq_some.1 hy
        have hyx : y ≠ x := fun heq => hname (by rw [← hxname, ← heq, hyname])
        exact ⟨y, i, hmono hy, hmono hi, (hline.parent_host hytype hyx).trans hparent⟩
  · rw [lastOf_concat] at hlast
    split at hlast
    · cases hlast
    · next hname =>
        have hyx : y ≠ x := fun heq => hname (heq ▸ hxname.symm)
        exact (hline.parent_host hytype hyx).trans (h.unassigned hy hytype hlast)
  · obtain ⟨hparent, hsame⟩ := h.job_kept hi hitype
    obtain ⟨hparent', hsame'⟩ := hline.job_kept (h.live hi) hitype
    exact ⟨hparent'.trans hparent, hsame.trans hsame'⟩
  · rw [firstOf_concat]
    by_cases hi' : m'.Live i
    · obtain ⟨hparent, b, hfirst, hjob⟩ := h.job_new hi' hitype hiold
      obtain ⟨hparent', hsame'⟩ := hline.job_kept hi' hitype
      exact ⟨hparent'.trans hparent, b, by rw [hfirst, Option.some_or], hsame'.jobOf hjob⟩
    · -- the line creates the job, so no line before it has named it
      obtain rfl : i = j := by
        by_contra hij
        exact hi' (hline.live_job hitype hij hi)
      have hnone : firstOf as i.xName = none := by
        rw [hjname]
        exact h.firstOf_eq_none ((hline.xLookup_eq_none_iff h.ok hline.job).2 hi')
      have hix : i ≠ x := XNode.ne_of_types hitype hxtype (by decide)
      refine ⟨?_, a, ?_, ?_⟩
      · rw [hline.parent, if_neg hix, if_pos ⟨rfl, hi'⟩]
      · rw [hnone, Option.none_or, if_pos hjname.symm]
      · rw [hline.jobs, if_pos rfl, if_neg hi']
        exact hnew
  · rcases List.mem_append.1 hmem with hmem | hmem
    · obtain ⟨i, hi⟩ := h.job_named hmem
      exact ⟨i, hmono hi⟩
    · rw [List.mem_singleton.1 hmem]
      exact ⟨j, hline.job⟩

/-- A second PUT of the same assignments moves no host. -/
theorem parent_again (h : AssignedAll env m c as m') (h' : AssignedAll env m' c as m'')
    {x : XNode} (hx : x.xType = .host) : m''.parent x = m'.parent x := by
  have htree := h.ok.state.tree
  have htree' := h'.ok.state.tree
  have hmono : ∀ {type name y}, m'.xLookup type name = some y →
      m''.xLookup type name = some y := fun hy =>
    htree.xLookup_of_live htree' hy (h'.live (htree.xLookup_eq_some.1 hy).1)
  cases hlast : lastOf as x.xName with
  | none =>
      by_cases hlive : m'.Live x
      · exact h'.unassigned hlive hx hlast
      · have hnew : ¬ m''.Live x := fun hlive' => h'.host_new hlive' hx hlive hlast
        rw [htree.parent_none hlive, htree'.parent_none hnew]
  | some a =>
      obtain ⟨y, j, hy, hj, hparent⟩ := h.assigned hlast
      obtain ⟨y', j', hy', hj', hparent'⟩ := h'.assigned hlast
      obtain rfl : y = y' := Option.some.inj ((hmono hy).symm.trans hy')
      obtain rfl : j = j' := Option.some.inj ((hmono hj).symm.trans hj')
      by_cases hxy : x = y
      · rw [hxy, hparent, hparent']
      · have hnew : ¬ m''.Live x := fun hlive =>
          hxy (Option.some.inj ((htree'.xLookup_eq_some.2 ⟨hlive, hx, rfl⟩).symm.trans hy'))
        rw [htree.parent_none fun hlive => hnew (h'.live hlive),
          htree'.parent_none hnew]

end AssignedAll

theorem assignedAll_foldl (env : Env R) {m : Daemon R} (h : DaemonOk m) {c : XNode}
    (hc : m.Live c) (hclus : c.xType = .clus) (lines : List CString) (now : R) :
    AssignedAll env m c (lines.filterMap assignment)
      (lines.foldl (fun m line => m.clusMsgCb env c line now) m) := by
  induction lines using List.reverseRecOn with
  | nil => exact .nil h
  | append_singleton lines line ih =>
      rw [List.foldl_append, List.filterMap_append]
      generalize lines.foldl _ m = m' at ih ⊢
      rw [List.foldl_cons, List.foldl_nil, List.filterMap_cons, List.filterMap_nil]
      cases hassign : assignment line with
      | none =>
          simp only [List.append_nil]
          rw [Daemon.clusMsgCb]
          split
          · next heq => exact absurd heq (assignment_eq_none hassign)
          · exact ih
      | some a =>
          obtain ⟨rest, hwords, hnew⟩ := assignment_eq_some (R := R) hassign
          obtain ⟨x, j, hline⟩ := ih.ok.clusMsgCb_line env (ih.live hc) hclus hwords now
          exact ih.concat hline (hnew env j)

/-- The lines of a body without a NUL. -/
theorem assignedAll_clusPutCb (env : Env R) {m : Daemon R} (h : DaemonOk m) {c : XNode}
    (hc : m.Live c) (hclus : c.xType = .clus) {nb : NBuf} (hcheck : nb.Check)
    (hnul : 0 ∉ nb.data) (now : R) :
    AssignedAll env m c (assignments nb.data) (m.clusPutCb env c nb now) := by
  have hlines : ∀ line ∈ bodyLines nb.data, cstr line = line := fun line hline =>
    cstr_of_nul fun hmem => hnul (mem_of_mem_bodyLines hline hmem)
  have hfold : m.clusPutCb env c nb now =
      (bodyLines nb.data).foldl (fun m line => m.clusMsgCb env c line now) m := by
    rw [Daemon.clusPutCb, nBufMsgs_eq hcheck]
    refine List.foldl_ext _ _ m fun m line hline => ?_
    rw [hlines line hline]
  rw [hfold, assignments]
  exact assignedAll_foldl env h hc hclus _ now

section Reached

variable {env : Env R} {cfg : Config R} {m₀ : Daemon R} {c : XNode} {nb nb' : NBuf}

/-- A PUT gives every host to the job of the last line that names the host, and
leaves the other hosts and the jobs where they are; the new jobs belong to the
cluster of the PUT, as the first line that names them says.  The same body again
moves no host. -/
theorem clus_put_assigns (hboot : Daemon.boot env cfg = some m₀) (events : List (Event R))
    (hc : (m₀.run env events).Held c) (hclus : c.xType = .clus) (hcheck : nb.Check)
    (hnul : 0 ∉ nb.data) (hcheck' : nb'.Check) (hsame : nb'.data = nb.data) (now now' : R) :
    let m := m₀.run env events
    let m' := m.clusPutCb env c nb now
    let as := assignments nb.data
    (∀ host a, lastOf as host = some a → ∃ x j, m'.xLookup .host host = some x ∧
      m'.xLookup .job a.job = some j ∧ m'.parent x = some j) ∧
    (∀ x, x.xType = .host → lastOf as x.xName = none →
      (m'.Held x ↔ m.Held x) ∧ m'.parent x = m.parent x) ∧
    (∀ j, m.Held j → j.xType = .job → m'.Held j ∧ m'.parent j = m.parent j ∧
      SameJob (m.jobs j) (m'.jobs j)) ∧
    (∀ j, m'.Held j → ¬ m.Held j → j.xType = .job → m'.parent j = some c ∧
      ∃ a, firstOf as j.xName = some a ∧ JobOf env a (m'.jobs j)) ∧
    ∀ x, x.xType = .host → (m'.clusPutCb env c nb' now').parent x = m'.parent x := by
  intro m m' as
  have hok : DaemonOk m := reached_ok hboot events
  have hlive : m.Live c := hok.state.tree.held_iff.1 hc
  have hput : AssignedAll env m c as m' :=
    assignedAll_clusPutCb env hok hlive hclus hcheck hnul now
  have hagain : AssignedAll env m' c as (m'.clusPutCb env c nb' now') := by
    have hput' := assignedAll_clusPutCb env hput.ok (hput.live hlive) hclus hcheck'
      (hsame ▸ hnul) now'
    rwa [hsame] at hput'
  have hheld : ∀ {y}, m.Held y ↔ m.Live y := hok.state.tree.held_iff
  have hheld' : ∀ {y}, m'.Held y ↔ m'.Live y := hput.ok.state.tree.held_iff
  simp only [hheld, hheld']
  refine ⟨fun host a => hput.assigned, fun x hx hlast => ?_, fun j hj hjob => ?_,
    fun j hj hnew hjob => hput.job_new hj hjob hnew, fun x => hput.parent_again hagain⟩
  · have hiff : m'.Live x ↔ m.Live x :=
      ⟨fun hx' => by_contra fun hnew => hput.host_new hx' hx hnew hlast, hput.live⟩
    refine ⟨hiff, ?_⟩
    by_cases hold : m.Live x
    · exact hput.unassigned hold hx hlast
    · rw [hok.state.tree.parent_none hold,
        hput.ok.state.tree.parent_none (mt hiff.1 hold)]
  · exact ⟨hput.live hj, hput.job_kept hj hjob⟩

end Reached

/-- Two lines about the host of the sample, the first of which gives it a job. -/
def samplePutText : CString :=
  lit "10.0.0.1@tcp j1 alice run 5\n10.0.0.1@tcp j2 bob\n"

def samplePutClus : XNode := ⟨2, .clus, strHash (lit "NONE"), lit "NONE"⟩

theorem clus_put_assigns_sample :
    let m := (sampleDaemon.run sampleEnv [sampleServMsg])
    let m' := m.clusPutCb sampleEnv samplePutClus (textBuf samplePutText) 12
    (∃ x j, m'.xLookup .host (lit "10.0.0.1@tcp") = some x ∧
      m'.xLookup .job (lit "j2") = some j ∧ m'.parent x = some j) ∧
    ∀ x, x.xType = .host →
      (m'.clusPutCb sampleEnv samplePutClus (textBuf samplePutText) 20).parent x =
        m'.parent x := by
  intro m m'
  have hcheck := check_textBuf samplePutText
  obtain ⟨hassigned, -, -, -, hagain⟩ := @clus_put_assigns _ _ _ _ sampleEnv _ _
    samplePutClus _ _ boot_sample [sampleServMsg] (.inr (by decide +kernel)) rfl hcheck
    (by rw [data_textBuf]; decide +kernel) hcheck rfl 12 20
  refine ⟨hassigned (lit "10.0.0.1@tcp")
    ⟨lit "10.0.0.1@tcp", lit "j2", lit "bob", lit "NONE", lit "0"⟩ ?_, hagain⟩
  rw [data_textBuf]
  decide +kernel

end Xltop.Master
