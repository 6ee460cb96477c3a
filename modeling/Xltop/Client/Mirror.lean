import Xltop.Client.Dangling
import Xltop.Http.Botz
import Xltop.Library.KeepFirst
import Xltop.Master.Listing

/-!
# The client after a poll

A poll leaves on the list of its cluster exactly the jobs that the master names,
and each listed host with its job.  The fields of a job are those of the first
poll that named it: they are the ones the master reports exactly when no job has
come with others since then.
-/

namespace Xltop.Client

open Function
open Xltop.Buffer
open Xltop.Hash
open Xltop.KeepFirst
open Xltop.MarkSweep
open Xltop.Memory
open Xltop.Text

/-! ## Reports -/

/-- What a line says about its job. -/
structure Report (D : Type*) where
  owner : CString
  title : CString
  start : D
  nrHosts : ℕ
  deriving DecidableEq

/-- The host and the job of a line, and what it says about the job. -/
def lineReport {D : Type*} (strtod : CString → D) (m : CString) :
    Option (CString × CString × Report D) :=
  match (split 6 (some m)).1 with
  | [sHost, sJob, owner, title, sStart, sNrHosts] =>
      some (sHost, sJob, ⟨owner, title, strtod sStart, strtoulAuto sNrHosts⟩)
  | _ => none

def lineReports {D : Type*} (strtod : CString → D) (lines : List CString) :
    List (CString × CString × Report D) :=
  lines.filterMap (lineReport strtod)

/-- The jobs of a poll with what it says about them. -/
def jobReports {D : Type*} (strtod : CString → D) (lines : List CString) :
    List (CString × Report D) :=
  (lineReports strtod lines).map Prod.snd

/-- The fields of a job, once it has them. -/
def XlJob.report {D : Type*} (j : XlJob D) : Option (Report D) :=
  match j.jLinked, j.jOwner, j.jTitle with
  | true, some owner, some title => some ⟨owner, title, j.jStart, j.jNrHosts⟩
  | _, _, _ => none

theorem lineNames_eq {D : Type*} (strtod : CString → D) (m : CString) :
    lineNames m = (lineReport strtod m).map fun l => (l.1, l.2.1) := by
  rw [lineNames, lineReport]
  generalize (split 6 (some m)).1 = ws
  rcases ws with _ | ⟨sHost, _ | ⟨sJob, _ | ⟨owner, _ | ⟨title, _ | ⟨sStart, _ |
    ⟨sNrHosts, _ | ⟨more, rest⟩⟩⟩⟩⟩⟩⟩ <;> rfl

theorem filterMap_lineNames {D : Type*} (strtod : CString → D) (lines : List CString) :
    lines.filterMap lineNames = (lineReports strtod lines).map fun l => (l.1, l.2.1) := by
  rw [lineReports, List.map_filterMap]
  exact List.filterMap_congr fun m _ => lineNames_eq strtod m

namespace XlState

variable {D : Type*}

def report (s : XlState D) (n : CString) : Option (Report D) :=
  (s.findJob n).bind XlJob.report

/-- Every job of the table has its fields. -/
def Full (s : XlState D) : Prop :=
  ∀ {n j}, s.findJob n = some j → j.report ≠ none

variable {s : XlState D} {c : CString}

/-! ## A line -/

/-- A job gets its fields on the first line that names it. -/
def filled [Zero D] (j : XlJob D) (new : Report D) : XlJob D :=
  if j.jLinked then j
  else { j with
    jLinked := true
    jOwner := some new.owner
    jTitle := some new.title
    jStart := new.start
    jNrHosts := new.nrHosts }

theorem filled_jRef [Zero D] (j : XlJob D) (new : Report D) : (filled j new).jRef = j.jRef := by
  rw [filled]
  split <;> rfl

theorem xlLookupHost_job (s : XlState D) (host : CString) :
    (s.xlLookupHost host).findJob = s.findJob ∧
      (s.xlLookupHost host).cJobList = s.cJobList := by
  rw [XlState.xlLookupHost]
  split <;> exact ⟨rfl, rfl⟩

theorem xlLookupJob_job [Zero D] (s : XlState D) (n : CString) :
    (s.findJob n = some (s.xlLookupJob n).1 ∨
        s.findJob n = none ∧ (s.xlLookupJob n).1.jLinked = false) ∧
      (s.xlLookupJob n).2.findJob = update s.findJob n (some (s.xlLookupJob n).1) ∧
      (s.xlLookupJob n).2.cJobList = s.cJobList := by
  rw [XlState.xlLookupJob]
  split
  · next j hfound =>
      refine ⟨.inl hfound, ?_, rfl⟩
      rw [← hfound, update_eq_self]
  · next hnone =>
      refine ⟨.inr ⟨hnone, rfl⟩, ?_, rfl⟩
      funext k
      rw [findJob, HashTable.lookup_addHead XlJob.jName strHash s.xlJob
        ⟨s.nextRef, false, none, none, 0, 0, n⟩, update_apply]
      rfl

theorem initJob_findJob (s : XlState D) (n owner title : CString) (start : D)
    (nrHosts : ℕ) :
    (s.initJob n owner title start nrHosts).findJob = update s.findJob n
      ((s.findJob n).map fun j => { j with
        jLinked := true
        jOwner := some owner
        jTitle := some title
        jStart := start
        jNrHosts := nrHosts }) := by
  have hkey : ∀ j : XlJob D, ({ j with
      jLinked := true
      jOwner := some owner
      jTitle := some title
      jStart := start
      jNrHosts := nrHosts } : XlJob D).jName = j.jName := fun _ => rfl
  funext k
  rw [update_apply]
  exact HashTable.lookup_modify XlJob.jName strHash s.xlJob hkey n k

/-- The words of a line that says something about a job. -/
theorem words_of_lineReport {strtod : CString → D} {m host n : CString} {new : Report D}
    (hm : lineReport strtod m = some (host, n, new)) :
    ∃ owner title sStart sNrHosts,
      (split 6 (some m)).1 = [host, n, owner, title, sStart, sNrHosts] ∧
        new = ⟨owner, title, strtod sStart, strtoulAuto sNrHosts⟩ := by
  rw [lineReport] at hm
  split at hm
  · next hwords =>
      cases hm
      exact ⟨_, _, _, _, hwords, rfl⟩
  · cases hm

/-- What a line does to the job table and to the list of its cluster. -/
theorem xlClusMsgCb_job [Zero D] (strtod : CString → D) (s : XlState D) (c : CString)
    {m host n : CString} {new : Report D} (hm : lineReport strtod m = some (host, n, new)) :
    ∃ j, (s.findJob n = some j ∨ s.findJob n = none ∧ j.jLinked = false) ∧
      (xlClusMsgCb strtod c s m).findJob = update s.findJob n (some (filled j new)) ∧
      ∀ r, r ∈ (xlClusMsgCb strtod c s m).cJobList c ↔ r = j.jRef ∨ r ∈ s.cJobList c := by
  obtain ⟨owner, title, sStart, sNrHosts, hwords, rfl⟩ := words_of_lineReport hm
  obtain ⟨hfind, hlist⟩ := xlLookupHost_job s host
  rw [xlClusMsgCb, hwords]
  simp only
  generalize s.xlLookupHost host = s₁ at hfind hlist ⊢
  have hjob := xlLookupJob_job s₁ n
  generalize s₁.xlLookupJob n = found at hjob ⊢
  obtain ⟨j, s₂⟩ := found
  rw [hfind, hlist] at hjob
  obtain ⟨hknown, hfind₂, hlist₂⟩ := hjob
  simp only at hknown hfind₂ hlist₂ ⊢
  -- the job is moved from wherever it was to the list of the cluster
  have hmoved : ∀ s₃ : XlState D, s₃.cJobList = s.cJobList → ∀ r,
      r ∈ (s₃.listMove j.jRef c).cJobList c ↔ r = j.jRef ∨ r ∈ s.cJobList c := by
    intro s₃ hs₃ r
    rw [mem_listMove, hs₃, and_iff_left rfl, or_and_left, and_iff_left (em _)]
  use j, hknown
  rw [filled]
  by_cases hlinked : j.jLinked = true
  · rw [if_pos hlinked, if_pos hlinked]
    exact ⟨hfind₂, hmoved _ hlist₂⟩
  · rw [if_neg hlinked, if_neg hlinked]
    refine ⟨?_, hmoved _ hlist₂⟩
    have hinit := initJob_findJob (s₂.setHostJob host j.jRef) n owner title (strtod sStart)
      (strtoulAuto sNrHosts)
    have hset : (s₂.setHostJob host j.jRef).findJob = update s.findJob n (some j) := hfind₂
    rw [hset, update_self, update_idem] at hinit
    exact hinit

/-! ## Lines -/

/-- What delivered lines do to the job table and to the list of their cluster. -/
structure Told (c : CString) (s s' : XlState D)
    (told : List (CString × CString × Report D)) : Prop where
  report : s'.report = (told.map Prod.snd).foldl learn s.report
  full : s'.Full
  other : ∀ {n}, (∀ l ∈ told, l.2.1 ≠ n) → s'.findJob n = s.findJob n
  list : ∀ r, r ∈ s'.cJobList c ↔ r ∈ s.cJobList c ∨ ∃ l ∈ told, s'.ref l.2.1 = some r

theorem filled_report [Zero D] {j : XlJob D} {new : Report D}
    (hj : j.report ≠ none ∨ j.jLinked = false) :
    (filled j new).report = some (j.report.getD new) := by
  obtain ⟨r, linked, owner, title, start, nrHosts, name⟩ := j
  cases linked with
  | false => rfl
  | true =>
      cases howner : owner <;> cases htitle : title <;> first
        | rfl
        | (subst howner htitle; exact absurd rfl (hj.resolve_right Bool.noConfusion))

theorem Full.told_line [Zero D] (hfull : s.Full) (strtod : CString → D) (c : CString)
    {m : CString} {l : CString × CString × Report D} (hm : lineReport strtod m = some l) :
    Told c s (xlClusMsgCb strtod c s m) [l] := by
  obtain ⟨host, n, new⟩ := l
  obtain ⟨j, hknown, hfind, hlist⟩ := xlClusMsgCb_job strtod s c hm
  have hj : j.report ≠ none ∨ j.jLinked = false := by
    rcases hknown with hfound | hnew
    · exact .inl (hfull hfound)
    · exact .inr hnew.2
  have hold : s.report n = j.report := by
    rcases hknown with hfound | ⟨hnone, hlinked⟩
    · rw [report, hfound, Option.bind_some]
    · rw [report, hnone, XlJob.report, hlinked]
      rfl
  have hreport : ∀ k, (xlClusMsgCb strtod c s m).report k =
      update s.report n (some ((s.report n).getD new)) k := by
    intro k
    rw [report, hfind, update_apply, update_apply]
    split
    · rw [Option.bind_some, filled_report hj, hold]
    · rfl
  refine ⟨funext hreport, fun {k i} hi => ?_, fun {k} hk => ?_, fun r => ?_⟩
  · rw [hfind, update_apply] at hi
    split at hi
    · rw [← Option.some.inj hi, filled_report hj]
      exact Option.some_ne_none _
    · exact hfull hi
  · rw [hfind, update_of_ne (hk _ (List.mem_singleton_self _)).symm]
  · have href : (xlClusMsgCb strtod c s m).ref n = some j.jRef := by
      rw [ref, hfind, update_self, Option.map_some, filled_jRef]
    rw [hlist, or_comm]
    simp only [List.mem_singleton, exists_eq_left, href, Option.some.injEq, eq_comm]

theorem Full.told_nil (hfull : s.Full) (c : CString) : Told c s s [] where
  report := rfl
  full := hfull
  other _ := rfl
  list r := by simp

theorem Told.trans {s₁ s₂ : XlState D} {told told' : List (CString × CString × Report D)}
    (h : Told c s s₁ told) (h' : Told c s₁ s₂ told')
    (hkept : ∀ {n r}, s₁.ref n = some r → s₂.ref n = some r)
    (hknown : ∀ l ∈ told, ∃ r, s₁.ref l.2.1 = some r) : Told c s s₂ (told ++ told') where
  report := by rw [h'.report, h.report, List.map_append, List.foldl_append]
  full := h'.full
  other {n} hn := by
    rw [List.forall_mem_append] at hn
    rw [h'.other hn.2, h.other hn.1]
  list r := by
    have hsame : (∃ l ∈ told, s₁.ref l.2.1 = some r) ↔ ∃ l ∈ told, s₂.ref l.2.1 = some r := by
      constructor
      · rintro ⟨l, hl, hr⟩
        exact ⟨l, hl, hkept hr⟩
      · rintro ⟨l, hl, hr⟩
        obtain ⟨r', hr'⟩ := hknown l hl
        rw [hkept hr'] at hr
        exact ⟨l, hl, hr'.trans hr⟩
    rw [h'.list, h.list, hsame, or_assoc]
    simp only [List.mem_append, or_and_right, exists_or]

theorem Ok.told [Zero D] (h : s.Ok) (hfull : s.Full) (strtod : CString → D) (c : CString)
    (lines : List CString) :
    Told c s (lines.foldl (Client.xlClusMsgCb strtod c) s) (lineReports strtod lines) := by
  induction lines generalizing s with
  | nil => exact hfull.told_nil c
  | cons m rest ih =>
      have hnames := lineNames_eq strtod m
      rw [lineReports, List.foldl_cons]
      cases hm : lineReport strtod m with
      | none =>
          rw [hm] at hnames
          rw [List.filterMap_cons_none hm, xlClusMsgCb_of_none strtod hnames]
          exact ih h hfull
      | some l =>
          rw [hm] at hnames
          have hline := h.xlClusMsgCb strtod c hnames
          have htold := hfull.told_line strtod c hm
          have hrest := hline.ok.lines strtod c rest
          rw [List.filterMap_cons_some hm]
          apply htold.trans (ih hline.ok htold.full) hrest.kept
          intro l' hl'
          rw [List.mem_singleton.1 hl']
          exact hline.known _ (List.mem_singleton_self _)

/-! ## Polls of one cluster -/

theorem cJobList_sweep (s : XlState D) : s.sweep.cJobList = s.cJobList := by
  have hfree : ∀ (refs : List JobRef) (s : XlState D),
      (refs.foldl XlState.freeJob s).cJobList = s.cJobList := by
    intro refs s
    induction refs generalizing s with
    | nil => rfl
    | cons r refs ih => exact ih (s.freeJob r)
  exact hfree _ _

theorem findJob_sweep (h : s.Ok) (n : CString) :
    s.sweep.findJob n = (s.findJob n).filter fun j => j.jRef ∉ s.tmpList := by
  have hfree : ∀ (refs : List JobRef) (s : XlState D),
      s.xlJob.Keyed XlJob.jName strHash →
        (refs.foldl XlState.freeJob s).findJob n =
          (s.findJob n).filter fun j => j.jRef ∉ refs := by
    intro refs s hjobs
    induction refs generalizing s with
    | nil => cases hj : s.findJob n <;> simp [hj, Option.filter_some]
    | cons r refs ih =>
        rw [List.foldl_cons, ih (s.freeJob r) (hjobs.remove _), findJob, XlState.freeJob,
          hjobs.lookup_remove, Option.filter_filter]
        apply congrArg (Option.filter · (s.findJob n))
        funext j
        simp [beq_eq_decide]
  exact hfree s.tmpList { s with tmpList := [] } h.jobs

/-- A client that only polls the cluster `c`, between two polls: the fields of its
jobs are those that are known. -/
structure Follows (c : CString) (known : CString → Option (Report D)) (s : XlState D) : Prop
    extends s.Idle where
  full : s.Full
  report : s.report = known
  allListed : ∀ {n r}, s.ref n = some r → r ∈ s.cJobList c

/-- What a poll of the cluster `c` leaves. -/
structure Polled (c : CString) (known : CString → Option (Report D))
    (told : List (CString × CString × Report D)) (s : XlState D) : Prop where
  follows : s.Follows c (refresh known (told.map Prod.snd))
  list : ∀ r, r ∈ s.cJobList c ↔ ∃ l ∈ told, s.ref l.2.1 = some r
  known : ∀ l ∈ told, ∃ r, s.ref l.2.1 = some r
  pointer : ∀ l ∈ told, (∀ l' ∈ told, l'.1 = l.1 → l'.2.1 = l.2.1) →
    s.pointer l.1 = s.ref l.2.1

section Sweep

variable {s₁ : XlState D} {told : List (CString × CString × Report D)}
  (hlines : Delivered (s.splice c) s₁ (told.map fun l => (l.1, l.2.1)))
  {l : CString × CString × Report D}

include hlines

theorem ref_told (hl : l ∈ told) : ∃ r, s₁.ref l.2.1 = some r :=
  hlines.known _ (List.mem_map_of_mem hl)

/-- The sweep takes what was on the list before and is not named. -/
theorem mem_tmpList_told (r : JobRef) :
    r ∈ s₁.tmpList ↔ r ∈ s.cJobList c ∧ ∀ l ∈ told, s₁.ref l.2.1 ≠ some r := by
  change r ∈ s₁.phase.doomed ↔ _
  rw [hlines.phase, marks_doomed, List.map_map, List.forall_mem_map]
  apply and_congr_right
  intro _
  apply forall₂_congr
  intro l hl
  obtain ⟨r', hr'⟩ := ref_told hlines hl
  change (s₁.ref l.2.1).getD 0 ≠ r ↔ s₁.ref l.2.1 ≠ some r
  rw [hr', Option.getD_some, ne_eq, ne_eq, Option.some.injEq]

theorem findJob_told (hl : l ∈ told) : s₁.sweep.findJob l.2.1 = s₁.findJob l.2.1 := by
  obtain ⟨r, hr⟩ := ref_told hlines hl
  obtain ⟨j, hj, rfl⟩ := Option.map_eq_some_iff.1 hr
  have hkept : j.jRef ∉ s₁.tmpList := fun hmem =>
    ((mem_tmpList_told hlines _).1 hmem).2 l hl hr
  rw [findJob_sweep hlines.ok, hj, Option.filter_some, if_pos (by simpa using hkept)]

theorem ref_sweep_told (hl : l ∈ told) : s₁.sweep.ref l.2.1 = s₁.ref l.2.1 :=
  congrArg (Option.map XlJob.jRef) (findJob_told hlines hl)

/-- A host that is named with one job points to that job. -/
theorem pointer_told (hl : l ∈ told) (hfun : ∀ l' ∈ told, l'.1 = l.1 → l'.2.1 = l.2.1) :
    s₁.sweep.pointer l.1 = s₁.sweep.ref l.2.1 := by
  obtain ⟨r, hr⟩ := ref_told hlines hl
  have hmark : (l.1, r) ∈ (told.map fun l => (l.1, l.2.1)).map fun l =>
      (l.1, (s₁.ref l.2).getD 0) := by
    rw [List.map_map]
    apply List.mem_map.2
    use l, hl
    change (l.1, (s₁.ref l.2.1).getD 0) = (l.1, r)
    rw [hr, Option.getD_some]
  have hpointer : s₁.phase.pointer l.1 = some r := by
    rw [hlines.phase]
    apply marks_pointer hmark
    rw [List.map_map, List.forall_mem_map]
    intro l' hl' hhost
    change (s₁.ref l'.2.1).getD 0 = r
    rw [hfun l' hl' hhost, hr, Option.getD_some]
  rw [hlines.ok.sweep.2.1, ref_sweep_told hlines hl, hr]
  exact hpointer

/-- A job that is not named was on the list before, and is swept. -/
theorem findJob_not_told {known : CString → Option (Report D)} (h : s.Follows c known)
    (htold : Told c (s.splice c) s₁ told) {n : CString} (hn : ∀ l ∈ told, l.2.1 ≠ n) :
    s₁.sweep.findJob n = none := by
  rw [findJob_sweep hlines.ok, htold.other hn]
  cases hj : (s.splice c).findJob n with
  | none => rfl
  | some j =>
      have hr : s.ref n = some j.jRef := congrArg (Option.map XlJob.jRef) hj
      have hr₁ : s₁.ref n = some j.jRef := hlines.kept hr
      have hswept : j.jRef ∈ s₁.tmpList := by
        rw [mem_tmpList_told hlines]
        constructor
        · exact h.allListed hr
        · intro l hl hl'
          exact hn l hl (hlines.ok.unique hl' hr₁)
      simp [Option.filter_some, hswept]

/-- The list of the cluster was empty before the lines. -/
theorem mem_cJobList_told (htold : Told c (s.splice c) s₁ told) (r : JobRef) :
    r ∈ s₁.sweep.cJobList c ↔ ∃ l ∈ told, s₁.sweep.ref l.2.1 = some r := by
  have hempty : r ∉ (s.splice c).cJobList c := by
    change r ∉ update s.cJobList c [] c
    rw [update_self]
    exact List.not_mem_nil
  rw [cJobList_sweep, htold.list, or_iff_right hempty]
  apply exists_congr
  intro l
  apply and_congr_right
  intro hl
  rw [ref_sweep_told hlines hl]

end Sweep

theorem Follows.poll [Zero D] {known : CString → Option (Report D)} (h : s.Follows c known)
    (strtod : CString → D) (lines : List CString) :
    Polled c known (lineReports strtod lines) (s.poll strtod ⟨c, some lines⟩) := by
  have hok := h.toIdle.splice c
  have hlines := hok.lines strtod c lines
  have htold := hok.told (fun hj => h.full hj) strtod c lines
  change Polled c known _ (XlState.sweep (lines.foldl (Client.xlClusMsgCb strtod c)
    (s.splice c)))
  rw [filterMap_lineNames strtod] at hlines
  generalize lines.foldl (Client.xlClusMsgCb strtod c) (s.splice c) = s₁ at hlines htold ⊢
  generalize lineReports strtod lines = told at hlines htold ⊢
  have hlist := mem_cJobList_told hlines htold
  have hfull : s₁.sweep.Full := by
    intro n j hj
    rw [findJob_sweep hlines.ok] at hj
    exact htold.full (Option.filter_eq_some_iff.1 hj).1
  have hreport : s₁.sweep.report = refresh known (told.map Prod.snd) := by
    funext n
    by_cases hn : ∃ l ∈ told, l.2.1 = n
    · obtain ⟨l, hl, rfl⟩ := hn
      have hbefore : (s.splice c).report = known := h.report
      calc s₁.sweep.report l.2.1 = s₁.report l.2.1 :=
            congrArg (Option.bind · XlJob.report) (findJob_told hlines hl)
        _ = (told.map Prod.snd).foldl learn known l.2.1 := by rw [htold.report, hbefore]
        _ = refresh known (told.map Prod.snd) l.2.1 :=
            foldl_learn_of_mem (List.mem_map_of_mem hl)
    · push Not at hn
      have hgone : s₁.sweep.report n = none :=
        congrArg (Option.bind · XlJob.report) (findJob_not_told hlines h htold hn)
      rw [hgone, eq_comm, refresh_eq_none, List.forall_mem_map]
      exact hn
  have hall : ∀ {n r}, s₁.sweep.ref n = some r → r ∈ s₁.sweep.cJobList c := by
    intro n r hr
    rw [hlist]
    by_cases hn : ∃ l ∈ told, l.2.1 = n
    · obtain ⟨l, hl, rfl⟩ := hn
      exact ⟨l, hl, hr⟩
    · push Not at hn
      rw [ref, findJob_not_told hlines h htold hn] at hr
      cases hr
  exact
    { follows := ⟨hlines.ok.sweep.1, hfull, hreport, hall⟩
      list := hlist
      known := fun l hl => by
        rw [ref_sweep_told hlines hl]
        exact ref_told hlines hl
      pointer := fun l hl hfun => pointer_told hlines hl hfun }

/-- An address leads to the job that has it. -/
theorem Ok.job_of_findJob (h : s.Ok) {n : CString} {j : XlJob D} (hj : s.findJob n = some j) :
    s.job j.jRef = some j := by
  have href : s.ref n = some j.jRef := congrArg (Option.map XlJob.jRef) hj
  rw [job]
  cases hfind : s.xlJob.toList.find? fun job => job.jRef = j.jRef with
  | none =>
      have hmem := HashTable.mem_toList_of_lookup hj
      exact absurd (decide_eq_true rfl) (List.find?_eq_none.1 hfind j hmem)
  | some j' =>
      have hj' := h.mem_jobs.1 (List.mem_of_find?_eq_some hfind)
      have hsame : j'.jRef = j.jRef := by simpa using List.find?_some hfind
      have href' : s.ref j'.jName = some j.jRef :=
        (congrArg (Option.map XlJob.jRef) hj').trans (congrArg some hsame)
      rw [h.unique href' href, hj] at hj'
      exact hj'.symm

end XlState

theorem follows_init {D : Type*} (hintHost hintJob : UInt64) (c : CString) :
    (xlInit hintHost hintJob : XlState D).Follows c fun _ => none where
  toIdle := (XlState.idle_init hintHost hintJob).1
  full hj := nomatch hj
  report := rfl
  allListed hr := nomatch hr

/-- What is known after polls of one cluster that all succeed. -/
theorem follows_run {D : Type*} [Zero D] (strtod : CString → D) (hintHost hintJob : UInt64)
    (c : CString) (polls : List (List CString)) :
    ((xlInit hintHost hintJob : XlState D).run strtod
      (polls.map fun lines => ⟨c, some lines⟩)).Follows c
        (recorded (polls.map (jobReports strtod))) := by
  induction polls using List.reverseRecOn with
  | nil => exact follows_init hintHost hintJob c
  | append_singleton polls lines ih =>
      rw [List.map_append, List.map_append, List.map_singleton, List.map_singleton, run_concat,
        recorded_concat]
      exact (ih.poll strtod lines).follows

/-! ## The body of a GET -/

/-- The stream of `open_memstream` with the body that curl has written to it. -/
def memstream (body : List Byte) : NBuf where
  nbBuf := blit (fun _ => 0) 0 body
  nbSize := body.length
  nbStart := 0
  nbEnd := body.length

/-- The strings on which `curl_x_get_iter` calls its callback. -/
def curlXLines (body : List Byte) : List CString :=
  (nBufMsgs (memstream body)).map cstr

theorem curlXLines_joinLines {lines : List CString}
    (hlines : ∀ line ∈ lines, 10 ∉ line ∧ 0 ∉ line) :
    curlXLines (joinLines lines) = lines := by
  have hcheck : (memstream (joinLines lines)).Check := ⟨Nat.zero_le _, le_rfl⟩
  have hdata : (memstream (joinLines lines)).data = joinLines lines :=
    slice_blit (fun _ => 0) 0 (joinLines lines)
  rw [curlXLines, nBufMsgs_lines hcheck (fun line hline => (hlines line hline).1) hdata]
  calc lines.map cstr = lines.map id :=
        List.map_congr_left fun line hline => cstr_of_nul (hlines line hline).2
    _ = lines := List.map_id lines

section Mirror

open Xltop.Master

variable {R D : Type*}

/-- What the listing of a cluster says about a job, as `strtod` reads it. -/
def shown (strtod : CString → D) (printf0 : R → CString) (m : Daemon R) (jx : XNode) :
    Report D where
  owner := (m.jobs jx).jOwner
  title := (m.jobs jx).jTitle
  start := strtod (printf0 (m.jobs jx).jStartTime)
  nrHosts := (m.links jx).xNrChild

/-- The client has the hosts and jobs that the master lists for the cluster. -/
structure Mirrors (strtod : CString → D) (printf0 : R → CString) (m : Daemon R) (c : XNode)
    (s : XlState D) : Prop where
  hosts : ∀ p ∈ clusHosts m c, ∃ r j,
    (s.findHost p.2.xName).bind XlHost.hJob = some r ∧ s.job r = some j ∧
      j.jName = p.1.xName ∧ j.report = some (shown strtod printf0 m p.1)
  listed : ∀ r ∈ s.cJobList c.xName, ∃ j, s.job r = some j ∧
    ∃ p ∈ clusHosts m c, j.jName = p.1.xName
  named : ∀ p ∈ clusHosts m c, ∃ r ∈ s.cJobList c.xName, ∃ j, s.job r = some j ∧
    j.jName = p.1.xName

/-- Of each listed job that all polls up to the last one have named since some
poll, that poll said what the master says now. -/
def Steady (strtod : CString → D) (printf0 : R → CString) (m : Daemon R) (c : XNode)
    (polls : List (List CString)) : Prop :=
  ∀ p ∈ clusHosts m c, ∀ old,
    recorded (polls.map (jobReports strtod)) p.1.xName = some old →
      old = shown strtod printf0 m p.1

variable {m : Daemon R} {c : XNode} {printf0 : R → CString}

section Listing

variable {known : CString → Option (Report D)} {strtod : CString → D} {s : XlState D}
  (hok : DaemonOk m) (hclus : c.xType = .clus)
  (hpolled : XlState.Polled c.xName known ((clusHosts m c).map fun p =>
    (p.2.xName, p.1.xName, shown strtod printf0 m p.1)) s)

include hpolled in
/-- The job of a listed host is in the table, at its address. -/
theorem listed_job {p : XNode × XNode} (hp : p ∈ clusHosts m c) :
    ∃ j, s.findJob p.1.xName = some j ∧ s.job j.jRef = some j ∧ j.jName = p.1.xName ∧
      s.ref p.1.xName = some j.jRef := by
  obtain ⟨r, hr⟩ := hpolled.known _ (List.mem_map_of_mem hp)
  obtain ⟨j, hj, -⟩ := Option.map_eq_some_iff.1 hr
  have hjob := hpolled.follows.toOk.job_of_findJob hj
  exact ⟨j, hj, hjob, HashTable.lookup_key hj, congrArg (Option.map XlJob.jRef) hj⟩

include hok hclus hpolled

theorem listed_pointer {p : XNode × XNode} (hp : p ∈ clusHosts m c) :
    s.pointer p.2.xName = s.ref p.1.xName := by
  apply hpolled.pointer _ (List.mem_map_of_mem hp)
  rw [List.forall_mem_map]
  intro p' hp' hname
  exact congrArg (fun p : XNode × XNode => p.1.xName) (host_of_name hok hclus hp' hp hname)

/-- Names and the list are right in any case. -/
theorem mirrors_iff_report : Mirrors strtod printf0 m c s ↔
    ∀ p ∈ clusHosts m c, s.report p.1.xName = some (shown strtod printf0 m p.1) := by
  constructor
  · intro hmirrors p hp
    obtain ⟨j, hj, hjob, -, href⟩ := listed_job hpolled hp
    obtain ⟨r, j', hr, hjob', hname, hreport⟩ := hmirrors.hosts p hp
    have hsame : r = j.jRef := by
      have hpointer : s.pointer p.2.xName = some r := hr
      rw [listed_pointer hok hclus hpolled hp, href] at hpointer
      exact (Option.some.inj hpointer).symm
    rw [hsame, hjob] at hjob'
    rw [XlState.report, hj, Option.bind_some, Option.some.inj hjob', hreport]
  · intro hreport
    refine ⟨fun p hp => ?_, fun r hr => ?_, fun p hp => ?_⟩
    · obtain ⟨j, hj, hjob, hname, href⟩ := listed_job hpolled hp
      have hpointer := (listed_pointer hok hclus hpolled hp).trans href
      have hshown := hreport p hp
      rw [XlState.report, hj, Option.bind_some] at hshown
      exact ⟨j.jRef, j, hpointer, hjob, hname, hshown⟩
    · obtain ⟨l, hl, hlr⟩ := (hpolled.list r).1 hr
      obtain ⟨p, hp, rfl⟩ := List.mem_map.1 hl
      obtain ⟨j, -, hjob, hname, href⟩ := listed_job hpolled hp
      obtain rfl : j.jRef = r := Option.some.inj (href.symm.trans hlr)
      exact ⟨j, hjob, p, hp, hname⟩
    · obtain ⟨j, -, hjob, hname, href⟩ := listed_job hpolled hp
      have hmem := (hpolled.list j.jRef).2 ⟨_, List.mem_map_of_mem hp, href⟩
      exact ⟨j.jRef, hmem, j, hjob, hname⟩

/-- The fields are those of the listing when they were before. -/
theorem mirrors_iff_known : Mirrors strtod printf0 m c s ↔
    ∀ p ∈ clusHosts m c, ∀ old, known p.1.xName = some old →
      old = shown strtod printf0 m p.1 := by
  have hiff := @refresh_current_iff _ _ _ known
    ((clusHosts m c).map fun p => (p.1.xName, shown strtod printf0 m p.1)) ?_
  · rw [List.forall_mem_map, List.forall_mem_map] at hiff
    rw [mirrors_iff_report hok hclus hpolled, hpolled.follows.report, List.map_map]
    exact hiff
  · rw [List.forall_mem_map]
    intro p hp
    rw [List.forall_mem_map]
    intro p' hp' hname
    exact congrArg (shown strtod printf0 m) (job_of_name hok hclus hp hp' hname)

end Listing

/-- The client after a poll whose lines are those of the listing. -/
theorem mirrors_of_lines [Zero D] (strtod : CString → D) (hok : DaemonOk m)
    (hclus : c.xType = .clus) {lines : List CString}
    (hreports : lineReports strtod lines = (clusHosts m c).map fun p =>
      (p.2.xName, p.1.xName, shown strtod printf0 m p.1))
    (hintHost hintJob : UInt64) (polls : List (List CString)) :
    Mirrors strtod printf0 m c (((xlInit hintHost hintJob : XlState D).run strtod
        (polls.map fun lines => ⟨c.xName, some lines⟩)).poll strtod
          ⟨c.xName, some lines⟩) ↔
      Steady strtod printf0 m c polls := by
  have hpolled := (follows_run strtod hintHost hintJob c.xName polls).poll strtod lines
  rw [hreports] at hpolled
  exact mirrors_iff_known hok hclus hpolled

/-- The strings that the client gets from a body that fits. -/
theorem curlXLines_clusGetCb [Zero R] (hok : DaemonOk m) (hnames : NamesOk m)
    (hclus : c.xType = .clus) (hname : IsToken c.xName)
    (hprintf0 : ∀ t, IsToken (printf0 t)) (block : ℕ → Byte)
    (hfits : (joinLines (clusLines printf0 m c)).length < Http.blRBodySize) :
    curlXLines (clusGetCb printf0 m c (nBufInit block Http.blRBodySize)).data =
      clusLines printf0 m c := by
  have hbody := clusGetCb_lines hok hclus printf0 (check_init block Http.blRBodySize)
    (by rwa [nBufInit, Nat.zero_add])
  rw [hbody, data_init, List.nil_append]
  apply curlXLines_joinLines
  rw [clusLines, List.forall_mem_map]
  intro p hp
  exact (hostLine_fields hok hnames hclus hname hprintf0 hp).2

/-- What the client reads in the lines of a listing. -/
theorem lineReports_clusLines (hok : DaemonOk m) (hnames : NamesOk m)
    (hclus : c.xType = .clus) (hname : IsToken c.xName)
    (hprintf0 : ∀ t, IsToken (printf0 t)) (strtod : CString → D)
    (hfits : (joinLines (clusLines printf0 m c)).length < Http.blRBodySize) :
    lineReports strtod (clusLines printf0 m c) = (clusHosts m c).map fun p =>
      (p.2.xName, p.1.xName, shown strtod printf0 m p.1) := by
  rw [lineReports, clusLines, List.filterMap_map, ← List.filterMap_eq_map]
  apply List.filterMap_congr
  intro p hp
  have hfields := (hostLine_fields hok hnames hclus hname hprintf0 hp).1
  have hcount : (m.links p.1).xNrChild < 2 ^ 64 := by
    have hle := nrChild_le hok printf0 hp
    exact lt_trans (lt_of_le_of_lt hle hfits) (by decide)
  change lineReport strtod (hostLine printf0 m p) = _
  rw [lineReport, hfields]
  simp only [Function.comp_apply, shown, strtoulAuto_decimal hcount]

/-- After a poll whose body fits, and any polls of the cluster before, the client
has the hosts and jobs of the listing if and only if no job that it knew has
changed. -/
theorem mirrors_iff [Field R] [LinearOrder R] [FloorRing R] [Zero D] {env : Env R}
    {cfg : Config R} {m₀ : Daemon R} (hplain : cfg.Plain)
    (hboot : Daemon.boot env cfg = some m₀) {events : List (Event R)}
    (hevents : ∀ event ∈ events, event.Plain) {name : CString} (hname : IsToken name)
    (hc : (m₀.run env events).xLookup .clus name = some c)
    (hprintf0 : ∀ t, IsToken (printf0 t)) (block : ℕ → Byte)
    (hfits : (joinLines (clusLines printf0 (m₀.run env events) c)).length <
      Http.blRBodySize)
    (strtod : CString → D) (hintHost hintJob : UInt64) (polls : List (List CString)) :
    Mirrors strtod printf0 (m₀.run env events) c
        (((xlInit hintHost hintJob : XlState D).run strtod
          (polls.map fun lines => ⟨name, some lines⟩)).poll strtod
            ⟨name, some (curlXLines (clusGetCb printf0 (m₀.run env events) c
              (nBufInit block Http.blRBodySize)).data)⟩) ↔
      Steady strtod printf0 (m₀.run env events) c polls := by
  have hok := reached_ok hboot events
  have hnames := reached_names hplain hboot hevents
  obtain ⟨-, hclus, rfl⟩ := hok.state.tree.xLookup_eq_some.1 hc
  rw [curlXLines_clusGetCb hok hnames hclus hname hprintf0 block hfits]
  exact mirrors_of_lines strtod hok hclus
    (lineReports_clusLines hok hnames hclus hname hprintf0 strtod hfits) hintHost hintJob polls

/-! ## A job that grows -/

/-- A host starts a job of the default cluster, and a second one joins it. -/
def sampleJoining : List (Event ℚ) :=
  [.clusMsg (lit "NONE") (lit "i101 2255@NONE root run 0") 1,
    .clusMsg (lit "NONE") (lit "i102 2255@NONE root run 0") 2]

def sampleClus : XNode := ⟨2, .clus, strHash (lit "NONE"), lit "NONE"⟩

/-- `%.0f` of the start time of the sample. -/
def samplePrintf0 : ℚ → CString := fun _ => lit "0"

/-- The strings of the listing after some events. -/
def samplePoll (events : List (Event ℚ)) : List CString :=
  curlXLines (clusGetCb samplePrintf0 (sampleDaemon.run sampleEnv events) sampleClus
    (nBufInit (fun _ => 0) Http.blRBodySize)).data

theorem plain_sample : sampleConfig.Plain := by
  rintro lnet hlnet lines hlines
  rw [List.mem_singleton.1 hlnet] at hlines
  cases hlines

theorem isToken_samplePrintf0 (t : ℚ) : IsToken (samplePrintf0 t) := by
  change IsToken (lit "0")
  exact ⟨⟨by decide, by decide +kernel⟩, by decide⟩

theorem plain_sampleJoining : ∀ event ∈ sampleJoining, event.Plain := by
  simp only [sampleJoining, List.forall_mem_cons, Event.Plain]
  exact ⟨by decide, by decide, fun event hevent => absurd hevent List.not_mem_nil⟩

theorem mirrors_sample :
    Mirrors sampleEnv.strtod samplePrintf0 (sampleDaemon.run sampleEnv sampleJoining) sampleClus
        (((xlInit 0 0 : XlState ℚ).run sampleEnv.strtod
          ([].map fun lines => ⟨lit "NONE", some lines⟩)).poll sampleEnv.strtod
            ⟨lit "NONE", some (samplePoll sampleJoining)⟩) ↔
      Steady sampleEnv.strtod samplePrintf0 (sampleDaemon.run sampleEnv sampleJoining)
        sampleClus [] :=
  mirrors_iff plain_sample boot_sample plain_sampleJoining isToken_none (by decide +kernel)
    isToken_samplePrintf0 (fun _ => 0) (by decide +kernel) sampleEnv.strtod 0 0 []

/-- The strings of a poll of the sample, when its body fits. -/
theorem samplePoll_eq {events : List (Event ℚ)} (hevents : ∀ event ∈ events, event.Plain)
    (hfits : (joinLines (clusLines samplePrintf0 (sampleDaemon.run sampleEnv events)
      sampleClus)).length < Http.blRBodySize) :
    samplePoll events = clusLines samplePrintf0 (sampleDaemon.run sampleEnv events)
        sampleClus ∧
      lineReports sampleEnv.strtod (samplePoll events) =
        (clusHosts (sampleDaemon.run sampleEnv events) sampleClus).map fun p =>
          (p.2.xName, p.1.xName,
            shown sampleEnv.strtod samplePrintf0 (sampleDaemon.run sampleEnv events) p.1) := by
  have hok := reached_ok boot_sample events
  have hnames := reached_names plain_sample boot_sample hevents
  have hlines : samplePoll events = _ := curlXLines_clusGetCb hok hnames (c := sampleClus) rfl
    isToken_none isToken_samplePrintf0 (fun _ => 0) hfits
  refine ⟨hlines, ?_⟩
  rw [hlines]
  exact lineReports_clusLines hok hnames rfl isToken_none isToken_samplePrintf0
    sampleEnv.strtod hfits

/-- The client polls the cluster before and after the second host joins, and still
counts one host of the job. -/
theorem host_count_stale :
    Daemon.boot sampleEnv sampleConfig = some sampleDaemon ∧
      (sampleDaemon.run sampleEnv sampleJoining).xLookup .clus (lit "NONE") =
        some sampleClus ∧
      ¬ Mirrors sampleEnv.strtod samplePrintf0 (sampleDaemon.run sampleEnv sampleJoining)
        sampleClus
        (((xlInit 0 0 : XlState ℚ).run sampleEnv.strtod
          ([samplePoll (sampleJoining.take 1)].map fun lines =>
            ⟨lit "NONE", some lines⟩)).poll sampleEnv.strtod
              ⟨lit "NONE", some (samplePoll sampleJoining)⟩) := by
  have hfirst := (@samplePoll_eq (sampleJoining.take 1)
    (fun event hevent => plain_sampleJoining event (List.mem_of_mem_take hevent))
    (by decide +kernel)).1
  have hsecond := (samplePoll_eq plain_sampleJoining (by decide +kernel)).2
  have hok := reached_ok boot_sample sampleJoining
  refine ⟨boot_sample, by decide +kernel, fun hmirrors => ?_⟩
  have hsteady := (mirrors_of_lines sampleEnv.strtod hok (c := sampleClus) rfl hsecond 0 0 _).1
    hmirrors
  rw [hfirst] at hsteady
  have hcount := congrArg Report.nrHosts (hsteady
    (⟨6, .job, strHash (lit "2255@NONE"), lit "2255@NONE"⟩,
      ⟨7, .host, strHash (lit "i101"), lit "i101"⟩) (by decide +kernel)
    ⟨lit "root", lit "run", 0, 1⟩ (by decide +kernel))
  revert hcount
  decide +kernel

end Mirror

end Xltop.Client
