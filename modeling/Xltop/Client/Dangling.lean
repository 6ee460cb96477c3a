import Xltop.Client.Poll
import Xltop.Library.MarkSweep

/-!
# When job pointers dangle

A poll is a mark and sweep over the jobs of its cluster.  It leaves a pointer
dangling exactly when it names neither the host nor the job of that pointer.
-/

namespace Xltop.Client

open Function
open Xltop.Hash
open Xltop.MarkSweep
open Xltop.Text

/-- The host and the job that a line of six words names. -/
def lineNames (m : CString) : Option (CString × CString) :=
  match (split 6 (some m)).1 with
  | [sHost, sJob, _, _, _, _] => some (sHost, sJob)
  | _ => none

/-- The lines that a poll delivers. -/
def Poll.lines (p : Poll) : List CString :=
  p.reply.getD []

namespace XlState

variable {D : Type*}

/-- The `h_job` of every host is NULL or points to a job of the job table. -/
def JobsValid (s : XlState D) : Prop :=
  ∀ h ∈ s.xlHost.toList, ∀ r, h.hJob = some r → ∃ j ∈ s.xlJob.toList, j.jRef = r

/-- A poll names every host whose job is on the list of the cluster, or names
its job. -/
def Covers (s : XlState D) (p : Poll) : Prop :=
  ∀ h ∈ s.xlHost.toList, ∀ j ∈ s.xlJob.toList, h.hJob = some j.jRef →
    j.jRef ∈ s.cJobList p.clus →
      ∃ m ∈ p.lines, ∃ named ∈ lineNames m, named.1 = h.hName ∨ named.2 = j.jName

/-! ## The tables as maps -/

def pointer (s : XlState D) (h : CString) : Option JobRef :=
  (s.findHost h).bind XlHost.hJob

def ref (s : XlState D) (n : CString) : Option JobRef :=
  (s.findJob n).map XlJob.jRef

/-- What holds of a client at any time: an address belongs to one job, and the
lists contain addresses of jobs. -/
structure Ok (s : XlState D) : Prop where
  hosts : s.xlHost.Keyed XlHost.hName strHash
  jobs : s.xlJob.Keyed XlJob.jName strHash
  fresh : ∀ {n r}, s.ref n = some r → r < s.nextRef
  unique : ∀ {n n' r}, s.ref n = some r → s.ref n' = some r → n = n'
  listed : ∀ {c r}, r ∈ s.cJobList c → ∃ n, s.ref n = some r
  tmp : ∀ {r}, r ∈ s.tmpList → ∃ n, s.ref n = some r
  disjoint : ∀ {c c' r}, r ∈ s.cJobList c → r ∈ s.cJobList c' → c = c'
  apart : ∀ {c r}, r ∈ s.tmpList → r ∉ s.cJobList c

/-- No pointer dangles. -/
def Pointed (s : XlState D) : Prop :=
  ∀ h r, s.pointer h = some r → ∃ n, s.ref n = some r

/-- The client between the start and the sweep of a poll. -/
def phase (s : XlState D) : Phase CString JobRef :=
  ⟨s.pointer, fun r => r ∈ s.tmpList⟩

variable {s : XlState D}

theorem Ok.mem_hosts (h : s.Ok) {host : XlHost} :
    host ∈ s.xlHost.toList ↔ s.findHost host.hName = some host :=
  h.hosts.mem_toList

theorem Ok.mem_jobs (h : s.Ok) {j : XlJob D} :
    j ∈ s.xlJob.toList ↔ s.findJob j.jName = some j :=
  h.jobs.mem_toList

/-- The jobs in the table, by name and address. -/
theorem Ok.exists_job (h : s.Ok) {r : JobRef} {P : CString → Prop} :
    (∃ j ∈ s.xlJob.toList, j.jRef = r ∧ P j.jName) ↔ ∃ n, s.ref n = some r ∧ P n := by
  constructor
  · rintro ⟨j, hj, rfl, hp⟩
    exact ⟨j.jName, by rw [ref, h.mem_jobs.1 hj, Option.map_some], hp⟩
  · rintro ⟨n, hn, hp⟩
    obtain ⟨j, hj, rfl⟩ := Option.map_eq_some_iff.1 hn
    have hname : j.jName = n := HashTable.lookup_key hj
    rw [← hname] at hj hp
    exact ⟨j, h.mem_jobs.2 hj, rfl, hp⟩

theorem Ok.pointer_iff (h : s.Ok) {name : CString} {r : JobRef} :
    s.pointer name = some r ↔
      ∃ host ∈ s.xlHost.toList, host.hName = name ∧ host.hJob = some r := by
  rw [pointer, Option.bind_eq_some_iff]
  constructor
  · rintro ⟨host, hhost, hjob⟩
    have hname : host.hName = name := HashTable.lookup_key hhost
    rw [← hname] at hhost
    exact ⟨host, h.mem_hosts.2 hhost, hname, hjob⟩
  · rintro ⟨host, hhost, rfl, hjob⟩
    exact ⟨host, h.mem_hosts.1 hhost, hjob⟩

theorem Ok.jobsValid_iff (h : s.Ok) : s.JobsValid ↔ s.Pointed := by
  have hjob : ∀ r, (∃ j ∈ s.xlJob.toList, j.jRef = r) ↔ ∃ n, s.ref n = some r :=
    fun r => by simpa using h.exists_job (r := r) (P := fun _ => True)
  constructor
  · intro hvalid name r hpointer
    obtain ⟨host, hhost, -, hr⟩ := h.pointer_iff.1 hpointer
    exact (hjob r).1 (hvalid host hhost r hr)
  · intro hpointed host hhost r hr
    exact (hjob r).2 (hpointed _ r (h.pointer_iff.2 ⟨host, hhost, rfl, hr⟩))

theorem Ok.congr (h : s.Ok) {s' : XlState D} (hhosts : s'.xlHost.Keyed XlHost.hName strHash)
    (hjobs : s'.xlJob.Keyed XlJob.jName strHash) (href : s'.ref = s.ref)
    (hnext : s'.nextRef = s.nextRef) (hlists : s'.cJobList = s.cJobList)
    (htmp : s'.tmpList = s.tmpList) : s'.Ok where
  hosts := hhosts
  jobs := hjobs
  fresh := by
    rw [href, hnext]
    exact h.fresh
  unique := by
    rw [href]
    exact h.unique
  listed := by
    rw [href, hlists]
    exact h.listed
  tmp := by
    rw [href, htmp]
    exact h.tmp
  disjoint := by
    rw [hlists]
    exact h.disjoint
  apart := by
    rw [hlists, htmp]
    exact h.apart

/-! ## Steps of a line -/

/-- A host without a job changes no pointer. -/
theorem Ok.xlLookupHost (h : s.Ok) (name : CString) :
    (s.xlLookupHost name).Ok ∧ (s.xlLookupHost name).phase = s.phase ∧
      (s.xlLookupHost name).ref = s.ref ∧ ∃ host, (s.xlLookupHost name).findHost name =
        some host := by
  rw [XlState.xlLookupHost]
  split
  · next host hfound => exact ⟨h, rfl, rfl, host, hfound⟩
  · next hnone =>
      have hlookup := HashTable.lookup_addHead XlHost.hName strHash s.xlHost ⟨none, name⟩
      have hpointer : pointer { s with
          xlHost := s.xlHost.addHead (strHash name) ⟨none, name⟩ } = s.pointer := by
        funext k
        rw [pointer, pointer, findHost, hlookup]
        split
        · next heq =>
            rw [heq, hnone]
            rfl
        · rfl
      refine ⟨{ h with hosts := h.hosts.addHead (a := ⟨none, name⟩) hnone }, ?_, rfl,
        ⟨none, name⟩, ?_⟩
      · rw [phase, hpointer]
        rfl
      · rw [findHost, hlookup, if_pos rfl]

theorem Ok.setHostJob (h : s.Ok) {name : CString} {host : XlHost}
    (hhost : s.findHost name = some host) (r : JobRef) :
    (s.setHostJob name r).Ok ∧
      (s.setHostJob name r).pointer = update s.pointer name (some r) := by
  have hkey : ∀ h : XlHost, ({ h with hJob := some r } : XlHost).hName = h.hName :=
    fun _ => rfl
  refine ⟨{ h with hosts := h.hosts.modify hkey name }, ?_⟩
  funext k
  rw [pointer, findHost, XlState.setHostJob,
    HashTable.lookup_modify XlHost.hName strHash s.xlHost hkey]
  rw [findHost] at hhost
  by_cases hk : k = name
  · rw [if_pos hk, hk, hhost, update_self]
    rfl
  · rw [if_neg hk, update_of_ne hk]
    rfl

/-- A new job gets a new address. -/
theorem Ok.xlLookupJob [Zero D] (h : s.Ok) (n : CString) :
    (s.xlLookupJob n).2.Ok ∧ (s.xlLookupJob n).2.phase = s.phase ∧
      (s.xlLookupJob n).2.findHost = s.findHost ∧
      (s.xlLookupJob n).2.ref = update s.ref n (some (s.xlLookupJob n).1.jRef) ∧
      ∀ r, s.ref n = some r → r = (s.xlLookupJob n).1.jRef := by
  rw [XlState.xlLookupJob]
  split
  · next j hfound =>
      have href : s.ref n = some j.jRef := by rw [ref, hfound, Option.map_some]
      refine ⟨h, rfl, rfl, ?_, fun r hr => ?_⟩
      · rw [← href, update_eq_self]
      · rw [href] at hr
        exact (Option.some.inj hr).symm
  · next hnone =>
      have hnone' : s.ref n = none := by rw [ref, hnone, Option.map_none]
      have href : ref { s with
          xlJob := s.xlJob.addHead (strHash n) ⟨s.nextRef, false, none, none, 0, 0, n⟩
          nextRef := s.nextRef + 1 } = update s.ref n (some s.nextRef) := by
        funext k
        rw [ref, findJob, HashTable.lookup_addHead XlJob.jName strHash s.xlJob
          ⟨s.nextRef, false, none, none, 0, 0, n⟩]
        by_cases hk : k = n
        · rw [if_pos hk, hk, update_self, Option.map_some]
        · rw [if_neg hk, update_of_ne hk]
          rfl
      have hkept : ∀ {k r}, s.ref k = some r → update s.ref n (some s.nextRef) k = some r := by
        intro k r hk
        rw [update_of_ne, hk]
        rintro rfl
        rw [hnone'] at hk
        cases hk
      have hcases : ∀ {k r}, update s.ref n (some s.nextRef) k = some r →
          (k = n ∧ r = s.nextRef) ∨ s.ref k = some r := by
        intro k r hk
        by_cases heq : k = n
        · rw [heq, update_self] at hk
          exact .inl ⟨heq, (Option.some.inj hk).symm⟩
        · rw [update_of_ne heq] at hk
          exact .inr hk
      refine ⟨?_, rfl, rfl, href, fun r hr => ?_⟩
      · have hjobs := h.jobs.addHead (a := ⟨s.nextRef, false, none, none, 0, 0, n⟩) hnone
        refine ⟨h.hosts, hjobs, ?_, ?_, fun hr => ?_, fun hr => ?_, h.disjoint, h.apart⟩
        · rw [href]
          intro k r hk
          rcases hcases hk with ⟨-, rfl⟩ | hold
          · exact Nat.lt_succ_self _
          · exact Nat.lt_succ_of_lt (h.fresh hold)
        · rw [href]
          intro k k' r hk hk'
          rcases hcases hk with ⟨rfl, rfl⟩ | hold <;>
            rcases hcases hk' with ⟨rfl, hr⟩ | hold'
          · rfl
          · exact absurd (h.fresh hold') (lt_irrefl _)
          · exact absurd (h.fresh (hr ▸ hold)) (lt_irrefl _)
          · exact h.unique hold hold'
        · obtain ⟨k, hk⟩ := h.listed hr
          exact ⟨k, by rw [href]; exact hkept hk⟩
        · obtain ⟨k, hk⟩ := h.tmp hr
          exact ⟨k, by rw [href]; exact hkept hk⟩
      · rw [hnone'] at hr
        cases hr

theorem Ok.initJob (h : s.Ok) (n owner title : CString) (start : D) (nrHosts : ℕ) :
    (s.initJob n owner title start nrHosts).Ok ∧
      (s.initJob n owner title start nrHosts).ref = s.ref := by
  have hkey : ∀ j : XlJob D, ({ j with
      jLinked := true
      jOwner := some owner
      jTitle := some title
      jStart := start
      jNrHosts := nrHosts } : XlJob D).jName = j.jName := fun _ => rfl
  have href : (s.initJob n owner title start nrHosts).ref = s.ref := by
    funext k
    rw [ref, findJob, XlState.initJob,
      HashTable.lookup_modify XlJob.jName strHash s.xlJob hkey]
    split
    · next heq =>
        rw [heq, Option.map_map]
        rfl
    · rfl
  exact ⟨h.congr h.hosts (h.jobs.modify hkey n) href rfl rfl rfl, href⟩

theorem mem_listMove {r r' : JobRef} {c c' : CString} :
    r' ∈ (s.listMove r c).cJobList c' ↔
      (r' = r ∧ c' = c) ∨ (r' ∈ s.cJobList c' ∧ r' ≠ r) := by
  change r' ∈ update (fun c => (s.cJobList c).filter (· != r)) c _ c' ↔ _
  by_cases hc : c' = c
  · rw [hc, update_self, List.mem_cons, List.mem_filter, bne_iff_ne]
    simp
  · rw [update_of_ne hc, List.mem_filter, bne_iff_ne]
    simp [hc]

theorem mem_tmp_listMove {r r' : JobRef} {c : CString} :
    r' ∈ (s.listMove r c).tmpList ↔ r' ∈ s.tmpList ∧ r' ≠ r := by
  rw [listMove, List.mem_filter, bne_iff_ne]

theorem Ok.listMove (h : s.Ok) {n : CString} {r : JobRef} (hr : s.ref n = some r)
    (c : CString) : (s.listMove r c).Ok where
  hosts := h.hosts
  jobs := h.jobs
  fresh := h.fresh
  unique := h.unique
  listed hr' := by
    rcases mem_listMove.1 hr' with ⟨rfl, -⟩ | ⟨hold, -⟩
    · exact ⟨n, hr⟩
    · exact h.listed hold
  tmp hr' := h.tmp (mem_tmp_listMove.1 hr').1
  disjoint hr' hr'' := by
    rcases mem_listMove.1 hr' with ⟨rfl, rfl⟩ | ⟨hold, hne⟩ <;>
      rcases mem_listMove.1 hr'' with ⟨heq, rfl⟩ | ⟨hold', hne'⟩
    · rfl
    · exact absurd rfl hne'
    · exact absurd heq hne
    · exact h.disjoint hold hold'
  apart hr' hr'' := by
    obtain ⟨htmp, hne⟩ := mem_tmp_listMove.1 hr'
    rcases mem_listMove.1 hr'' with ⟨heq, -⟩ | ⟨hold, -⟩
    · exact hne heq
    · exact h.apart htmp hold

/-! ## Lines -/

/-- What the delivered lines do: each sets the pointer of its host to its job,
and takes the job off the `tmp_list`. -/
structure Delivered (s s' : XlState D) (named : List (CString × CString)) : Prop where
  ok : s'.Ok
  phase : s'.phase =
    (named.map fun l => (l.1, (s'.ref l.2).getD 0)).foldl mark s.phase
  known : ∀ l ∈ named, ∃ r, s'.ref l.2 = some r
  kept : ∀ {n r}, s.ref n = some r → s'.ref n = some r
  pointed : s.Pointed → s'.Pointed

/-- The line ends with the job on the list of the cluster. -/
theorem Ok.delivered {s₁ : XlState D} (h : s₁.Ok) {host n : CString} {r : JobRef}
    (hpointer : s₁.pointer = update s.pointer host (some r))
    (hdoomed : s₁.phase.doomed = s.phase.doomed)
    (href : s₁.ref = update s.ref n (some r)) (hsame : ∀ r', s.ref n = some r' → r' = r)
    (c : CString) : Delivered s (s₁.listMove r c) [(host, n)] := by
  have hn : s₁.ref n = some r := by rw [href, update_self]
  have hkept : ∀ {k r'}, s.ref k = some r' → s₁.ref k = some r' := by
    intro k r' hk
    rw [href]
    by_cases heq : k = n
    · rw [heq, update_self, hsame r' (heq ▸ hk)]
    · rw [update_of_ne heq, hk]
  refine ⟨h.listMove hn c, ?_, fun l hl => ?_, hkept, fun hpointed k r' hk => ?_⟩
  · have hn' : (s₁.listMove r c).ref n = some r := hn
    rw [List.map_singleton, List.foldl_cons, List.foldl_nil, hn', Option.getD_some, mark,
      ← hdoomed]
    refine congrArg₂ Phase.mk hpointer (Set.ext fun r' => ?_)
    rw [Set.mem_sdiff, Set.mem_singleton_iff]
    exact mem_tmp_listMove
  · rw [List.mem_singleton.1 hl]
    exact ⟨r, hn⟩
  · change s₁.pointer k = some r' at hk
    rw [hpointer] at hk
    by_cases heq : k = host
    · rw [heq, update_self] at hk
      exact ⟨n, hk ▸ hn⟩
    · rw [update_of_ne heq] at hk
      obtain ⟨k', hk'⟩ := hpointed k r' hk
      exact ⟨k', hkept hk'⟩

theorem Ok.delivered_nil (h : s.Ok) : Delivered s s [] where
  ok := h
  phase := rfl
  known _ hl := absurd hl List.not_mem_nil
  kept hn := hn
  pointed hpointed := hpointed

theorem Delivered.trans {s₁ s₂ : XlState D} {named named' : List (CString × CString)}
    (h : Delivered s s₁ named) (h' : Delivered s₁ s₂ named') :
    Delivered s s₂ (named ++ named') where
  ok := h'.ok
  phase := by
    have hmarks : (named.map fun l => (l.1, (s₂.ref l.2).getD 0)) =
        named.map fun l => (l.1, (s₁.ref l.2).getD 0) := by
      refine List.map_congr_left fun l hl => ?_
      obtain ⟨r, hr⟩ := h.known l hl
      rw [hr, h'.kept hr]
    rw [List.map_append, List.foldl_append, hmarks, ← h.phase, ← h'.phase]
  known l hl := by
    rcases List.mem_append.1 hl with hfirst | hsecond
    · obtain ⟨r, hr⟩ := h.known l hfirst
      exact ⟨r, h'.kept hr⟩
    · exact h'.known l hsecond
  kept hn := h'.kept (h.kept hn)
  pointed hpointed := h'.pointed (h.pointed hpointed)

/-- A line that names a host and a job has six words. -/
theorem words_of_lineNames {m host n : CString} (hm : lineNames m = some (host, n)) :
    ∃ owner title start nrHosts,
      (split 6 (some m)).1 = [host, n, owner, title, start, nrHosts] := by
  rw [lineNames] at hm
  split at hm
  · next hwords =>
      cases hm
      exact ⟨_, _, _, _, hwords⟩
  · cases hm

variable [Zero D] (strtod : CString → D)

theorem Ok.xlClusMsgCb (h : s.Ok) (c : CString) {m host n : CString}
    (hm : lineNames m = some (host, n)) :
    Delivered s (xlClusMsgCb strtod c s m) [(host, n)] := by
  obtain ⟨owner, title, sStart, sNrHosts, hwords⟩ := words_of_lineNames hm
  rw [Client.xlClusMsgCb, hwords]
  obtain ⟨hok₁, hphase₁, href₁, found, hfound₁⟩ := h.xlLookupHost host
  simp only
  generalize s.xlLookupHost host = s₁ at hok₁ hphase₁ href₁ hfound₁ ⊢
  obtain ⟨hok₂, hphase₂, hhosts₂, href₂, hsame₂⟩ := hok₁.xlLookupJob n
  generalize s₁.xlLookupJob n = found at hok₂ hphase₂ hhosts₂ href₂ hsame₂ ⊢
  obtain ⟨j, s₂⟩ := found
  simp only at hok₂ hphase₂ hhosts₂ href₂ hsame₂ ⊢
  rw [← hhosts₂] at hfound₁
  obtain ⟨hok₃, hpointer₃⟩ := hok₂.setHostJob hfound₁ j.jRef
  have hphase : s₂.phase = s.phase := hphase₂.trans hphase₁
  have hpointer : s₂.pointer = s.pointer := congrArg Phase.pointer hphase
  have hdoomed : s₂.phase.doomed = s.phase.doomed := congrArg Phase.doomed hphase
  rw [hpointer] at hpointer₃
  rw [href₁] at href₂ hsame₂
  split
  · exact hok₃.delivered hpointer₃ hdoomed href₂ hsame₂ c
  · obtain ⟨hok₄, href₄⟩ := hok₃.initJob n owner title (strtod sStart)
      (strtoulAuto sNrHosts)
    exact hok₄.delivered hpointer₃ hdoomed (href₄.trans href₂) hsame₂ c

/-- A line that is too short does nothing. -/
theorem xlClusMsgCb_of_none {m : CString} (hm : lineNames m = none) (c : CString) :
    xlClusMsgCb strtod c s m = s := by
  rw [Client.xlClusMsgCb]
  split
  · next hwords =>
      rw [lineNames, hwords] at hm
      cases hm
  · rfl

theorem Ok.lines (h : s.Ok) (c : CString) (lines : List CString) :
    Delivered s (lines.foldl (Client.xlClusMsgCb strtod c) s)
      (lines.filterMap lineNames) := by
  induction lines generalizing s with
  | nil => exact h.delivered_nil
  | cons m rest ih =>
      cases hm : lineNames m with
      | none =>
          rw [List.filterMap_cons_none hm, List.foldl_cons,
            xlClusMsgCb_of_none strtod hm]
          exact ih h
      | some named =>
          obtain ⟨host, n⟩ := named
          have hline := h.xlClusMsgCb strtod c hm
          rw [List.filterMap_cons_some hm, List.foldl_cons]
          exact hline.trans (ih hline.ok)

/-! ## The sweep -/

omit [Zero D] in
theorem Ok.freeJob_ref (h : s.Ok) {r r' : JobRef} {n : CString} :
    (s.freeJob r).ref n = some r' ↔ s.ref n = some r' ∧ r' ≠ r := by
  rw [ref, findJob, XlState.freeJob, h.jobs.lookup_remove, ref, findJob]
  cases s.xlJob.lookup XlJob.jName strHash n with
  | none => simp
  | some j =>
      by_cases hj : j.jRef = r
      · simp [Option.filter_some, hj]
        rintro rfl
        rfl
      · simp [Option.filter_some, hj]
        rintro rfl
        exact hj

section Sweep

omit [Zero D]

theorem Ok.freeJob (h : s.Ok) (htmp : s.tmpList = []) {r : JobRef}
    (hr : ∀ c, r ∉ s.cJobList c) : (s.freeJob r).Ok where
  hosts := h.hosts
  jobs := h.jobs.remove _
  fresh hn := h.fresh (h.freeJob_ref.1 hn).1
  unique hn hn' := h.unique (h.freeJob_ref.1 hn).1 (h.freeJob_ref.1 hn').1
  listed {c r'} hr' := by
    obtain ⟨n, hn⟩ := h.listed hr'
    refine ⟨n, h.freeJob_ref.2 ⟨hn, ?_⟩⟩
    rintro rfl
    exact hr c hr'
  tmp hr' := by
    change _ ∈ s.tmpList at hr'
    rw [htmp] at hr'
    exact absurd hr' List.not_mem_nil
  disjoint := h.disjoint
  apart := h.apart

/-- Between two polls, the `tmp_list` is empty. -/
structure Idle (s : XlState D) : Prop extends s.Ok where
  rest : s.tmpList = []

theorem Idle.freeAll (h : s.Idle) {refs : List JobRef}
    (hrefs : ∀ r ∈ refs, ∀ c, r ∉ s.cJobList c) :
    (refs.foldl XlState.freeJob s).Idle ∧
      (refs.foldl XlState.freeJob s).pointer = s.pointer ∧
      ∀ n r, (refs.foldl XlState.freeJob s).ref n = some r ↔
        s.ref n = some r ∧ r ∉ refs := by
  induction refs generalizing s with
  | nil => exact ⟨h, rfl, fun n r => by simp⟩
  | cons r₀ refs ih =>
      rw [List.forall_mem_cons] at hrefs
      have hfree : (s.freeJob r₀).Idle := ⟨h.freeJob h.rest hrefs.1, h.rest⟩
      obtain ⟨hidle, hpointer, href⟩ := ih hfree hrefs.2
      refine ⟨hidle, hpointer, fun n r => ?_⟩
      rw [List.foldl_cons, href, h.freeJob_ref, List.mem_cons, not_or, and_assoc]

/-- Exactly the jobs of the `tmp_list` are freed. -/
theorem Ok.sweep (h : s.Ok) :
    s.sweep.Idle ∧ s.sweep.pointer = s.pointer ∧
      ∀ n r, s.sweep.ref n = some r ↔ s.ref n = some r ∧ r ∉ s.tmpList := by
  have hidle : Idle { s with tmpList := [] } :=
    { h with
      tmp := fun hr => absurd hr List.not_mem_nil
      apart := fun hr => absurd hr List.not_mem_nil
      rest := rfl }
  exact hidle.freeAll fun r hr c => h.apart hr

theorem Idle.splice (h : s.Idle) (c : CString) : (s.splice c).Ok where
  hosts := h.hosts
  jobs := h.jobs
  fresh := h.fresh
  unique := h.unique
  listed {c' r} hr := by
    change r ∈ update s.cJobList c [] c' at hr
    by_cases hc : c' = c
    · rw [hc, update_self] at hr
      exact absurd hr List.not_mem_nil
    · rw [update_of_ne hc] at hr
      exact h.listed hr
  tmp hr := h.listed hr
  disjoint {c' c'' r} hr hr' := by
    change r ∈ update s.cJobList c [] c' at hr
    change r ∈ update s.cJobList c [] c'' at hr'
    by_cases hc : c' = c
    · rw [hc, update_self] at hr
      exact absurd hr List.not_mem_nil
    · by_cases hc' : c'' = c
      · rw [hc', update_self] at hr'
        exact absurd hr' List.not_mem_nil
      · rw [update_of_ne hc] at hr
        rw [update_of_ne hc'] at hr'
        exact h.disjoint hr hr'
  apart {c' r} hr hr' := by
    change r ∈ update s.cJobList c [] c' at hr'
    by_cases hc : c' = c
    · rw [hc, update_self] at hr'
      exact absurd hr' List.not_mem_nil
    · rw [update_of_ne hc] at hr'
      exact hc (h.disjoint hr' hr)

theorem Ok.covers_iff (h : s.Ok) {p : Poll} :
    s.Covers p ↔ ∀ host n r, s.pointer host = some r → s.ref n = some r →
      r ∈ s.cJobList p.clus →
        ∃ named ∈ p.lines.filterMap lineNames, named.1 = host ∨ named.2 = n := by
  constructor
  · intro hcovers host n r hpointer href hr
    obtain ⟨xh, hxh, rfl, hjob⟩ := h.pointer_iff.1 hpointer
    obtain ⟨j, hj, rfl, rfl⟩ := h.exists_job.2 ⟨n, href, rfl⟩
    obtain ⟨m, hm, named, hnamed, hcase⟩ := hcovers xh hxh j hj hjob hr
    exact ⟨named, List.mem_filterMap.2 ⟨m, hm, hnamed⟩, hcase⟩
  · intro hall xh hxh j hj hjob hr
    have hpointer := h.pointer_iff.2 ⟨xh, hxh, rfl, hjob⟩
    obtain ⟨n, href, rfl⟩ := (h.exists_job (P := (j.jName = ·))).1 ⟨j, hj, rfl, rfl⟩
    obtain ⟨named, hnamed, hcase⟩ := hall _ _ _ hpointer href hr
    obtain ⟨m, hm, hline⟩ := List.mem_filterMap.1 hnamed
    exact ⟨m, hm, named, hline, hcase⟩

end Sweep

/-! ## Polls -/

theorem Idle.poll (h : s.Idle) (p : Poll) : (s.poll strtod p).Idle :=
  ((h.splice p.clus).lines strtod p.clus p.lines).ok.sweep.1

/-- A poll leaves every pointer valid if and only if it names the host or the job
of each pointer to a job of its cluster. -/
theorem Idle.poll_pointed_iff (h : s.Idle) (hpointed : s.Pointed) (p : Poll) :
    (s.poll strtod p).Pointed ↔ s.Covers p := by
  have hlines := (h.splice p.clus).lines strtod p.clus p.lines
  change (XlState.sweep (p.lines.foldl (Client.xlClusMsgCb strtod p.clus)
    (s.splice p.clus))).Pointed ↔ _
  generalize p.lines.foldl (Client.xlClusMsgCb strtod p.clus) (s.splice p.clus) = s₁
    at hlines ⊢
  obtain ⟨-, hpointer, href⟩ := hlines.ok.sweep
  have hdangles : ∀ {host r}, s₁.pointer host = some r ∧ r ∈ s₁.tmpList ↔
      (s.pointer host = some r ∧ r ∈ s.cJobList p.clus) ∧
        ∀ named ∈ p.lines.filterMap lineNames,
          named.1 ≠ host ∧ (s₁.ref named.2).getD 0 ≠ r := by
    intro host r
    change s₁.phase.pointer host = some r ∧ r ∈ s₁.phase.doomed ↔ _
    rw [hlines.phase, marks_dangle, List.forall_mem_map]
    rfl
  have hnames : ∀ {n r}, s.ref n = some r → ∀ named ∈ p.lines.filterMap lineNames,
      ((s₁.ref named.2).getD 0 = r ↔ named.2 = n) := by
    intro n r hn named hnamed
    obtain ⟨r', hr'⟩ := hlines.known named hnamed
    have hn' : s₁.ref n = some r := hlines.kept hn
    rw [hr', Option.getD_some]
    constructor
    · rintro rfl
      exact hlines.ok.unique hr' hn'
    · rintro rfl
      exact Option.some.inj (hr'.symm.trans hn')
  rw [h.covers_iff]
  constructor
  · intro hvalid host n r hhost hn hr
    by_contra hnone
    push Not at hnone
    have hdangle := hdangles.2 ⟨⟨hhost, hr⟩, fun named hnamed =>
      ⟨(hnone named hnamed).1, (hnames hn named hnamed).not.2 (hnone named hnamed).2⟩⟩
    obtain ⟨n', hn'⟩ := hvalid host r (hpointer ▸ hdangle.1)
    exact ((href n' r).1 hn').2 hdangle.2
  · intro hcovers host r hhost
    rw [hpointer] at hhost
    obtain ⟨n, hn⟩ := hlines.pointed hpointed host r hhost
    refine ⟨n, (href n r).2 ⟨hn, fun hr => ?_⟩⟩
    obtain ⟨⟨hhost', hlisted⟩, hnone⟩ := hdangles.1 ⟨hhost, hr⟩
    obtain ⟨n', hn'⟩ := hpointed host r hhost'
    obtain ⟨named, hnamed, hcase⟩ := hcovers host n' r hhost' hn' hlisted
    rcases hcase with hsame | hsame
    · exact (hnone named hnamed).1 hsame
    · exact (hnone named hnamed).2 ((hnames hn' named hnamed).2 hsame)

omit [Zero D] in
/-- `c_get_nr_hosts` never reads a freed job when every `h_job` is valid. -/
theorem JobsValid.cGetNrHosts (h : s.JobsValid) (k : XlK) :
    s.cGetNrHosts k ≠ some none := by
  have hjob : ∀ {r}, (∃ j ∈ s.xlJob.toList, j.jRef = r) → s.job r ≠ none := by
    rintro r ⟨j, hj, hr⟩ hnone
    exact List.find?_eq_none.1 hnone j hj (decide_eq_true hr)
  intro hfreed
  obtain ⟨r, hr, hread⟩ := Option.map_eq_some_iff.1 hfreed
  rw [Option.map_eq_none_iff] at hread
  refine hjob ?_ hread
  rw [kGetJob] at hr
  split at hr
  · obtain ⟨host, hhost, hpointer⟩ := Option.bind_eq_some_iff.1 hr
    exact h host (HashTable.mem_toList_of_lookup hhost) r hpointer
  · obtain ⟨j, hj, hr⟩ := Option.map_eq_some_iff.1 hr
    exact ⟨j, HashTable.mem_toList_of_lookup hj, hr⟩
  · cases hr

omit [Zero D] in
theorem idle_init (hintHost hintJob : UInt64) :
    (xlInit hintHost hintJob : XlState D).Idle ∧
      (xlInit hintHost hintJob : XlState D).Pointed :=
  ⟨{ hosts := HashTable.keyed_init _
     jobs := HashTable.keyed_init _
     fresh := fun hn => nomatch hn
     unique := fun hn => nomatch hn
     listed := fun hr => absurd hr List.not_mem_nil
     tmp := fun hr => absurd hr List.not_mem_nil
     disjoint := fun hr => absurd hr List.not_mem_nil
     apart := fun hr => absurd hr List.not_mem_nil
     rest := rfl },
    fun _ _ hpointer => nomatch hpointer⟩

end XlState

/-! ## Runs -/

variable {D : Type*} [Zero D] (strtod : CString → D)

theorem run_concat (s : XlState D) (polls : List Poll) (p : Poll) :
    s.run strtod (polls ++ [p]) = (s.run strtod polls).poll strtod p :=
  List.foldl_concat _ _ _ _

theorem run_idle (hintHost hintJob : UInt64) (polls : List Poll) :
    ((xlInit hintHost hintJob : XlState D).run strtod polls).Idle := by
  induction polls using List.reverseRecOn with
  | nil => exact (XlState.idle_init hintHost hintJob).1
  | append_singleton polls p ih =>
      rw [run_concat]
      exact ih.poll strtod p

/-- A run whose polls all name the host or the job of each pointer to a job of
their cluster. -/
theorem run_pointed (hintHost hintJob : UInt64) {polls : List Poll}
    (hcovers : ∀ done p, done ++ [p] <+: polls →
      ((xlInit hintHost hintJob : XlState D).run strtod done).Covers p) :
    ((xlInit hintHost hintJob : XlState D).run strtod polls).Pointed := by
  induction polls using List.reverseRecOn with
  | nil => exact (XlState.idle_init hintHost hintJob).2
  | append_singleton polls p ih =>
      have hpointed := ih fun done p' hdone =>
        hcovers done p' (hdone.trans (List.prefix_append _ _))
      rw [run_concat, (run_idle strtod hintHost hintJob polls).poll_pointed_iff strtod
        hpointed]
      exact hcovers polls p List.prefix_rfl

/-- In a run of polls, every `h_job` is NULL or points to a job of the job table
after every poll, and no freed job is read, if and only if every poll names each
host whose job is on the list of its cluster, or names that job. -/
theorem job_pointers_valid_iff (hintHost hintJob : UInt64) (polls : List Poll) :
    (∀ done, done <+: polls →
      ((xlInit hintHost hintJob : XlState D).run strtod done).JobsValid ∧
        ∀ k, ((xlInit hintHost hintJob : XlState D).run strtod done).cGetNrHosts k ≠
          some none) ↔
      ∀ done p, done ++ [p] <+: polls →
        ((xlInit hintHost hintJob : XlState D).run strtod done).Covers p := by
  have hidle := run_idle (D := D) strtod hintHost hintJob
  constructor
  · intro hvalid done p hdone
    have hbefore := (hvalid done ((List.prefix_append _ _).trans hdone)).1
    have hafter := (hvalid (done ++ [p]) hdone).1
    rw [(hidle _).jobsValid_iff] at hbefore hafter
    rw [run_concat] at hafter
    exact ((hidle done).poll_pointed_iff strtod hbefore p).1 hafter
  · intro hcovers done hdone
    have hpointed := run_pointed strtod hintHost hintJob fun done' p hp =>
      hcovers done' p (hp.trans hdone)
    have hvalid := (hidle done).jobsValid_iff.2 hpointed
    exact ⟨hvalid, hvalid.cGetNrHosts⟩

/-- One poll that names a host and its job, and one that fails. -/
theorem failed_poll_dangles :
    ¬ ((xlInit 0 0 : XlState ℕ).run strtoul
      [⟨lit "ranger", some [lit "i101 2255@ranger root job 0 1"]⟩,
        ⟨lit "ranger", none⟩]).JobsValid ∧
      ((xlInit 0 0 : XlState ℕ).run strtoul
        [⟨lit "ranger", some [lit "i101 2255@ranger root job 0 1"]⟩,
          ⟨lit "ranger", none⟩]).cGetNrHosts ⟨fun _ => lit "i101", fun _ => .host⟩ =
        some none := by
  have hfreed : ((xlInit 0 0 : XlState ℕ).run strtoul
      [⟨lit "ranger", some [lit "i101 2255@ranger root job 0 1"]⟩,
        ⟨lit "ranger", none⟩]).cGetNrHosts ⟨fun _ => lit "i101", fun _ => .host⟩ =
      some none := by
    decide +kernel
  exact ⟨fun hvalid => hvalid.cGetNrHosts _ hfreed, hfreed⟩

end Xltop.Client
