import Xltop.Master.Names
import Xltop.Core.Decimal
import Xltop.Core.NBuf

/-!
# The listing of a cluster

A GET of a cluster lists its hosts, one on a line, with their jobs.  As names are
words, `split` cuts each line back into its six fields.
-/

namespace Xltop.Master

open Xltop.Buffer
open Xltop.Text

variable {R : Type*}

/-- `clus_get_cb`, where `printf0` is the format `%.0f`. -/
def clusGetCb [Zero R] (printf0 : R → CString) (m : Daemon R) (c : XNode) (nb : NBuf) : NBuf :=
  (m.children c).foldl (fun nb jx =>
    let (owner, title, startTime) :=
      if jx.xType = .job then
        ((m.jobs jx).jOwner, (m.jobs jx).jTitle, (m.jobs jx).jStartTime)
      else (lit "NONE", lit "NONE", 0)
    (m.children jx).foldl (fun nb hx =>
      nBufPrintf nb (hx.xName ++ lit " " ++ jx.xName ++ lit " " ++ owner ++ lit " " ++ title ++
        lit " " ++ printf0 startTime ++ lit " " ++ decimal (m.links jx).xNrChild ++
        lit "\n")) nb) nb

/-- The jobs of a cluster, each with each of its hosts. -/
def clusHosts (m : Daemon R) (c : XNode) : List (XNode × XNode) :=
  (m.children c).flatMap fun jx => (m.children jx).map fun hx => (jx, hx)

/-- The line of a host and its job. -/
def hostLine (printf0 : R → CString) (m : Daemon R) (p : XNode × XNode) : CString :=
  joinWords [p.2.xName, p.1.xName, (m.jobs p.1).jOwner, (m.jobs p.1).jTitle,
    printf0 (m.jobs p.1).jStartTime, decimal (m.links p.1).xNrChild]

def clusLines (printf0 : R → CString) (m : Daemon R) (c : XNode) : List CString :=
  (clusHosts m c).map (hostLine printf0 m)

variable {m : Daemon R} {c : XNode} {p p' : XNode × XNode}

theorem mem_clusHosts : p ∈ clusHosts m c ↔ p.1 ∈ m.children c ∧ p.2 ∈ m.children p.1 := by
  obtain ⟨jx, hx⟩ := p
  rw [clusHosts, List.mem_flatMap]
  constructor
  · rintro ⟨jx', hjx, hmem⟩
    obtain ⟨hx', hhx, heq⟩ := List.mem_map.1 hmem
    cases heq
    exact ⟨hjx, hhx⟩
  · rintro ⟨hjx, hhx⟩
    exact ⟨jx, hjx, List.mem_map.2 ⟨hx, hhx, rfl⟩⟩

/-- A host of a cluster is a host, and its job is a job. -/
structure ClusHost (m : Daemon R) (c : XNode) (p : XNode × XNode) : Prop where
  job : m.Live p.1 ∧ p.1.xType = .job
  host : m.Live p.2 ∧ p.2.xType = .host
  parent_job : m.parent p.1 = some c
  parent_host : m.parent p.2 = some p.1

theorem DaemonOk.jobOfClus (h : DaemonOk m) (hclus : c.xType = .clus) {jx : XNode}
    (hjx : jx ∈ m.children c) : m.parent jx = some c ∧ jx.xType = .job := by
  have hparent := (h.state.tree.linked.mem_children c jx).1 hjx
  have hup := h.state.tree.up_of_parent hparent
  rw [hclus] at hup
  refine ⟨hparent, ?_⟩
  revert hup
  cases jx.xType <;> decide

theorem DaemonOk.clusHost (h : DaemonOk m) (hclus : c.xType = .clus)
    (hp : p ∈ clusHosts m c) : ClusHost m c p := by
  obtain ⟨hjx, hhx⟩ := mem_clusHosts.1 hp
  obtain ⟨hparent, hjob⟩ := h.jobOfClus hclus hjx
  rw [h.state.tree.linked.mem_children] at hhx
  have hup := h.state.tree.up_of_parent hhx
  have hhost : p.2.xType = .host := by
    rw [hjob] at hup
    revert hup
    cases p.2.xType <;> decide
  exact
    { job := ⟨h.state.tree.live_of_parent hparent, hjob⟩
      host := ⟨h.state.tree.live_of_parent hhx, hhost⟩
      parent_job := hparent
      parent_host := hhx }

/-- A name tells the live nodes of a type apart. -/
theorem DaemonOk.eq_of_name (h : DaemonOk m) {x y : XNode} (hx : m.Live x) (hy : m.Live y)
    (htype : x.xType = y.xType) (hname : x.xName = y.xName) : x = y := by
  have hfound := h.state.tree.xLookup_eq_some.2 ⟨hx, htype, hname⟩
  have hself := h.state.tree.xLookup_eq_some.2 ⟨hy, rfl, rfl⟩
  exact Option.some.inj (hfound.symm.trans hself)

section Unique

variable (hok : DaemonOk m) (hclus : c.xType = .clus) (hp : p ∈ clusHosts m c)
  (hp' : p' ∈ clusHosts m c)

include hok hclus hp hp'

theorem job_of_name (hname : p.1.xName = p'.1.xName) : p.1 = p'.1 := by
  have hfirst := hok.clusHost hclus hp
  have hsecond := hok.clusHost hclus hp'
  apply hok.eq_of_name hfirst.job.1 hsecond.job.1 _ hname
  rw [hfirst.job.2, hsecond.job.2]

/-- A host is listed once. -/
theorem host_of_name (hname : p.2.xName = p'.2.xName) : p = p' := by
  have hfirst := hok.clusHost hclus hp
  have hsecond := hok.clusHost hclus hp'
  have hhost : p.2 = p'.2 := by
    apply hok.eq_of_name hfirst.host.1 hsecond.host.1 _ hname
    rw [hfirst.host.2, hsecond.host.2]
  apply Prod.ext _ hhost
  have hparent := hfirst.parent_host
  rw [hhost, hsecond.parent_host] at hparent
  exact (Option.some.inj hparent).symm

end Unique

/-! ## The text -/

theorem isToken_append {first last : CString} (hfirst : IsToken first) (hlast : IsToken last) :
    IsToken (first ++ last) where
  ne_nil := List.append_ne_nil_of_left_ne_nil hfirst.ne_nil last
  space b hb := by
    rcases List.mem_append.1 hb with hmem | hmem
    · exact hfirst.space b hmem
    · exact hlast.space b hmem
  nul hnul := by
    rcases List.mem_append.1 hnul with hmem | hmem
    · exact hfirst.nul hmem
    · exact hlast.nul hmem

theorem isToken_decimal (n : ℕ) : IsToken (decimal n) where
  toIsWord := isWord_decimal n
  nul hnul := (isDigit_plain (isDigit_decimal n 0 hnul)).2.2.2 rfl

section Text

variable (hok : DaemonOk m) (hnames : NamesOk m) (hclus : c.xType = .clus)
  (hname : IsToken c.xName) {printf0 : R → CString} (hprintf0 : ∀ t, IsToken (printf0 t))

include hok hnames hclus hname

theorem isToken_job (hp : p ∈ clusHosts m c) : IsToken p.1.xName := by
  have hhost := hok.clusHost hclus hp
  rcases hnames.job hhost.job.1 hhost.job.2 with htoken | ⟨c', hparent, hidle⟩
  · exact htoken
  · rw [hhost.parent_job] at hparent
    rw [hidle, ← Option.some.inj hparent]
    exact isToken_append ⟨⟨by decide, by decide +kernel⟩, by decide⟩ hname

include hprintf0

/-- The fields of a line. -/
theorem fields_isToken (hp : p ∈ clusHosts m c) :
    ∀ word ∈ [p.2.xName, p.1.xName, (m.jobs p.1).jOwner, (m.jobs p.1).jTitle,
      printf0 (m.jobs p.1).jStartTime, decimal (m.links p.1).xNrChild], IsToken word := by
  have hhost := hok.clusHost hclus hp
  simp only [List.forall_mem_cons]
  exact ⟨hnames.host hhost.host.1 hhost.host.2, isToken_job hok hnames hclus hname hp,
    hnames.owner hhost.job.1 hhost.job.2, hnames.title hhost.job.1 hhost.job.2, hprintf0 _,
    isToken_decimal _, fun word hword => absurd hword List.not_mem_nil⟩

/-- A line is a C string of one line, and `split` gives back its fields. -/
theorem hostLine_fields (hp : p ∈ clusHosts m c) :
    (split 6 (some (hostLine printf0 m p))).1 =
        [p.2.xName, p.1.xName, (m.jobs p.1).jOwner, (m.jobs p.1).jTitle,
          printf0 (m.jobs p.1).jStartTime, decimal (m.links p.1).xNrChild] ∧
      10 ∉ hostLine printf0 m p ∧ 0 ∉ hostLine printf0 m p := by
  have htokens := fields_isToken hok hnames hclus hname hprintf0 hp
  rw [hostLine]
  refine ⟨?_, fun hmem => ?_, fun hmem => ?_⟩
  · rw [split_fst]
    change (words (joinWords _)).take 6 = _
    rw [words_joinWords fun word hword => (htokens word hword).toIsWord]
    rfl
  · rcases mem_joinWords hmem with heq | ⟨word, hword, hnewline⟩
    · exact absurd heq (by decide)
    · exact absurd ((htokens word hword).space 10 hnewline) (by decide)
  · rcases mem_joinWords hmem with heq | ⟨word, hword, hnul⟩
    · exact absurd heq (by decide)
    · exact (htokens word hword).nul hnul

end Text

/-- A body that fits is the lines of the listing. -/
theorem clusGetCb_lines [Zero R] (hok : DaemonOk m) (hclus : c.xType = .clus)
    (printf0 : R → CString) {nb : NBuf} (hnb : nb.Check)
    (hfits : nb.nbEnd + (joinLines (clusLines printf0 m c)).length < nb.nbSize) :
    (clusGetCb printf0 m c nb).data = nb.data ++ joinLines (clusLines printf0 m c) := by
  have hblank : lit " " = [32] := by decide
  have hnewline : lit "\n" = [10] := by decide
  have htexts : clusGetCb printf0 m c nb =
      ((clusLines printf0 m c).map (· ++ [10])).foldl nBufPrintf nb := by
    rw [clusLines, clusHosts, List.map_map, List.map_flatMap, List.foldl_flatMap, clusGetCb]
    apply List.foldl_ext
    intro nb jx hjx
    have hjob := (hok.jobOfClus hclus hjx).2
    rw [List.map_map, List.foldl_map]
    simp only [hjob, if_true]
    apply List.foldl_ext
    intro nb hx _
    simp only [Function.comp_apply, hostLine, joinWords, hblank, hnewline, List.append_assoc,
      List.cons_append, List.nil_append]
  rw [htexts]
  exact (printedAll_foldl hnb _ hfits).bytes

theorem nrChild_le (hok : DaemonOk m) (printf0 : R → CString) (hp : p ∈ clusHosts m c) :
    (m.links p.1).xNrChild ≤ (joinLines (clusLines printf0 m c)).length := by
  have hsub : ((m.children p.1).map fun hx => (p.1, hx)).Sublist (clusHosts m c) := by
    rw [clusHosts, List.flatMap]
    exact List.sublist_flatten_of_mem (List.mem_map_of_mem (mem_clusHosts.1 hp).1)
  calc (m.links p.1).xNrChild = (m.children p.1).length := hok.state.tree.linked.nr_child _
    _ ≤ (clusHosts m c).length := by simpa using hsub.length_le
    _ = (clusLines printf0 m c).length := by rw [clusLines, List.length_map]
    _ ≤ (joinLines (clusLines printf0 m c)).length := length_le_joinLines _

end Xltop.Master
