import Xltop.Core.Split
import Xltop.Servd.Traffic
import Xltop.Status.ServStatus

/-!
# What a collector sends

The text of a round has one line for each nid, its name and three numbers.  All
that the lines of a run say about some nids is what the readings of these nids
have grown, whatever the nids are that are taken together.
-/

namespace Xltop.Servd

open Xltop.Buffer
open Xltop.Rate
open Xltop.Status
open Xltop.Telescoping
open Xltop.Text

/-! ## The text of a round -/

def numbersText (v : Stats ℤ) : CString :=
  joinWords [decimalInt (v statWrBytes), decimalInt (v statRdBytes), decimalInt (v statNrReqs)]

/-- A line of `print_stats`, without its newline. -/
def statsLine (line : CString × Stats ℤ) : CString :=
  line.1 ++ 32 :: numbersText line.2

/-- What `print_stats` prints. -/
def report (lines : List (CString × Stats ℤ)) : List Byte :=
  lines.flatMap statsText

theorem statsText_eq (line : CString × Stats ℤ) : statsText line = statsLine line ++ [10] := by
  simp only [statsText, statsLine, numbersText, joinWords, List.append_assoc, List.cons_append]
  rfl

theorem report_eq (lines : List (CString × Stats ℤ)) :
    report lines = joinLines (lines.map statsLine) := by
  rw [report, joinLines, List.map_map, List.flatMap_def]
  exact congrArg List.flatten (List.map_congr_left fun line _ => statsText_eq line)

theorem isWhole_decimalInt (n : ℤ) : IsWhole (decimalInt n) := by
  rw [decimalInt]
  split
  · exact ⟨[45], _, .inr rfl, decimal_ne_nil _, isDigit_decimal _, rfl⟩
  · exact ⟨[], _, .inl rfl, decimal_ne_nil _, isDigit_decimal _, rfl⟩

theorem numbersText_oneLine (v : Stats ℤ) : 10 ∉ numbersText v ∧ 0 ∉ numbersText v := by
  apply joinWords_oneLine
  intro word hword
  simp only [List.mem_cons, List.not_mem_nil, or_false] at hword
  rcases hword with rfl | rfl | rfl <;> exact (isWhole_decimalInt _).isToken

theorem statsLine_oneLine {line : CString × Stats ℤ} (hnid : IsToken line.1) :
    10 ∉ statsLine line ∧ 0 ∉ statsLine line := by
  obtain ⟨hnewline, hnul⟩ := numbersText_oneLine line.2
  simp only [statsLine, List.mem_append, List.mem_cons, not_or]
  exact ⟨⟨fun hmem => absurd (hnid.space 10 hmem) (by decide), by decide, hnewline⟩,
    hnid.nul, by decide, hnul⟩

/-- The lines of a round, as a reader of lines sees them. -/
theorem bodyLines_report {lines : List (CString × Stats ℤ)}
    (hlines : ∀ line ∈ lines, IsToken line.1) :
    bodyLines (report lines) = lines.map statsLine := by
  rw [report_eq]
  induction lines with
  | nil => exact bodyLines_of_not_mem List.not_mem_nil
  | cons line lines ih =>
      rw [List.forall_mem_cons] at hlines
      rw [List.map_cons, joinLines_cons, bodyLines_cons (statsLine_oneLine hlines.1).1,
        ih hlines.2]

/-! ## Reading a line -/

/-- `sscanf` with the three conversions of `SCN_STATS_FMT`. -/
def scanStats {D : Type*} (strtod : CString → D) (msg : CString) : Option (Stats D) :=
  match scanAll scanLf 3 msg with
  | some ([wr, rd, nr], _) => some ![strtod wr, strtod rd, strtod nr]
  | _ => none

theorem scanStats_numbersText {R : Type*} [IntCast R] {strtod : CString → R}
    (h : ∀ n : ℤ, strtod (decimalInt n) = n) (v : Stats ℤ) :
    scanStats strtod (numbersText v) = some fun i => (v i : R) := by
  have hscan : scanAll scanLf 3 (numbersText v ++ []) =
      some ([decimalInt (v statWrBytes), decimalInt (v statRdBytes), decimalInt (v statNrReqs)],
        []) :=
    scanAll_joinWords (.cons (reads_whole (isWhole_decimalInt _))
      (.cons (reads_whole (isWhole_decimalInt _))
        (.cons (reads_whole (isWhole_decimalInt _)) .nil))) ends_nil
  rw [List.append_nil] at hscan
  rw [scanStats, hscan]
  simp only [h]
  exact congrArg some (FinVec.etaExpand_eq fun i => (v i : R))

/-- The nid of a line, and the rest of it. -/
theorem wsep_statsLine {line : CString × Stats ℤ} (hnid : IsWord line.1) :
    wsep (some (statsLine line)) = (some line.1, some (numbersText line.2)) :=
  strsepNe_append (List.forall_mem_nil _) hnid.ne_nil hnid.space
    fun _ hc => Option.some.inj hc ▸ rfl

/-! ## All lines of a run -/

section Run

variable {T : Type*}

/-- The names of all exports of some rounds. -/
def exportNames (rounds : List (Round T)) : Finset CString :=
  (rounds.flatMap fun r => r.visits.flatMap fun visit =>
    (visit.2.exports.getD []).map Export.dName).toFinset

theorem mem_exportNames {rounds : List (Round T)} {r : Round T} (hr : r ∈ rounds)
    {l nid : CString} (hreads : r.reads l nid ≠ []) : nid ∈ exportNames rounds := by
  rw [Round.reads, Ne, List.flatMap_eq_nil_iff, not_forall] at hreads
  obtain ⟨visit, hreads⟩ := hreads
  rw [Classical.not_imp] at hreads
  obtain ⟨hvisit, hreads⟩ := hreads
  split at hreads
  · rw [Target.reads] at hreads
    split at hreads
    · rw [List.flatMap_eq_nil_iff, not_forall] at hreads
      obtain ⟨e, hreads⟩ := hreads
      rw [Classical.not_imp, Export.reads] at hreads
      obtain ⟨he, hreads⟩ := hreads
      split at hreads
      · next hname =>
          rw [exportNames, List.mem_toFinset, List.mem_flatMap]
          refine ⟨r, hr, List.mem_flatMap.2 ⟨visit, hvisit, ?_⟩⟩
          exact List.mem_map.2 ⟨e, he, hname.2⟩
      · exact absurd rfl hreads
    · exact absurd rfl hreads
  · exact absurd rfl hreads

variable [Zero T] [LinearOrder T]

/-- A nid that a round prints is one that it has read. -/
theorem round_nids {s : Collector T} (h : CollectorOk s) (htmp : s.tmpList = []) {r : Round T}
    (hnow : r.now ≠ 0) (hfresh : s.Fresh r.now) {line : CString × Stats ℤ}
    (hline : line ∈ (round s r).1) : ∃ l, r.reads l line.1 ≠ [] := by
  have hround : Rounded r (targets [r]) s (round s r).1 (round s r).2 :=
    round_spec h htmp hnow hfresh (mem_targets r (List.mem_singleton_self r))
  have hne : line.2 ≠ 0 := by
    rw [round, printStats] at hline
    obtain ⟨ns, hns, rfl⟩ := List.mem_map.1 hline
    exact of_decide_eq_true (List.mem_filter.1 hns).2
  by_contra hnone
  rw [not_exists] at hnone
  apply hne
  calc line.2 = linesSum (round s r).1 line.1 := (linesSum_of_mem hround.nodup hline).symm
    _ = ∑ l ∈ targets [r], gain (s.baseline l line.1) (r.reads l line.1) := hround.lines line.1
    _ = 0 := Finset.sum_eq_zero fun l _ => by rw [not_not.1 (hnone l), gain_nil]

theorem run_nids {s : Collector T} (h : CollectorOk s) (htmp : s.tmpList = [])
    {names : Finset CString} {rounds : List (Round T)}
    (hnames : ∀ r ∈ rounds, ∀ {l nid}, r.reads l nid ≠ [] → nid ∈ names)
    (hpos : ∀ r ∈ rounds, 0 < r.now) (hmono : (rounds.map Round.now).Pairwise (· < ·))
    (hfresh : ∀ r ∈ rounds, s.Fresh r.now) :
    ∀ st ∈ run s rounds, ∀ line ∈ st.lines, line.1 ∈ names := by
  induction rounds generalizing s with
  | nil => exact fun st hst => absurd hst List.not_mem_nil
  | cons r rounds ih =>
      rw [List.forall_mem_cons] at hnames hpos hfresh
      rw [List.map_cons, List.pairwise_cons] at hmono
      have hround : Rounded r (targets [r]) s (round s r).1 (round s r).2 :=
        round_spec h htmp hpos.1.ne' hfresh.1 (mem_targets r (List.mem_singleton_self r))
      rw [run, List.forall_mem_cons]
      constructor
      · intro line hline
        obtain ⟨l, hreads⟩ := round_nids h htmp hpos.1.ne' hfresh.1 hline
        exact hnames.1 hreads
      · exact ih hround.ok hround.tmpList hnames.2 hpos.2 hmono.2 fun r' hr' =>
          hround.fresh (hmono.1 r'.now (List.mem_map_of_mem hr')).ne

omit [Zero T] [LinearOrder T] in
/-- The lines about some nids, nid by nid. -/
theorem sum_filter_eq {names : Finset CString} {lines : List (CString × Stats ℤ)}
    (hlines : ∀ line ∈ lines, line.1 ∈ names) (P : CString → Prop) [DecidablePred P] :
    ((lines.filter fun line => P line.1).map Prod.snd).sum =
      ∑ nid ∈ names.filter P, linesSum lines nid := by
  induction lines with
  | nil => exact (Finset.sum_eq_zero fun _ _ => rfl).symm
  | cons line lines ih =>
      rw [List.forall_mem_cons] at hlines
      have hcons : ∀ nid, linesSum (line :: lines) nid =
          (if line.1 = nid then line.2 else 0) + linesSum lines nid := fun nid => by
        rw [linesSum, List.filter_cons]
        by_cases hnid : line.1 = nid
        · rw [if_pos (decide_eq_true hnid), if_pos hnid, List.map_cons, List.sum_cons]
          rfl
        · rw [if_neg (by rwa [decide_eq_true_eq]), if_neg hnid, zero_add]
          rfl
      simp only [hcons]
      rw [Finset.sum_add_distrib, ← ih hlines.2, Finset.sum_ite_eq]
      by_cases hP : P line.1
      · rw [List.filter_cons, if_pos (decide_eq_true hP), List.map_cons, List.sum_cons,
          if_pos (Finset.mem_filter.2 ⟨hlines.1, hP⟩)]
      · rw [List.filter_cons, if_neg (by rwa [decide_eq_true_eq]),
          if_neg fun hmem => hP (Finset.mem_filter.1 hmem).2, zero_add]

/-- What the readings of some nids have grown, on all targets. -/
def grown (hint : UInt64) (rounds : List (Round T)) (P : CString → Prop) [DecidablePred P] :
    Stats ℤ :=
  ∑ nid ∈ (exportNames rounds).filter P, ∑ l ∈ targets rounds,
    (((run (servdInit T hint) rounds).splitOnP fun st => !st.tracks l).map
      fun period => growth (period.flatMap fun st => st.round.reads l nid)).sum

/-- All lines of a run about some nids. -/
theorem run_grown (hint : UInt64) {rounds : List (Round T)}
    (hpos : ∀ r ∈ rounds, 0 < r.now) (hmono : (rounds.map Round.now).Pairwise (· < ·))
    (P : CString → Prop) [DecidablePred P] :
    ((run (servdInit T hint) rounds).map fun st =>
      ((st.lines.filter fun line => P line.1).map Prod.snd).sum).sum = grown hint rounds P := by
  have hfresh : ∀ r ∈ rounds, (servdInit T hint).Fresh r.now := fun r _ nid ns hns => by
    cases hns
  have hnames := run_nids (collectorOk_init hint) rfl (fun r hr {l nid} => mem_exportNames hr)
    hpos hmono hfresh
  have hlines : ∀ st ∈ run (servdInit T hint) rounds,
      ((st.lines.filter fun line => P line.1).map Prod.snd).sum =
        ∑ nid ∈ (exportNames rounds).filter P, linesSum st.lines nid := fun st hst =>
    sum_filter_eq (hnames st hst) P
  have hswap : ((run (servdInit T hint) rounds).map fun st =>
      ∑ nid ∈ (exportNames rounds).filter P, linesSum st.lines nid).sum =
      ∑ nid ∈ (exportNames rounds).filter P,
        ((run (servdInit T hint) rounds).map fun st => linesSum st.lines nid).sum :=
    Multiset.sum_map_sum_map (run (servdInit T hint) rounds : Multiset (Stage T)) _
  rw [List.map_congr_left hlines, hswap, grown]
  refine Finset.sum_congr rfl fun nid _ => ?_
  rw [run_total (collectorOk_init hint) rfl mem_targets hpos hmono hfresh]
  refine Finset.sum_congr rfl fun l _ => total_eq_growth _ _ ?_
  exact run_kept (collectorOk_init hint) rfl hpos hmono hfresh l nid

end Run

end Xltop.Servd
