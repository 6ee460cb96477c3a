import Xltop.Servd.Rounds
import Mathlib.Algebra.Order.BigOperators.Group.List
import Mathlib.Algebra.Order.BigOperators.Group.Finset
import Mathlib.Algebra.Order.Pi

/-!
# Traffic that is negative

A target keeps the last reading of a nid when the export it was read from is
gone.  If the export is created again while its target stays tracked, its
counters start from zero and the next round subtracts the old reading from the
new one.
-/

namespace Xltop.Servd

open Function
open Xltop.Text
open Xltop.Hash
open Xltop.Rate
open Xltop.Telescoping

instance : DecidableLE (Stats ℤ) :=
  fun x y => inferInstanceAs (Decidable (∀ i, x i ≤ y i))

/-- The readings of an export that may be torn down and created again: each has
the number of times the export was created before it. -/
structure Restarting (readings : List (ℕ × Stats ℤ)) : Prop where
  nonneg : ∀ reading ∈ readings, 0 ≤ reading.2
  rises : readings.Pairwise fun x y => x.1 ≤ y.1 ∧ (x.1 = y.1 → x.2 ≤ y.2)

/-- Every counter starts from zero when its export is created and does not fall
while the export is there. -/
def Counting {T : Type*} (rounds : List (Round T)) : Prop :=
  ∀ l nid, ∃ tagged, tagged.map Prod.snd = (rounds.flatMap fun r => r.reads l nid) ∧
    Restarting tagged

section Lines

/-- A round in which a nid has one line at most. -/
theorem linesSum_of_mem {lines : List (CString × Stats ℤ)} (hnodup : (lines.map Prod.fst).Nodup)
    {line : CString × Stats ℤ} (hline : line ∈ lines) : linesSum lines line.1 = line.2 := by
  induction lines with
  | nil => cases hline
  | cons head lines ih =>
      rw [List.map_cons, List.nodup_cons] at hnodup
      have hother : ∀ {x y : CString × Stats ℤ}, x ∈ lines → y.1 = head.1 → x.1 ≠ y.1 :=
        fun hx hy heq => hnodup.1 (hy ▸ heq ▸ List.mem_map_of_mem hx)
      rw [linesSum]
      rcases List.mem_cons.1 hline with rfl | hmem
      · have hnone : (lines.filter fun x => decide (x.1 = line.1)) = [] :=
          List.filter_eq_nil_iff.2 fun x hx => by simpa using hother hx rfl
        rw [List.filter_cons_of_pos (by simp), hnone, List.map_singleton, List.sum_singleton]
      · rw [List.filter_cons_of_neg (by simpa using (hother hmem rfl).symm)]
        exact ih hnodup.2 hmem

theorem linesSum_nonneg_iff {lines : List (CString × Stats ℤ)}
    (hnodup : (lines.map Prod.fst).Nodup) :
    (∀ line ∈ lines, 0 ≤ line.2) ↔ ∀ nid, 0 ≤ linesSum lines nid := by
  constructor
  · intro h nid
    apply List.sum_nonneg
    intro stats hstats
    obtain ⟨line, hline, rfl⟩ := List.mem_map.1 hstats
    exact h line (List.mem_of_mem_filter hline)
  · intro h line hline
    rw [← linesSum_of_mem hnodup hline]
    exact h line.1

end Lines

section Run

variable {T : Type*} [Zero T] [LinearOrder T]

/-- The last reading of a nid on a target since the target is tracked. -/
def lastRead (past : List (Stage T)) (l nid : CString) : Option (Stats ℤ) :=
  ((past.rtakeWhile fun st => st.tracks l).flatMap fun st => st.round.reads l nid).getLast?

/-- The last reading of a nid on a target and those of the round after it. -/
def readings (past : List (Stage T)) (r : Round T) (l nid : CString) : List (Stats ℤ) :=
  (lastRead past l nid).toList ++ r.reads l nid

/-- Each round of a run does what a round does, from the last readings before
it. -/
theorem run_stage {s : Collector T} (h : CollectorOk s) (htmp : s.tmpList = [])
    {names : Finset CString} {rounds : List (Round T)}
    (hnames : ∀ r ∈ rounds, ∀ visit ∈ r.visits, visit.2.dName ∈ names)
    (hpos : ∀ r ∈ rounds, 0 < r.now)
    (hmono : (rounds.map Round.now).Pairwise (· < ·))
    (hfresh : ∀ r ∈ rounds, s.Fresh r.now) {past later : List (Stage T)} {st : Stage T}
    (hrun : run s rounds = past ++ st :: later) :
    ∃ before, Rounded st.round names before st.lines st.after ∧
      ∀ l nid, before.baseline l nid = past.foldl
        (carry (fun st => st.tracks l) fun st => st.round.reads l nid) (s.baseline l nid) := by
  induction rounds generalizing s past with
  | nil => cases past <;> cases hrun
  | cons r rounds ih =>
      rw [List.forall_mem_cons] at hnames hpos hfresh
      rw [List.map_cons, List.pairwise_cons] at hmono
      have hround := round_spec h htmp hpos.1.ne' hfresh.1 hnames.1
      rw [run] at hrun
      cases past with
      | nil =>
          obtain ⟨rfl, -⟩ := List.cons_eq_cons.1 hrun
          exact ⟨s, hround, fun _ _ => rfl⟩
      | cons first past =>
          obtain ⟨rfl, hrest⟩ := List.cons_eq_cons.1 hrun
          have hlater : ∀ r' ∈ rounds, (round s r).2.Fresh r'.now := fun r' hr' =>
            hround.fresh (hmono.1 r'.now (List.mem_map_of_mem hr')).ne
          obtain ⟨before, hbefore, hbaseline⟩ :=
            ih hround.ok hround.tmpList hnames.2 hpos.2 hmono.2 hlater hrest
          refine ⟨before, hbefore, fun l nid => ?_⟩
          rw [hbaseline, hround.baseline, List.foldl_cons, carry]
          simp only [Stage.tracks, decide_eq_true_eq]

/-- No round reads less for a nid, over all targets, than what was read last. -/
def NoLoss (names : Finset CString) (stages : List (Stage T)) : Prop :=
  ∀ past st later, stages = past ++ st :: later →
    ∀ nid, 0 ≤ ∑ l ∈ names, growth (readings past st.round l nid)

/-- No round reads less for a nid on a target than what was read last. -/
def Rising (stages : List (Stage T)) : Prop :=
  ∀ past st later, stages = past ++ st :: later →
    ∀ l nid, (readings past st.round l nid).Pairwise (· ≤ ·)

omit [Zero T] [LinearOrder T] in
theorem Rising.noLoss {stages : List (Stage T)} (h : Rising stages) (names : Finset CString) :
    NoLoss names stages := by
  intro past st later hstages nid
  apply Finset.sum_nonneg
  intro l _
  exact growth_nonneg (h past st later hstages l nid)

theorem run_nonneg_iff (hint : UInt64) {rounds : List (Round T)}
    (hpos : ∀ r ∈ rounds, 0 < r.now) (hmono : (rounds.map Round.now).Pairwise (· < ·)) :
    (∀ st ∈ run (servdInit T hint) rounds, ∀ line ∈ st.lines, 0 ≤ line.2) ↔
      NoLoss (targets rounds) (run (servdInit T hint) rounds) := by
  have hstage : ∀ past st later, run (servdInit T hint) rounds = past ++ st :: later →
      ((∀ line ∈ st.lines, 0 ≤ line.2) ↔
        ∀ nid, 0 ≤ ∑ l ∈ targets rounds, growth (readings past st.round l nid)) := by
    intro past st later hrun
    obtain ⟨before, hround, hbaseline⟩ := run_stage (collectorOk_init hint) rfl mem_targets hpos
      hmono (fun r _ nid ns hns => by cases hns) hrun
    rw [linesSum_nonneg_iff hround.nodup]
    apply forall_congr'
    intro nid
    rw [hround.lines]
    have hgrowth : ∀ l, gain (before.baseline l nid) (st.round.reads l nid) =
        growth (readings past st.round l nid) := fun l => by
      rw [gain_eq_growth, hbaseline, readings, lastRead, ← foldl_carry]
      rfl
    simp only [hgrowth]
  constructor
  · intro h past st later hrun
    apply (hstage past st later hrun).1
    apply h st
    rw [hrun]
    exact List.mem_append_right _ List.mem_cons_self
  · intro h st hst
    obtain ⟨past, later, hrun⟩ := List.append_of_mem hst
    exact (hstage past st later hrun).2 (h past st later hrun)

/-- The lines of all rounds are free of negative numbers just when no round
reads less, over all targets, than what was read last. -/
theorem traffic_nonneg_iff (hint : UInt64) {rounds : List (Round T)}
    (hpos : ∀ r ∈ rounds, 0 < r.now) (hmono : (rounds.map Round.now).Pairwise (· < ·)) :
    ((∀ st ∈ run (servdInit T hint) rounds, ∀ line ∈ st.lines, 0 ≤ line.2) ↔
      NoLoss (targets rounds) (run (servdInit T hint) rounds)) ∧
    (Rising (run (servdInit T hint) rounds) →
      ∀ st ∈ run (servdInit T hint) rounds, ∀ line ∈ st.lines, 0 ≤ line.2) := by
  have hiff := run_nonneg_iff hint hpos hmono
  exact ⟨hiff, fun hrising => hiff.2 (hrising.noLoss _)⟩

theorem traffic_nonneg_sample :
    ((∀ st ∈ run (servdInit ℕ 16) sampleRounds, ∀ line ∈ st.lines, 0 ≤ line.2) ↔
      NoLoss (targets sampleRounds) (run (servdInit ℕ 16) sampleRounds)) ∧
    (Rising (run (servdInit ℕ 16) sampleRounds) →
      ∀ st ∈ run (servdInit ℕ 16) sampleRounds, ∀ line ∈ st.lines, 0 ≤ line.2) :=
  traffic_nonneg_iff 16 (by decide) (by decide)

/-- An export is read twice and then created again. -/
def recreatedRounds : List (Round ℕ) :=
  [sampleRound 1 (lit "100"), sampleRound 2 (lit "150"), sampleRound 3 (lit "10")]

/-- Bytes read, and nothing else. -/
def readBytes (n : ℤ) : Stats ℤ :=
  update 0 statRdBytes n

omit [Zero T] [LinearOrder T] in
theorem sampleRound_reads {now : ℕ} {sum : CString} {stats : Stats ℤ}
    (hread : nidStatsRead (sampleFile sum) = some stats) (l nid : CString) :
    (sampleRound now sum).reads l nid =
      if lit "OST0" = l ∧ lit "n1" = nid then [stats] else [] := by
  have hexport : listed true (lit "n1") := by decide
  have htarget : listed true (lit "OST0") := by decide
  by_cases hl : lit "OST0" = l
  · by_cases hnid : lit "n1" = nid
    · subst hl hnid
      simp [sampleRound, Round.reads, Round.visits, Target.reads, Export.reads, hexport,
        htarget, hread]
    · simp [sampleRound, Round.reads, Round.visits, Target.reads, Export.reads, hl, hnid]
  · simp [sampleRound, Round.reads, Round.visits, hl]

/-- The counters of this export never fall while it is there, and yet a round
prints a negative number. -/
theorem recreated_export_negative :
    (∀ r ∈ recreatedRounds, 0 < r.now) ∧
    (recreatedRounds.map Round.now).Pairwise (· < ·) ∧
    Counting recreatedRounds ∧
    ¬ ∀ st ∈ run (servdInit ℕ 16) recreatedRounds, ∀ line ∈ st.lines, 0 ≤ line.2 := by
  have hpos : ∀ r ∈ recreatedRounds, 0 < r.now := by decide
  have hmono : (recreatedRounds.map Round.now).Pairwise (· < ·) := by decide
  have h100 : nidStatsRead (sampleFile (lit "100")) = some (readBytes 100) := by decide +kernel
  have h150 : nidStatsRead (sampleFile (lit "150")) = some (readBytes 150) := by decide +kernel
  have h10 : nidStatsRead (sampleFile (lit "10")) = some (readBytes 10) := by decide +kernel
  refine ⟨hpos, hmono, fun l nid => ?_, fun hall => ?_⟩
  · simp only [recreatedRounds, List.flatMap_cons, List.flatMap_nil, sampleRound_reads h100,
      sampleRound_reads h150, sampleRound_reads h10]
    split
    · refine ⟨[(0, readBytes 100), (0, readBytes 150), (1, readBytes 10)], rfl, ?_, ?_⟩
      · decide +kernel
      · decide +kernel
    · exact ⟨[], rfl, ⟨fun _ h => absurd h List.not_mem_nil, List.Pairwise.nil⟩⟩
  · have hnoLoss := (run_nonneg_iff 16 hpos hmono).1 hall
    have hkept := run_kept (collectorOk_init 16) rfl hpos hmono
      (fun r _ nid ns hns => by cases hns) (lit "OST0") (lit "n1")
    obtain ⟨a, b, c, hrun, ha, hb, hc⟩ : ∃ a b c,
        run (servdInit ℕ 16) recreatedRounds = [a, b] ++ c :: [] ∧
          a.round = sampleRound 1 (lit "100") ∧ b.round = sampleRound 2 (lit "150") ∧
          c.round = sampleRound 3 (lit "10") := ⟨_, _, _, rfl, rfl, rfl, rfl⟩
    have htargets : targets recreatedRounds = {lit "OST0"} := by decide
    rw [hrun] at hkept
    have hreads : ∀ n (stats : Stats ℤ), nidStatsRead (sampleFile n) = some stats → ∀ now,
        (sampleRound now n).reads (lit "OST0") (lit "n1") = [stats] := fun n stats hread now => by
      rw [sampleRound_reads hread, if_pos ⟨rfl, rfl⟩]
    have htracks : ∀ st ∈ [a, b] ++ c :: [], st.round.reads (lit "OST0") (lit "n1") ≠ [] →
        st.tracks (lit "OST0") = true := fun st hst hne => by
      by_contra hout
      exact hne (hkept st hst (Bool.eq_false_of_not_eq_true hout))
    have hra : a.round.reads (lit "OST0") (lit "n1") = [readBytes 100] := by
      rw [ha, hreads _ _ h100]
    have hrb : b.round.reads (lit "OST0") (lit "n1") = [readBytes 150] := by
      rw [hb, hreads _ _ h150]
    have hlast : lastRead [a, b] (lit "OST0") (lit "n1") = some (readBytes 150) := by
      have hta := htracks a (by simp) (by simp [hra])
      have htb := htracks b (by simp) (by simp [hrb])
      simp [lastRead, List.rtakeWhile, hta, htb, hra, hrb]
    have hloss := hnoLoss [a, b] c [] hrun (lit "n1")
    rw [htargets, Finset.sum_singleton, readings, hlast, hc, hreads _ _ h10] at hloss
    exact absurd hloss (by decide +kernel)

end Run

end Xltop.Servd
