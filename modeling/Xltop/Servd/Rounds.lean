import Xltop.Servd.Collect
import Xltop.Library.Telescoping
import Mathlib.Algebra.BigOperators.Group.Finset.Basic
import Mathlib.Algebra.BigOperators.Pi

/-!
# What a round adds up

A target knows the last reading of each nid since it is tracked, and the sum of
a nid is what its readings of the round gained over these.  Both are said once
for an export, composed over the loops, and then followed over rounds.
-/

namespace Xltop.Servd

open Function
open Xltop.Text
open Xltop.Hash
open Xltop.Rate
open Xltop.Telescoping

/-! ## Readings -/

/-- What reading the export gives for a nid. -/
def Export.reads (de : Export) (nid : CString) : List (Stats ℤ) :=
  if listed de.isDir de.dName ∧ de.dName = nid then (nidStatsRead de.stats).toList else []

/-- All readings of a nid on a directory entry. -/
def Target.reads (de : Target) (nid : CString) : List (Stats ℤ) :=
  if listed de.isDir de.dName then (de.exports.getD []).flatMap fun e => e.reads nid else []

section Round

variable {T : Type*}

/-- All readings of a nid on a target in a round, in order. -/
def Round.reads (r : Round T) (l nid : CString) : List (Stats ℤ) :=
  r.visits.flatMap fun visit => if visit.2.dName = l then visit.2.reads nid else []

/-- The last reading of a nid that a table has. -/
def baseline (t : NidTable T) (nid : CString) : Option (Stats ℤ) :=
  (nidFind t nid).map NidStats.nsStats

/-- The last reading of a nid on a target. -/
def Collector.baseline (s : Collector T) (l nid : CString) : Option (Stats ℤ) :=
  (lxtFind s l).bind fun l => Servd.baseline l.lHashTable nid

/-- What the round at `now` has added up for a nid. -/
def Sums.sumAt [DecidableEq T] (n : Sums T) (now : T) (nid : CString) : Stats ℤ :=
  match nidFind n.nidHashTable nid with
  | some ns => if ns.nsTime = now then ns.nsStats else 0
  | none => 0

/-- A table of readings: a map in which every entry has been read. -/
structure BaselineOk [Zero T] (t : NidTable T) : Prop where
  keyed : t.Keyed NidStats.nsNid strHash
  read : ∀ {nid ns}, nidFind t nid = some ns → ns.nsTime ≠ 0

end Round

/-! ## One export -/

section Collect

variable {T : Type*} [Zero T] [DecidableEq T]

omit [DecidableEq T] in
/-- An entry is looked up and then written. -/
theorem nidFind_write (t : NidTable T) (nid : CString) (stats : Stats ℤ) (time : T)
    (y : CString) : nidFind (nidStatsSet (nidStatsLookup t nid).2 nid stats time) y =
      if y = nid then some ⟨stats, time, nid⟩ else nidFind t y := by
  have hset := HashTable.lookup_modify NidStats.nsNid strHash (nidStatsLookup t nid).2
    (f := fun ns => { ns with nsStats := stats, nsTime := time }) (fun _ => rfl) nid y
  apply hset.trans
  rw [nidStatsLookup]
  cases hfind : nidFind t nid with
  | some ns =>
      have hnid : ns.nsNid = nid := HashTable.lookup_key hfind
      have hfind' : t.lookup NidStats.nsNid strHash nid = some ns := hfind
      simp only [hfind', Option.map_some, hnid]
      rfl
  | none =>
      have hadd := HashTable.lookup_addHead NidStats.nsNid strHash t
        (⟨0, 0, nid⟩ : NidStats T)
      simp only [hadd, if_true, Option.map_some]
      split
      · rfl
      · rfl

omit [DecidableEq T] in
theorem keyed_write {t : NidTable T} (h : t.Keyed NidStats.nsNid strHash) (nid : CString)
    (stats : Stats ℤ) (time : T) :
    (nidStatsSet (nidStatsLookup t nid).2 nid stats time).Keyed NidStats.nsNid strHash := by
  refine HashTable.Keyed.modify
    (f := fun ns : NidStats T => { ns with nsStats := stats, nsTime := time }) ?_
    (fun _ => rfl) nid
  rw [nidStatsLookup]
  cases hfind : nidFind t nid with
  | some ns => exact h
  | none => exact h.addHead (a := (⟨0, 0, nid⟩ : NidStats T)) hfind

omit [DecidableEq T] in
theorem nidStatsLookup_fst (t : NidTable T) (nid : CString) :
    (nidStatsLookup t nid).1 = (nidFind t nid).getD ⟨0, 0, nid⟩ := by
  rw [nidStatsLookup]
  cases nidFind t nid <;> rfl

theorem nidFind_addDelta (n : Sums T) (nid : CString) (delta : Stats ℤ) (now : T)
    (y : CString) : nidFind (addDelta n nid delta now).nidHashTable y =
      if y = nid then some ⟨n.sumAt now nid + delta, now, nid⟩
      else nidFind n.nidHashTable y := by
  have hstats : (if ((nidStatsLookup n.nidHashTable nid).1).nsTime ≠ now then 0
      else ((nidStatsLookup n.nidHashTable nid).1).nsStats) = n.sumAt now nid := by
    rw [nidStatsLookup_fst, Sums.sumAt]
    cases nidFind n.nidHashTable nid with
    | none => exact ite_self _
    | some ns => exact ite_not ..
  rw [← hstats]
  exact nidFind_write ..

theorem sumAt_addDelta (n : Sums T) (nid : CString) (delta : Stats ℤ) (now : T)
    (y : CString) : (addDelta n nid delta now).sumAt now y =
      n.sumAt now y + if y = nid then delta else 0 := by
  rw [Sums.sumAt, nidFind_addDelta]
  by_cases hy : y = nid
  · simp [hy]
  · rw [if_neg hy, if_neg hy, add_zero, Sums.sumAt]

/-- What reading some exports of a target does: the readings become the last
ones, and what they gain is added up. -/
structure Collected (now : T) (reads : CString → List (Stats ℤ))
    (st st' : Lxt T × Sums T) : Prop where
  table : BaselineOk st'.1.lHashTable
  sums : st'.2.nidHashTable.Keyed NidStats.nsNid strHash
  lType : st'.1.lType = st.1.lType
  lName : st'.1.lName = st.1.lName
  baseline : ∀ nid, baseline st'.1.lHashTable nid =
    (reads nid).getLast?.or (baseline st.1.lHashTable nid)
  sumAt : ∀ nid, st'.2.sumAt now nid =
    st.2.sumAt now nid + gain (Servd.baseline st.1.lHashTable nid) (reads nid)

namespace Collected

variable {now : T} {reads more : CString → List (Stats ℤ)} {st st' st₂ : Lxt T × Sums T}

theorem refl (htable : BaselineOk st.1.lHashTable)
    (hsums : st.2.nidHashTable.Keyed NidStats.nsNid strHash)
    (hreads : ∀ nid, reads nid = []) : Collected now reads st st where
  table := htable
  sums := hsums
  lType := rfl
  lName := rfl
  baseline nid := by rw [hreads, List.getLast?_nil, Option.none_or]
  sumAt nid := by rw [hreads, gain_nil, add_zero]

theorem trans (h : Collected now reads st st') (h' : Collected now more st' st₂) :
    Collected now (fun nid => reads nid ++ more nid) st st₂ where
  table := h'.table
  sums := h'.sums
  lType := h'.lType.trans h.lType
  lName := h'.lName.trans h.lName
  baseline nid := by
    rw [h'.baseline, h.baseline, List.getLast?_append, Option.or_assoc]
  sumAt nid := by
    rw [h'.sumAt, h.sumAt, h.baseline, gain_append, add_assoc]

end Collected

theorem lxtCollectNid_spec {now : T} (hnow : now ≠ 0) {st : Lxt T × Sums T}
    (htable : BaselineOk st.1.lHashTable)
    (hsums : st.2.nidHashTable.Keyed NidStats.nsNid strHash) {de : Export}
    (hlisted : listed de.isDir de.dName) :
    Collected now de.reads st (lxtCollectNid now st de) := by
  obtain ⟨l, n⟩ := st
  have hreads : ∀ nid, de.reads nid =
      if de.dName = nid then (nidStatsRead de.stats).toList else [] := fun nid => by
    simp [Export.reads, hlisted]
  rw [lxtCollectNid]
  cases hread : nidStatsRead de.stats with
  | none =>
      apply Collected.refl htable hsums
      intro nid
      rw [hreads, hread, Option.toList_none, ite_self]
  | some stats =>
      simp only [nidStatsLookup_fst]
      have hfind := nidFind_write l.lHashTable de.dName stats now
      have hbase : ∀ nid, baseline
          (nidStatsSet (nidStatsLookup l.lHashTable de.dName).2 de.dName stats now) nid =
            (de.reads nid).getLast?.or (baseline l.lHashTable nid) := by
        intro nid
        rw [hreads, hread, baseline, hfind]
        by_cases hnid : de.dName = nid
        · rw [if_pos hnid, if_pos hnid.symm]
          rfl
        · rw [if_neg hnid, if_neg (Ne.symm hnid)]
          rfl
      refine
        { table := ⟨keyed_write htable.keyed de.dName stats now, ?_⟩
          sums := ?_
          lType := rfl
          lName := rfl
          baseline := hbase
          sumAt := ?_ }
      · intro nid ns hns
        rw [hfind] at hns
        split at hns
        · rw [← Option.some.inj hns]
          exact hnow
        · exact htable.read hns
      · split
        · exact hsums
        · exact keyed_write hsums ..
      · intro nid
        have hgain : gain (baseline l.lHashTable nid) (de.reads nid) =
            if de.dName = nid then advance (baseline l.lHashTable nid) stats else 0 := by
          rw [hreads, hread]
          split
          · rw [Option.toList_some, gain_cons, gain_nil, add_zero]
          · exact gain_nil _
        rw [hgain, baseline]
        cases hold : nidFind l.lHashTable de.dName with
        | none =>
            rw [Option.getD_none, if_pos rfl]
            split
            · next heq => rw [← heq, hold, Option.map_none, advance, add_zero]
            · rw [add_zero]
        | some ts =>
            rw [Option.getD_some, if_neg (htable.read hold), sumAt_addDelta]
            by_cases hnid : de.dName = nid
            · rw [if_pos hnid, if_pos hnid.symm, ← hnid, hold, Option.map_some, advance]
            · rw [if_neg hnid, if_neg (Ne.symm hnid)]

/-- The loop over the exports of a target. -/
theorem lxtCollect_spec {now : T} (hnow : now ≠ 0) {st : Lxt T × Sums T}
    (htable : BaselineOk st.1.lHashTable)
    (hsums : st.2.nidHashTable.Keyed NidStats.nsNid strHash)
    (exports : Option (List Export)) :
    Collected now (fun nid => (exports.getD []).flatMap fun e => e.reads nid) st
      (lxtCollect now st exports).1 := by
  cases exports with
  | none => exact .refl htable hsums fun _ => rfl
  | some es =>
      change Collected now (fun nid => es.flatMap fun e => e.reads nid) st
        ((es.filter fun de => listed de.isDir de.dName).foldl (lxtCollectNid now) st)
      induction es generalizing st with
      | nil => exact .refl htable hsums fun _ => rfl
      | cons de es ih =>
          rw [List.filter_cons]
          by_cases hlisted : listed de.isDir de.dName
          · rw [if_pos hlisted, List.foldl_cons]
            have hstep := lxtCollectNid_spec hnow htable hsums hlisted
            exact hstep.trans (ih hstep.table hstep.sums)
          · rw [if_neg hlisted]
            have hnone : ∀ nid, de.reads nid = [] := fun nid =>
              if_neg fun h => hlisted h.1
            have hstep : Collected now de.reads st st := .refl htable hsums hnone
            exact hstep.trans (ih htable hsums)

/-! ## One target -/

/-- The tables are maps, and the two lists are of the targets in the table. -/
structure CollectorOk (s : Collector T) : Prop where
  lxts : s.lxtHashTable.Keyed Lxt.lName strHash
  target : ∀ {name l}, lxtFind s name = some l → BaselineOk l.lHashTable
  sums : s.nidHashTable.Keyed NidStats.nsNid strHash
  nodup : (s.lxtList ++ s.tmpList).Nodup
  mem : ∀ name, lxtFind s name ≠ none ↔ name ∈ s.lxtList ++ s.tmpList

omit [DecidableEq T] in
theorem baselineOk_init (hint : UInt64) : BaselineOk (hashTableInit hint : NidTable T) where
  keyed := HashTable.keyed_init hint
  read h := by cases h

omit [Zero T] [DecidableEq T] in
theorem lxtCount_same (s : Collector T) (lType : ℕ) (change : ℤ) :
    (lxtCount s lType change).toSums = s.toSums ∧
      (lxtCount s lType change).lxtHashTable = s.lxtHashTable ∧
      (lxtCount s lType change).lxtList = s.lxtList ∧
      (lxtCount s lType change).tmpList = s.tmpList := by
  rw [lxtCount]
  split <;> exact ⟨rfl, rfl, rfl, rfl⟩

/-- What `lxt_lookup` leaves. -/
structure LookedUp (s : Collector T) (name : CString) (l : Lxt T) (s' : Collector T) :
    Prop where
  ok : CollectorOk s'
  find : ∀ y, lxtFind s' y = if y = name then some l else lxtFind s y
  lName : l.lName = name
  sums : s'.toSums = s.toSums
  baseline : ∀ nid, baseline l.lHashTable nid = s.baseline name nid
  lxtList : s.lxtList ⊆ s'.lxtList
  tmpList : s'.tmpList = s.tmpList

omit [DecidableEq T] in
theorem lxtLookup_spec {s : Collector T} (h : CollectorOk s) (name : CString) (type : ℕ) :
    LookedUp s name (lxtLookup s name type).1 (lxtLookup s name type).2 := by
  rw [lxtLookup]
  cases hfind : lxtFind s name with
  | some l =>
      exact
        { ok := h
          find := fun y => by
            by_cases hy : y = name
            · rw [if_pos hy, hy]
              exact hfind
            · rw [if_neg hy]
          lName := HashTable.lookup_key hfind
          sums := rfl
          baseline := fun nid => by rw [Collector.baseline, hfind, Option.bind_some]
          lxtList := List.Subset.refl _
          tmpList := rfl }
  | none =>
      have hnot : name ∉ s.lxtList ++ s.tmpList := fun hmem =>
        (h.mem name).2 hmem hfind
      obtain ⟨hsums, htable, hlist, htmp⟩ := lxtCount_same
        { s with
          lxtHashTable := s.lxtHashTable.addHead (strHash name) (lxtNew s name type)
          lxtList := name :: s.lxtList } (lxtNew s name type).lType 1
      simp only
      generalize lxtCount _ _ _ = s' at hsums htable hlist htmp ⊢
      have hfind' : ∀ y, lxtFind s' y =
          if y = name then some (lxtNew s name type) else lxtFind s y := fun y => by
        rw [lxtFind, htable]
        exact HashTable.lookup_addHead Lxt.lName strHash s.lxtHashTable (lxtNew s name type) y
      refine
        { ok := ⟨?_, fun {y l} hl => ?_, hsums ▸ h.sums, ?_, fun y => ?_⟩
          find := hfind'
          lName := rfl
          sums := hsums
          baseline := fun nid => by rw [Collector.baseline, hfind]; rfl
          lxtList := hlist ▸ List.subset_cons_self name s.lxtList
          tmpList := htmp }
      · rw [htable]
        exact h.lxts.addHead (a := lxtNew s name type) hfind
      · rw [hfind'] at hl
        split at hl
        · rw [← Option.some.inj hl]
          exact baselineOk_init _
        · exact h.target hl
      · rw [hlist, htmp]
        exact List.nodup_cons.2 ⟨hnot, h.nodup⟩
      · rw [hfind', hlist, htmp, List.cons_append, List.mem_cons]
        by_cases hy : y = name
        · simp [hy]
        · rw [if_neg hy, or_iff_right hy, h.mem]

/-- What some visits of a round do, with all readings they make: the readings
become the last ones of their targets, and what they gain is added up. -/
structure Visited (now : T) (targets : Finset CString)
    (reads : CString → CString → List (Stats ℤ)) (s s' : Collector T) : Prop where
  ok : CollectorOk s'
  baseline : ∀ l nid, s'.baseline l nid = (reads l nid).getLast?.or (s.baseline l nid)
  sumAt : ∀ nid, s'.sumAt now nid =
    s.sumAt now nid + ∑ l ∈ targets, gain (s.baseline l nid) (reads l nid)
  lxtList : s.lxtList ⊆ s'.lxtList
  tmpList : s'.tmpList ⊆ s.tmpList
  /-- A target that is read is one that this round keeps. -/
  kept : ∀ {l nid}, reads l nid ≠ [] → l ∈ s'.lxtList

namespace Visited

variable {now : T} {targets : Finset CString}
  {reads more : CString → CString → List (Stats ℤ)} {s s' s₂ : Collector T}

theorem refl (h : CollectorOk s) (hreads : ∀ l nid, reads l nid = []) :
    Visited now targets reads s s where
  ok := h
  baseline l nid := by rw [hreads, List.getLast?_nil, Option.none_or]
  sumAt nid := by
    rw [Finset.sum_eq_zero fun l _ => by rw [hreads, gain_nil], add_zero]
  lxtList := List.Subset.refl _
  tmpList := List.Subset.refl _
  kept hne := absurd (hreads _ _) hne

theorem trans (h : Visited now targets reads s s') (h' : Visited now targets more s' s₂) :
    Visited now targets (fun l nid => reads l nid ++ more l nid) s s₂ where
  ok := h'.ok
  baseline l nid := by
    rw [h'.baseline, h.baseline, List.getLast?_append, Option.or_assoc]
  sumAt nid := by
    have hgain : ∀ l ∈ targets, gain (s.baseline l nid) (reads l nid ++ more l nid) =
        gain (s.baseline l nid) (reads l nid) + gain (s'.baseline l nid) (more l nid) :=
      fun l _ => by rw [gain_append, h.baseline]
    rw [h'.sumAt, h.sumAt, Finset.sum_congr rfl hgain, Finset.sum_add_distrib, add_assoc]
  lxtList := List.Subset.trans h.lxtList h'.lxtList
  tmpList := List.Subset.trans h'.tmpList h.tmpList
  kept {l nid} hne := by
    by_cases hreads : reads l nid = []
    · apply h'.kept
      rwa [hreads, List.nil_append] at hne
    · exact h'.lxtList (h.kept hreads)

end Visited

omit [Zero T] [DecidableEq T] in
/-- `list_move` keeps the two lists together the same. -/
theorem lxtMove_lists {s : Collector T} {name : CString}
    (hnodup : (s.lxtList ++ s.tmpList).Nodup) (hmem : name ∈ s.lxtList ++ s.tmpList) :
    ((lxtMove s name).lxtList ++ (lxtMove s name).tmpList).Nodup ∧
      ∀ y, y ∈ (lxtMove s name).lxtList ++ (lxtMove s name).tmpList ↔
        y ∈ s.lxtList ++ s.tmpList := by
  obtain ⟨hlist, htmp, -⟩ := List.nodup_append.1 hnodup
  have hnot : name ∉ s.lxtList.erase name ++ s.tmpList.erase name := by
    rw [List.mem_append, not_or]
    exact ⟨hlist.not_mem_erase, htmp.not_mem_erase⟩
  constructor
  · apply List.nodup_cons.2
    exact ⟨hnot, hnodup.sublist (List.erase_sublist.append List.erase_sublist)⟩
  · intro y
    change y ∈ name :: (s.lxtList.erase name ++ s.tmpList.erase name) ↔ _
    by_cases hy : y = name
    · rw [hy]
      exact iff_of_true List.mem_cons_self hmem
    · simp [hy, List.mem_erase_of_ne hy]

/-- The readings of a target are written back to the target that was looked
up. -/
theorem visited_write {now : T} {s s₁ s₂ : Collector T} {name : CString} {l : Lxt T}
    {st : Lxt T × Sums T} {reads : CString → List (Stats ℤ)}
    (hlooked : LookedUp s name l s₁) (hread : Collected now reads (l, s₁.toSums) st)
    (hsums : s₂.toSums = st.2)
    (htable : s₂.lxtHashTable = s₁.lxtHashTable.modify Lxt.lName strHash name
      fun old => { old with lHashTable := st.1.lHashTable })
    (hnodup : (s₂.lxtList ++ s₂.tmpList).Nodup)
    (hmem : ∀ y, y ∈ s₂.lxtList ++ s₂.tmpList ↔ y ∈ s₁.lxtList ++ s₁.tmpList)
    (hlist : s₁.lxtList ⊆ s₂.lxtList) (htmp : s₂.tmpList ⊆ s₁.tmpList)
    (hkept : ∀ nid, reads nid ≠ [] → name ∈ s₂.lxtList)
    {targets : Finset CString} (hname : name ∈ targets) :
    Visited now targets (fun l nid => if name = l then reads nid else []) s s₂ := by
  have hself : lxtFind s₁ name = some l := (hlooked.find name).trans (if_pos rfl)
  have hfind : ∀ y, lxtFind s₂ y =
      if y = name then some { l with lHashTable := st.1.lHashTable } else lxtFind s y := by
    intro y
    rw [lxtFind, htable]
    refine (HashTable.lookup_modify Lxt.lName strHash s₁.lxtHashTable
      (f := fun old => { old with lHashTable := st.1.lHashTable }) (fun _ => rfl) name
      y).trans ?_
    by_cases hy : y = name
    · rw [if_pos hy, if_pos hy]
      exact congrArg (Option.map _) hself
    · rw [if_neg hy, if_neg hy]
      exact (hlooked.find y).trans (if_neg hy)
  refine
    { ok := ⟨?_, fun {y l'} hl => ?_, hsums ▸ hread.sums, hnodup, fun y => ?_⟩
      baseline := fun y nid => ?_
      sumAt := fun nid => ?_
      lxtList := List.Subset.trans hlooked.lxtList hlist
      tmpList := hlooked.tmpList ▸ htmp
      kept := fun {y nid} hne => ?_ }
  · rw [htable]
    exact hlooked.ok.lxts.modify (f := fun old => { old with lHashTable := st.1.lHashTable })
      (fun _ => rfl) name
  · rw [hfind] at hl
    by_cases hy : y = name
    · rw [if_pos hy] at hl
      rw [← Option.some.inj hl]
      exact hread.table
    · rw [if_neg hy] at hl
      exact hlooked.ok.target ((hlooked.find y).trans ((if_neg hy).trans hl))
  · rw [hmem, ← hlooked.ok.mem, hfind, hlooked.find]
    by_cases hy : y = name
    · simp [hy]
    · rw [if_neg hy, if_neg hy]
  · rw [Collector.baseline, hfind]
    by_cases hy : y = name
    · rw [if_pos hy, if_pos hy.symm, hy, ← hlooked.baseline]
      exact hread.baseline nid
    · rw [if_neg hy, if_neg (Ne.symm hy), List.getLast?_nil, Option.none_or]
      rfl
  · have hsum := hread.sumAt nid
    rw [hlooked.baseline, hlooked.sums] at hsum
    rw [hsums, hsum, Finset.sum_eq_single_of_mem name hname, if_pos rfl]
    intro y _ hy
    rw [if_neg (Ne.symm hy), gain_nil]
  · by_cases hy : name = y
    · rw [if_pos hy] at hne
      exact hy ▸ hkept nid hne
    · rw [if_neg hy] at hne
      exact absurd rfl hne

theorem collectTarget_spec {now : T} (hnow : now ≠ 0) {s : Collector T} (h : CollectorOk s)
    {targets : Finset CString} {visit : ℕ × Target} (hvisit : visit.2.dName ∈ targets) :
    Visited now targets
      (fun l nid => if visit.2.dName = l then visit.2.reads nid else []) s
      (collectTarget now s visit) := by
  obtain ⟨type, de⟩ := visit
  simp only at hvisit ⊢
  rw [collectTarget]
  simp only
  by_cases hlisted : listed de.isDir de.dName
  · rw [if_pos hlisted]
    have hlooked := lxtLookup_spec h de.dName type
    generalize lxtLookup s de.dName type = looked at hlooked ⊢
    obtain ⟨l, s₁⟩ := looked
    simp only at hlooked ⊢
    have hself : lxtFind s₁ de.dName = some l := (hlooked.find de.dName).trans (if_pos rfl)
    have hread : Collected now (fun nid => (de.exports.getD []).flatMap fun e => e.reads nid)
        (l, s₁.toSums) (lxtCollect now (l, s₁.toSums) de.exports).1 :=
      lxtCollect_spec hnow (hlooked.ok.target hself) hlooked.ok.sums de.exports
    have hreads : de.reads = fun nid => (de.exports.getD []).flatMap fun e => e.reads nid := by
      funext nid
      rw [Target.reads, if_pos hlisted]
    have hmem : de.dName ∈ s₁.lxtList ++ s₁.tmpList :=
      (hlooked.ok.mem de.dName).1 (hself ▸ Option.some_ne_none l)
    rw [← hreads] at hread
    cases hexports : de.exports with
    | none =>
        rw [hexports] at hread
        have hnone : ∀ nid, de.reads nid = [] := fun nid => by rw [hreads, hexports]; rfl
        apply visited_write hlooked hread
        · rfl
        · rfl
        · exact hlooked.ok.nodup
        · exact fun _ => .rfl
        · exact List.Subset.refl _
        · exact List.Subset.refl _
        · exact fun nid hne => absurd (hnone nid) hne
        · exact hvisit
    | some es =>
        rw [hexports] at hread
        obtain ⟨hnodup', hmem'⟩ := lxtMove_lists hlooked.ok.nodup hmem
        apply visited_write hlooked hread
        · rfl
        · rfl
        · exact hnodup'
        · exact hmem'
        · intro y hy
          by_cases heq : y = de.dName
          · rw [heq]
            exact List.mem_cons_self
          · exact List.mem_cons_of_mem _ ((List.mem_erase_of_ne heq).2 hy)
        · exact List.erase_subset
        · exact fun nid _ => List.mem_cons_self
        · exact hvisit
  · rw [if_neg hlisted]
    apply Visited.refl h
    intro l nid
    rw [Target.reads, if_neg hlisted, ite_self]

/-! ## One round -/

/-- The loops over the three top directories. -/
theorem visits_spec {now : T} (hnow : now ≠ 0) {s : Collector T} (h : CollectorOk s)
    {targets : Finset CString} {visits : List (ℕ × Target)}
    (hvisits : ∀ visit ∈ visits, visit.2.dName ∈ targets) :
    Visited now targets (fun l nid => visits.flatMap fun visit =>
        if visit.2.dName = l then visit.2.reads nid else []) s
      (visits.foldl (collectTarget now) s) := by
  induction visits generalizing s with
  | nil => exact .refl h fun _ _ => rfl
  | cons visit visits ih =>
      rw [List.forall_mem_cons] at hvisits
      have hstep := collectTarget_spec hnow h hvisits.1
      exact hstep.trans (ih hstep.ok hvisits.2)

omit [DecidableEq T] in
/-- The targets that are left on `tmp_list` are deleted, in order. -/
theorem sweep_spec {s : Collector T} (h : CollectorOk s) {names : List CString}
    (hnames : s.tmpList = names) :
    CollectorOk (names.foldl lxtDelete s) ∧
      (names.foldl lxtDelete s).toSums = s.toSums ∧
      (names.foldl lxtDelete s).lxtList = s.lxtList ∧
      (names.foldl lxtDelete s).tmpList = [] ∧
      ∀ y, lxtFind (names.foldl lxtDelete s) y =
        if y ∈ names then none else lxtFind s y := by
  induction names generalizing s with
  | nil => exact ⟨h, rfl, rfl, hnames, fun y => (if_neg List.not_mem_nil).symm⟩
  | cons name names ih =>
      have hnodup := h.nodup
      rw [hnames] at hnodup
      obtain ⟨hlist, htmp, hdisjoint⟩ := List.nodup_append.1 hnodup
      have hnot : name ∉ s.lxtList := fun hmem =>
        hdisjoint name hmem name List.mem_cons_self rfl
      obtain ⟨l, hl⟩ := Option.ne_none_iff_exists'.1 ((h.mem name).2
        (List.mem_append_right _ (hnames ▸ List.mem_cons_self)))
      obtain ⟨hsums, -⟩ := lxtCount_same s l.lType (-1)
      have hdelete : lxtDelete s name = { lxtCount s l.lType (-1) with
          lxtHashTable := s.lxtHashTable.erase Lxt.lName strHash name
          lxtList := s.lxtList.erase name
          tmpList := s.tmpList.erase name } := by
        rw [lxtDelete, hl]
      have hfind : ∀ y, lxtFind (lxtDelete s name) y =
          if y = name then none else lxtFind s y := fun y => by
        rw [hdelete]
        exact h.lxts.lookup_erase name y
      have hlxtList : (lxtDelete s name).lxtList = s.lxtList := by
        rw [hdelete]
        exact List.erase_of_not_mem hnot
      have htmpList : (lxtDelete s name).tmpList = names := by
        rw [hdelete, hnames]
        exact List.erase_cons_head ..
      have hok : CollectorOk (lxtDelete s name) := by
        refine ⟨?_, fun {y l'} hl' => ?_, ?_, ?_, fun y => ?_⟩
        · rw [hdelete]
          exact h.lxts.erase name
        · rw [hfind] at hl'
          split at hl'
          · cases hl'
          · exact h.target hl'
        · rw [hdelete]
          exact hsums ▸ h.sums
        · rw [hlxtList, htmpList]
          exact hnodup.sublist (List.sublist_cons_self name names |>.append_left _)
        · rw [hfind, hlxtList, htmpList]
          by_cases hy : y = name
          · rw [if_pos hy, hy]
            simp [hnot, (List.nodup_cons.1 htmp).1]
          · rw [if_neg hy, h.mem, hnames]
            simp [hy]
      obtain ⟨hok', hsums', hlist', htmp', hfind'⟩ := ih hok htmpList
      refine ⟨hok', hsums'.trans ?_, hlist'.trans hlxtList, htmp', fun y => ?_⟩
      · rw [hdelete]
        exact hsums
      · rw [List.foldl_cons, hfind', hfind]
        by_cases hy : y = name
        · simp [hy]
        · simp [hy]

/-- What `collect_all` does, with all readings it makes. -/
structure Gathered (now : T) (targets : Finset CString)
    (reads : CString → CString → List (Stats ℤ)) (s s' : Collector T) : Prop where
  ok : CollectorOk s'
  tmpList : s'.tmpList = []
  /-- A target that is not kept is forgotten. -/
  baseline : ∀ l nid, s'.baseline l nid =
    if l ∈ s'.lxtList then (reads l nid).getLast?.or (s.baseline l nid) else none
  sumAt : ∀ nid, s'.sumAt now nid =
    s.sumAt now nid + ∑ l ∈ targets, gain (s.baseline l nid) (reads l nid)
  kept : ∀ {l nid}, reads l nid ≠ [] → l ∈ s'.lxtList

theorem collectAll_spec {s : Collector T} (h : CollectorOk s) (htmp : s.tmpList = [])
    {r : Round T} (hnow : r.now ≠ 0) {targets : Finset CString}
    (hvisits : ∀ visit ∈ r.visits, visit.2.dName ∈ targets) :
    Gathered r.now targets r.reads s (collectAll s r) := by
  have hsplice : CollectorOk { s with tmpList := s.lxtList, lxtList := [] } := by
    refine ⟨h.lxts, h.target, h.sums, ?_, fun name => (h.mem name).trans ?_⟩
    · have hnodup := h.nodup
      rwa [htmp, List.append_nil] at hnodup
    · rw [htmp, List.append_nil, List.nil_append]
  have hvisited := visits_spec hnow hsplice hvisits
  rw [collectAll]
  generalize r.visits.foldl (collectTarget r.now) _ = s₁ at hvisited ⊢
  obtain ⟨hok, hsums, hlist, htmp', hfind⟩ := sweep_spec hvisited.ok rfl
  refine
    { ok := hok
      tmpList := htmp'
      baseline := fun l nid => ?_
      sumAt := fun nid => ?_
      kept := fun hne => ?_ }
  · rw [Collector.baseline, hfind, hlist]
    obtain ⟨-, -, hdisjoint⟩ := List.nodup_append.1 hvisited.ok.nodup
    by_cases hl : l ∈ s₁.lxtList
    · rw [if_pos hl, if_neg fun hmem => hdisjoint l hl l hmem rfl]
      exact hvisited.baseline l nid
    · rw [if_neg hl]
      by_cases hmem : l ∈ s₁.tmpList
      · rw [if_pos hmem, Option.bind_none]
      · have hnone : lxtFind s₁ l = none := by
          by_contra hsome
          rcases List.mem_append.1 ((hvisited.ok.mem l).1 hsome) with hlist | htmp
          · exact hl hlist
          · exact hmem htmp
        rw [if_neg hmem, hnone, Option.bind_none]
  · rw [hsums]
    exact hvisited.sumAt nid
  · rw [hlist]
    exact hvisited.kept hne

/-! ## Printing -/

omit [Zero T] [DecidableEq T] in
/-- The sum of the triples that some lines have for a nid. -/
def linesSum (lines : List (CString × Stats ℤ)) (nid : CString) : Stats ℤ :=
  ((lines.filter fun line => line.1 = nid).map Prod.snd).sum

omit [Zero T] in
/-- A nid is printed with its sum, or not at all if that is zero. -/
theorem linesSum_printStats {s : Collector T}
    (h : s.nidHashTable.Keyed NidStats.nsNid strHash) (now : T) (nid : CString) :
    linesSum (printStats s now).1 nid = s.sumAt now nid := by
  have hentries := h.filter_key nid
  have hlines : ((printStats s now).1.filter fun line => line.1 = nid) =
      (((s.nidHashTable.toList.filter fun ns => ns.nsNid = nid).filter
        fun ns => !decide (ns.nsTime ≠ now)).filter fun ns => ns.nsStats ≠ 0).map
          fun ns => (ns.nsNid, ns.nsStats) := by
    rw [printStats, List.filter_map]
    simp only [List.filter_filter]
    congr 1
    apply List.filter_congr
    intro ns _
    simp only [comp_apply]
    ac_rfl
  rw [linesSum, hlines, hentries, Sums.sumAt, nidFind]
  cases s.nidHashTable.lookup NidStats.nsNid strHash nid with
  | none => rfl
  | some ns =>
      by_cases htime : ns.nsTime = now
      · by_cases hzero : ns.nsStats = 0
        · simp [htime, hzero]
        · simp [htime, hzero]
      · simp [htime]

omit [Zero T] in
/-- Only nids of this round stay in the table. -/
theorem nidFind_printStats {s : Collector T}
    (h : s.nidHashTable.Keyed NidStats.nsNid strHash) (now : T) (nid : CString) :
    nidFind (printStats s now).2.nidHashTable nid =
      (nidFind s.nidHashTable nid).filter fun ns => ns.nsTime = now := by
  apply (h.lookup_remove _ nid).trans
  congr 1
  funext ns
  simp

/-- The sums of the round are not started. -/
def Collector.Fresh (s : Collector T) (now : T) : Prop :=
  ∀ nid ns, nidFind s.nidHashTable nid = some ns → ns.nsTime ≠ now

/-- What a round does. -/
structure Rounded (r : Round T) (targets : Finset CString) (s : Collector T)
    (lines : List (CString × Stats ℤ)) (s' : Collector T) : Prop where
  ok : CollectorOk s'
  tmpList : s'.tmpList = []
  baseline : ∀ l nid, s'.baseline l nid =
    if l ∈ s'.lxtList then (r.reads l nid).getLast?.or (s.baseline l nid) else none
  nodup : (lines.map Prod.fst).Nodup
  lines : ∀ nid, linesSum lines nid =
    ∑ l ∈ targets, gain (s.baseline l nid) (r.reads l nid)
  kept : ∀ {l nid}, r.reads l nid ≠ [] → l ∈ s'.lxtList
  fresh : ∀ {now}, r.now ≠ now → s'.Fresh now

theorem round_spec {s : Collector T} (h : CollectorOk s) (htmp : s.tmpList = [])
    {r : Round T} (hnow : r.now ≠ 0) (hfresh : s.Fresh r.now) {targets : Finset CString}
    (hvisits : ∀ visit ∈ r.visits, visit.2.dName ∈ targets) :
    Rounded r targets s (round s r).1 (round s r).2 := by
  have hgathered := collectAll_spec h htmp hnow hvisits
  have hzero : ∀ nid, s.sumAt r.now nid = 0 := fun nid => by
    rw [Sums.sumAt]
    cases hfind : nidFind s.nidHashTable nid with
    | none => rfl
    | some ns => exact if_neg (hfresh nid ns hfind)
  rw [round]
  refine
    { ok := ⟨hgathered.ok.lxts, hgathered.ok.target, hgathered.ok.sums.remove _,
        hgathered.ok.nodup, hgathered.ok.mem⟩
      tmpList := hgathered.tmpList
      baseline := hgathered.baseline
      nodup := ?_
      lines := fun nid => ?_
      kept := hgathered.kept
      fresh := fun {now} hne nid ns hns => ?_ }
  · rw [printStats, List.map_map]
    have hkeys := hgathered.ok.sums.nodup_map_key
    exact hkeys.sublist ((List.filter_sublist.trans List.filter_sublist).map _)
  · rw [linesSum_printStats hgathered.ok.sums, hgathered.sumAt, hzero, zero_add]
  · rw [nidFind_printStats hgathered.ok.sums, Option.filter_eq_some_iff] at hns
    rw [of_decide_eq_true hns.2]
    exact hne

end Collect

/-! ## Runs -/

/-- A round of a run, its lines, and the state after it. -/
structure Stage (T : Type*) where
  round : Round T
  lines : List (CString × Stats ℤ)
  after : Collector T

/-- The target is tracked after the round. -/
def Stage.tracks {T : Type*} (st : Stage T) (l : CString) : Bool :=
  l ∈ st.after.lxtList

section Run

variable {T : Type*} [Zero T] [LinearOrder T]

def run (s : Collector T) : List (Round T) → List (Stage T)
  | [] => []
  | r :: rs => ⟨r, (round s r).1, (round s r).2⟩ :: run (round s r).2 rs

omit [Zero T] [LinearOrder T] in
/-- The names of all targets of some rounds. -/
def targets (rounds : List (Round T)) : Finset CString :=
  (rounds.flatMap fun r => r.visits.map fun visit => visit.2.dName).toFinset

omit [Zero T] [LinearOrder T] in
theorem mem_targets {rounds : List (Round T)} :
    ∀ r ∈ rounds, ∀ visit ∈ r.visits, visit.2.dName ∈ targets rounds := by
  intro r hr visit hvisit
  rw [targets, List.mem_toFinset, List.mem_flatMap]
  exact ⟨r, hr, List.mem_map_of_mem hvisit⟩

omit [LinearOrder T] in
theorem collectorOk_init (hint : UInt64) : CollectorOk (servdInit T hint) where
  lxts := HashTable.keyed_init _
  target h := by cases h
  sums := HashTable.keyed_init _
  nodup := List.nodup_nil
  mem name := iff_of_false (fun h => h rfl) List.not_mem_nil

/-- What a run prints for a nid is what the readings on each target gain. -/
theorem run_total {s : Collector T} (h : CollectorOk s) (htmp : s.tmpList = [])
    {names : Finset CString} {rounds : List (Round T)}
    (hnames : ∀ r ∈ rounds, ∀ visit ∈ r.visits, visit.2.dName ∈ names)
    (hpos : ∀ r ∈ rounds, 0 < r.now)
    (hmono : (rounds.map Round.now).Pairwise (· < ·))
    (hfresh : ∀ r ∈ rounds, s.Fresh r.now) (nid : CString) :
    ((run s rounds).map fun st => linesSum st.lines nid).sum =
      ∑ l ∈ names, total (fun st => st.tracks l) (fun st => st.round.reads l nid)
        (s.baseline l nid) (run s rounds) := by
  induction rounds generalizing s with
  | nil => exact (Finset.sum_eq_zero fun _ _ => rfl).symm
  | cons r rounds ih =>
      rw [List.forall_mem_cons] at hnames hpos hfresh
      rw [List.map_cons, List.pairwise_cons] at hmono
      have hround := round_spec h htmp hpos.1.ne' hfresh.1 hnames.1
      have hlater : ∀ r' ∈ rounds, (round s r).2.Fresh r'.now := fun r' hr' =>
        hround.fresh (hmono.1 r'.now (List.mem_map_of_mem hr')).ne
      have hrest := ih hround.ok hround.tmpList hnames.2 hpos.2 hmono.2 hlater
      have hterm : ∀ l ∈ names, total (fun st => st.tracks l)
          (fun st => st.round.reads l nid) (s.baseline l nid) (run s (r :: rounds)) =
          gain (s.baseline l nid) (r.reads l nid) + total (fun st => st.tracks l)
            (fun st => st.round.reads l nid) ((round s r).2.baseline l nid)
            (run (round s r).2 rounds) := fun l _ => by
        rw [run, total, hround.baseline, carry]
        simp only [Stage.tracks, decide_eq_true_eq]
      rw [Finset.sum_congr rfl hterm, Finset.sum_add_distrib, ← hrest, ← hround.lines, run,
        List.map_cons, List.sum_cons]

/-- A target that a round reads is tracked after it. -/
theorem run_kept {s : Collector T} (h : CollectorOk s) (htmp : s.tmpList = [])
    {rounds : List (Round T)} (hpos : ∀ r ∈ rounds, 0 < r.now)
    (hmono : (rounds.map Round.now).Pairwise (· < ·))
    (hfresh : ∀ r ∈ rounds, s.Fresh r.now) (l nid : CString) :
    ∀ st ∈ run s rounds, st.tracks l = false → st.round.reads l nid = [] := by
  induction rounds generalizing s with
  | nil => exact fun st hst => absurd hst List.not_mem_nil
  | cons r rounds ih =>
      rw [List.forall_mem_cons] at hpos hfresh
      rw [List.map_cons, List.pairwise_cons] at hmono
      have hround : Rounded r (r.visits.map fun visit => visit.2.dName).toFinset s
          (round s r).1 (round s r).2 :=
        round_spec h htmp hpos.1.ne' hfresh.1 fun visit hvisit =>
          List.mem_toFinset.2 (List.mem_map_of_mem hvisit)
      rw [run, List.forall_mem_cons]
      constructor
      · intro hout
        by_contra hne
        exact of_decide_eq_false hout (hround.kept hne)
      · exact ih hround.ok hround.tmpList hpos.2 hmono.2 fun r' hr' =>
          hround.fresh (hmono.1 r'.now (List.mem_map_of_mem hr')).ne

/-- In every run from the start, the triples that are printed for a nid add up
to the growth of its readings over each period in which a target is tracked. -/
theorem accounting_telescopes (hint : UInt64) {rounds : List (Round T)}
    (hpos : ∀ r ∈ rounds, 0 < r.now) (hmono : (rounds.map Round.now).Pairwise (· < ·))
    (nid : CString) :
    ((run (servdInit T hint) rounds).map fun st => linesSum st.lines nid).sum =
      ∑ l ∈ targets rounds,
        (((run (servdInit T hint) rounds).splitOnP fun st => !st.tracks l).map
          fun period => growth (period.flatMap fun st => st.round.reads l nid)).sum := by
  have hfresh : ∀ r ∈ rounds, (servdInit T hint).Fresh r.now := fun r _ nid ns hns => by
    cases hns
  rw [run_total (collectorOk_init hint) rfl mem_targets hpos hmono hfresh]
  apply Finset.sum_congr rfl
  intro l _
  apply total_eq_growth
  exact run_kept (collectorOk_init hint) rfl hpos hmono hfresh l nid

/-- A stats file with one line. -/
def sampleFile (sum : CString) : Option (List Byte × Buffer.Rc) :=
  some (lit "read_bytes 1 samples [bytes] 1 1 " ++ sum ++ lit "\n", .ok 4096)

/-- One export on one target, read every second. -/
def sampleRound (now : ℕ) (sum : CString) : Round ℕ where
  now := now
  mds := none
  mdt := none
  obdfilter := some [⟨lit "OST0", true, some [⟨lit "n1", true, sampleFile sum⟩]⟩]

/-- The target goes away after two rounds. -/
def sampleGone : List (Round ℕ) :=
  [sampleRound 1 (lit "100"), sampleRound 2 (lit "150"),
    { now := 3, mds := none, mdt := none, obdfilter := some [] }]

/-- It comes back with lower counters. -/
def sampleRounds : List (Round ℕ) :=
  sampleGone ++ [sampleRound 4 (lit "20"), sampleRound 5 (lit "170")]

theorem accounting_telescopes_sample :
    ((run (servdInit ℕ 16) sampleRounds).map fun st => linesSum st.lines (lit "n1")).sum =
      ∑ l ∈ targets sampleRounds,
        (((run (servdInit ℕ 16) sampleRounds).splitOnP fun st => !st.tracks l).map
          fun period => growth (period.flatMap
            fun st => st.round.reads l (lit "n1"))).sum :=
  accounting_telescopes 16 (by decide) (by decide) (lit "n1")

end Run

end Xltop.Servd
