import Xltop.Servd.Rounds

/-!
# Targets and nids that are held

The list of targets is rebuilt in every round: survivors move back to it, new
targets go there at once, and what is left behind is deleted.  Three numbers are
kept by hand next to the tables.
-/

namespace Xltop.Servd

open Function
open Xltop.Text
open Xltop.Hash
open Xltop.Rate
open Xltop.Telescoping

section Collect

variable {T : Type*}

/-! ## Numbers -/

/-- `ss_nr_mdt` and `ss_nr_ost` are the numbers of targets, by type. -/
structure Collector.Counted (s : Collector T) : Prop where
  mdt : s.ssNrMdt = s.lxtHashTable.toList.countP fun l => l.lType = lxtTypeMdt
  ost : s.ssNrOst = s.lxtHashTable.toList.countP fun l => l.lType ≠ lxtTypeMdt

/-- A target more, with its update of the numbers. -/
theorem Collector.Counted.add {s s' : Collector T} (h : s.Counted) {l : Lxt T}
    (htable : s'.lxtHashTable.toList.Perm (l :: s.lxtHashTable.toList))
    (hmdt : s'.ssNrMdt = (lxtCount s l.lType 1).ssNrMdt)
    (host : s'.ssNrOst = (lxtCount s l.lType 1).ssNrOst) : s'.Counted := by
  rw [lxtCount] at hmdt host
  constructor
  · rw [hmdt, htable.countP_eq, List.countP_cons]
    by_cases hl : l.lType = lxtTypeMdt
    · simp [hl, h.mdt]
    · simp [hl, h.mdt]
  · rw [host, htable.countP_eq, List.countP_cons]
    by_cases hl : l.lType = lxtTypeMdt
    · simp [hl, h.ost]
    · simp [hl, h.ost]

/-- A target less. -/
theorem Collector.Counted.del {s s' : Collector T} (h : s.Counted) {l : Lxt T}
    (htable : s.lxtHashTable.toList.Perm (l :: s'.lxtHashTable.toList))
    (hmdt : s'.ssNrMdt = (lxtCount s l.lType (-1)).ssNrMdt)
    (host : s'.ssNrOst = (lxtCount s l.lType (-1)).ssNrOst) : s'.Counted := by
  have hmdt' := h.mdt
  have host' := h.ost
  rw [htable.countP_eq, List.countP_cons] at hmdt' host'
  rw [lxtCount] at hmdt host
  constructor
  · rw [hmdt]
    by_cases hl : l.lType = lxtTypeMdt
    · simp [hl, hmdt']
    · simp [hl, hmdt']
  · rw [host]
    by_cases hl : l.lType = lxtTypeMdt
    · simp [hl, host']
    · simp [hl, host']

/-- Targets that keep their types keep the numbers. -/
theorem Collector.Counted.same {s s' : Collector T} (h : s.Counted)
    (htypes : s'.lxtHashTable.toList.map Lxt.lType = s.lxtHashTable.toList.map Lxt.lType)
    (hmdt : s'.ssNrMdt = s.ssNrMdt) (host : s'.ssNrOst = s.ssNrOst) : s'.Counted := by
  have hcount : ∀ p : ℕ → Bool, s'.lxtHashTable.toList.countP (p ∘ Lxt.lType) =
      s.lxtHashTable.toList.countP (p ∘ Lxt.lType) := fun p => by
    rw [← List.countP_map, htypes, List.countP_map]
  exact
    { mdt := by
        rw [hmdt, h.mdt]
        exact_mod_cast (hcount fun lType => lType = lxtTypeMdt).symm
      ost := by
        rw [host, h.ost]
        exact_mod_cast (hcount fun lType => lType ≠ lxtTypeMdt).symm }

variable [Zero T] [DecidableEq T]

omit [DecidableEq T] in
/-- `ss_nr_nid` is the number of nids, and every entry has its time. -/
structure Sums.Counted (n : Sums T) : Prop where
  number : n.ssNrNid = n.nidHashTable.toList.length
  timed : ∀ {nid ns}, nidFind n.nidHashTable nid = some ns → ns.nsTime ≠ 0

omit [Zero T] [DecidableEq T] in
/-- A nid has its sum from the round at `now`. -/
def Sums.Current (n : Sums T) (now : T) (nid : CString) : Prop :=
  ∃ ns, nidFind n.nidHashTable nid = some ns ∧ ns.nsTime = now

theorem addDelta_counted {n : Sums T} (h : n.Counted) {now : T} (hnow : now ≠ 0)
    (nid : CString) (delta : Stats ℤ) : (addDelta n nid delta now).Counted := by
  constructor
  · have hlength : (addDelta n nid delta now).nidHashTable.toList.length =
        (nidStatsLookup n.nidHashTable nid).2.toList.length :=
      HashTable.length_toList_modify NidStats.nsNid strHash _ nid _
    rw [hlength, addDelta]
    simp only [nidStatsLookup_fst]
    rw [nidStatsLookup]
    cases hfind : nidFind n.nidHashTable nid with
    | some ns =>
        rw [Option.getD_some, if_neg (h.timed hfind)]
        exact h.number
    | none =>
        have hadd := n.nidHashTable.toList_addHead (⟨0, 0, nid⟩ : NidStats T) (strHash nid)
        rw [Option.getD_none, if_pos rfl, h.number, hadd.length_eq, List.length_cons]
        push_cast
        rfl
  · intro y ns hns
    rw [nidFind_addDelta] at hns
    split at hns
    · rw [← Option.some.inj hns]
      exact hnow
    · exact h.timed hns

theorem current_addDelta {n : Sums T} {now : T} {nid : CString} {delta : Stats ℤ}
    {y : CString} : (addDelta n nid delta now).Current now y ↔
      n.Current now y ∨ y = nid := by
  rw [Sums.Current, nidFind_addDelta]
  by_cases hy : y = nid
  · rw [if_pos hy]
    exact iff_of_true ⟨_, rfl, rfl⟩ (.inr hy)
  · rw [if_neg hy, or_iff_left hy]
    rfl

/-! ## One target -/

/-- Which sums some readings of a target start or go on with. -/
structure Tallied (now : T) (old : CString → Option (Stats ℤ))
    (reads : CString → List (Stats ℤ)) (n n' : Sums T) : Prop where
  counted : n.Counted → n'.Counted
  current : ∀ nid, n'.Current now nid ↔
    n.Current now nid ∨ Compared (old nid) (reads nid)

namespace Tallied

variable {now : T} {old : CString → Option (Stats ℤ)}
  {reads more : CString → List (Stats ℤ)} {n n' n₂ : Sums T}

omit [DecidableEq T] in
theorem refl (hreads : ∀ nid, reads nid = []) : Tallied now old reads n n where
  counted h := h
  current nid := by
    rw [hreads, or_iff_left (not_compared_nil _)]

omit [DecidableEq T] in
theorem trans (h : Tallied now old reads n n')
    (h' : Tallied now (fun nid => (reads nid).getLast?.or (old nid)) more n' n₂) :
    Tallied now old (fun nid => reads nid ++ more nid) n n₂ where
  counted hn := h'.counted (h.counted hn)
  current nid := by
    rw [h'.current, h.current, compared_append, or_assoc]

end Tallied

theorem lxtCollectNid_tallied {now : T} (hnow : now ≠ 0) {st : Lxt T × Sums T}
    (htable : BaselineOk st.1.lHashTable) {de : Export}
    (hlisted : listed de.isDir de.dName) :
    Tallied now (baseline st.1.lHashTable) de.reads st.2 (lxtCollectNid now st de).2 := by
  obtain ⟨l, n⟩ := st
  have hreads : ∀ nid, de.reads nid =
      if de.dName = nid then (nidStatsRead de.stats).toList else [] := fun nid => by
    simp [Export.reads, hlisted]
  rw [lxtCollectNid]
  cases hread : nidStatsRead de.stats with
  | none =>
      apply Tallied.refl
      intro nid
      rw [hreads, hread, Option.toList_none, ite_self]
  | some stats =>
      have hcompared : ∀ nid, Compared (baseline l.lHashTable nid) (de.reads nid) ↔
          de.dName = nid ∧ nidFind l.lHashTable nid ≠ none := by
        intro nid
        rw [hreads, hread, baseline]
        by_cases hnid : de.dName = nid
        · rw [if_pos hnid, Option.toList_some, compared_singleton, and_iff_right hnid, ne_eq,
            Option.map_eq_none_iff]
        · rw [if_neg hnid]
          exact iff_of_false (not_compared_nil _) fun h => hnid h.1
      simp only [nidStatsLookup_fst]
      cases hold : nidFind l.lHashTable de.dName with
      | none =>
          rw [Option.getD_none, if_pos rfl]
          refine ⟨id, fun nid => (or_iff_left ?_).symm⟩
          rw [hcompared]
          rintro ⟨rfl, hne⟩
          exact hne hold
      | some ts =>
          rw [Option.getD_some, if_neg (htable.read hold)]
          refine ⟨fun h => addDelta_counted h hnow _ _, fun nid => ?_⟩
          rw [current_addDelta, hcompared]
          apply or_congr_right
          constructor
          · rintro rfl
            exact ⟨rfl, hold ▸ Option.some_ne_none ts⟩
          · exact fun h => h.1.symm

/-- The loop over the exports of a target. -/
theorem lxtCollect_tallied {now : T} (hnow : now ≠ 0) {st : Lxt T × Sums T}
    (htable : BaselineOk st.1.lHashTable)
    (hsums : st.2.nidHashTable.Keyed NidStats.nsNid strHash)
    (exports : Option (List Export)) :
    Tallied now (baseline st.1.lHashTable)
      (fun nid => (exports.getD []).flatMap fun e => e.reads nid) st.2
      (lxtCollect now st exports).1.2 := by
  cases exports with
  | none => exact .refl fun _ => rfl
  | some es =>
      change Tallied now (baseline st.1.lHashTable)
        (fun nid => es.flatMap fun e => e.reads nid) st.2
        ((es.filter fun de => listed de.isDir de.dName).foldl (lxtCollectNid now) st).2
      induction es generalizing st with
      | nil => exact .refl fun _ => rfl
      | cons de es ih =>
          rw [List.filter_cons]
          by_cases hlisted : listed de.isDir de.dName
          · rw [if_pos hlisted, List.foldl_cons]
            have hstep := lxtCollectNid_spec hnow htable hsums hlisted
            have hrest := ih hstep.table hstep.sums
            rw [funext hstep.baseline] at hrest
            exact (lxtCollectNid_tallied hnow htable hlisted).trans hrest
          · rw [if_neg hlisted]
            have hnone : ∀ nid, de.reads nid = [] := fun nid =>
              if_neg fun h => hlisted h.1
            have hsame : (fun nid => (de :: es).flatMap fun e => e.reads nid) =
                fun nid => es.flatMap fun e => e.reads nid := by
              funext nid
              rw [List.flatMap_cons, hnone, List.nil_append]
            rw [hsame]
            exact ih htable hsums

/-! ## Visits -/

omit [Zero T] [DecidableEq T] in
theorem lxtLookup_counted {s : Collector T} (h : s.Counted) (name : CString) (type : ℕ) :
    (lxtLookup s name type).2.Counted := by
  rw [lxtLookup]
  cases lxtFind s name with
  | some l => exact h
  | none =>
      obtain ⟨-, htable, -, -⟩ := lxtCount_same
        { s with
          lxtHashTable := s.lxtHashTable.addHead (strHash name) (lxtNew s name type)
          lxtList := name :: s.lxtList } (lxtNew s name type).lType 1
      apply h.add (l := lxtNew s name type)
      · simp only [htable]
        exact HashTable.toList_addHead ..
      · simp only [lxtCount]
        split <;> rfl
      · simp only [lxtCount]
        split <;> rfl

omit [Zero T] [DecidableEq T] in
theorem mem_lxtLookup {s : Collector T} {name y : CString} {type : ℕ}
    (h : y ∈ (lxtLookup s name type).2.lxtList) : y ∈ s.lxtList ∨ name = y := by
  rw [lxtLookup] at h
  cases hfind : lxtFind s name with
  | some l =>
      rw [hfind] at h
      exact .inl h
  | none =>
      obtain ⟨-, -, hlist, -⟩ := lxtCount_same
        { s with
          lxtHashTable := s.lxtHashTable.addHead (strHash name) (lxtNew s name type)
          lxtList := name :: s.lxtList } (lxtNew s name type).lType 1
      rw [hfind] at h
      simp only [hlist, List.mem_cons] at h
      exact h.symm.imp_right Eq.symm

/-- What some visits of a round do to the numbers, the sums and the list. -/
structure Booked (now : T) (visits : List (ℕ × Target)) (s s' : Collector T) : Prop where
  counted : s.Counted → s'.Counted
  sums : s.toSums.Counted → s'.toSums.Counted
  current : ∀ nid, s'.toSums.Current now nid ↔ s.toSums.Current now nid ∨
    ∃ l, Compared (s.baseline l nid) (visits.flatMap fun visit =>
      if visit.2.dName = l then visit.2.reads nid else [])
  listed : ∀ y ∈ s'.lxtList, y ∈ s.lxtList ∨
    ∃ visit ∈ visits, listed visit.2.isDir visit.2.dName ∧ visit.2.dName = y

omit [Zero T] [DecidableEq T] in
/-- A single visit compares readings of its own target only. -/
theorem exists_compared_iff (base : CString → Option (Stats ℤ)) {visit : ℕ × Target}
    {nid : CString} :
    (∃ l, Compared (base l) ([visit].flatMap fun visit =>
        if visit.2.dName = l then visit.2.reads nid else [])) ↔
      Compared (base visit.2.dName) (visit.2.reads nid) := by
  constructor
  · rintro ⟨l, hcompared⟩
    rw [List.flatMap_singleton] at hcompared
    by_cases hl : visit.2.dName = l
    · rw [if_pos hl] at hcompared
      exact hl ▸ hcompared
    · rw [if_neg hl] at hcompared
      exact absurd hcompared (not_compared_nil _)
  · intro hcompared
    refine ⟨visit.2.dName, ?_⟩
    rwa [List.flatMap_singleton, if_pos rfl]

theorem collectTarget_booked {now : T} (hnow : now ≠ 0) {s : Collector T}
    (h : CollectorOk s) (visit : ℕ × Target) :
    Booked now [visit] s (collectTarget now s visit) := by
  obtain ⟨type, de⟩ := visit
  rw [collectTarget]
  simp only
  by_cases hlisted : listed de.isDir de.dName
  · rw [if_pos hlisted]
    have hlooked := lxtLookup_spec h de.dName type
    have hcounted := fun hs : s.Counted => lxtLookup_counted hs de.dName type
    have hmem : ∀ y ∈ (lxtLookup s de.dName type).2.lxtList, y ∈ s.lxtList ∨ de.dName = y :=
      fun y hy => mem_lxtLookup hy
    generalize lxtLookup s de.dName type = looked at hlooked hcounted hmem ⊢
    obtain ⟨l, s₁⟩ := looked
    simp only at hlooked hcounted hmem ⊢
    have hself : lxtFind s₁ de.dName = some l := (hlooked.find de.dName).trans (if_pos rfl)
    have htally : Tallied now (baseline l.lHashTable)
        (fun nid => (de.exports.getD []).flatMap fun e => e.reads nid) s₁.toSums
        (lxtCollect now (l, s₁.toSums) de.exports).1.2 :=
      @lxtCollect_tallied T _ _ now hnow (l, s₁.toSums) (hlooked.ok.target hself)
        hlooked.ok.sums de.exports
    have hreads : (fun nid => (de.exports.getD []).flatMap fun e => e.reads nid) = de.reads := by
      funext nid
      rw [Target.reads, if_pos hlisted]
    rw [hreads] at htally
    have hcurrent : ∀ nid, Sums.Current (lxtCollect now (l, s₁.toSums) de.exports).1.2 now nid ↔
        s.toSums.Current now nid ∨ ∃ y, Compared (s.baseline y nid)
          ([(type, de)].flatMap fun visit =>
            if visit.2.dName = y then visit.2.reads nid else []) := by
      intro nid
      rw [htally.current, hlooked.sums, hlooked.baseline,
        exists_compared_iff fun y => s.baseline y nid]
    have hsums : s.toSums.Counted →
        Sums.Counted (lxtCollect now (l, s₁.toSums) de.exports).1.2 := fun hs =>
      htally.counted (hlooked.sums ▸ hs)
    have hwritten : s.Counted → ∀ s₂ : Collector T,
        s₂.lxtHashTable = s₁.lxtHashTable.modify Lxt.lName strHash de.dName (fun old =>
          { old with
            lHashTable := (lxtCollect now (l, s₁.toSums) de.exports).1.1.lHashTable }) →
        s₂.ssNrMdt = s₁.ssNrMdt → s₂.ssNrOst = s₁.ssNrOst → s₂.Counted := by
      intro hs s₂ htable hmdt host
      refine (hcounted hs).same ?_ hmdt host
      rw [htable]
      exact HashTable.map_toList_modify Lxt.lName strHash s₁.lxtHashTable de.dName fun _ => rfl
    have hname : ∀ y, de.dName = y → ∃ visit ∈ [(type, de)],
        listed visit.2.isDir visit.2.dName ∧ visit.2.dName = y := fun y hy =>
      ⟨(type, de), List.mem_singleton_self _, hlisted, hy⟩
    cases hok : (lxtCollect now (l, s₁.toSums) de.exports).2 with
    | false =>
        rw [if_neg Bool.false_ne_true]
        exact
          { counted := fun hs => hwritten hs _ rfl rfl rfl
            sums := hsums
            current := hcurrent
            listed := fun y hy => (hmem y hy).imp_right (hname y) }
    | true =>
        rw [if_pos rfl]
        exact
          { counted := fun hs => hwritten hs _ rfl rfl rfl
            sums := hsums
            current := hcurrent
            listed := fun y hy => by
              rcases List.mem_cons.1 hy with hy | hy
              · exact .inr (hname y hy.symm)
              · exact (hmem y (List.mem_of_mem_erase hy)).imp_right (hname y) }
  · rw [if_neg hlisted]
    refine ⟨id, id, fun nid => (or_iff_left ?_).symm, fun y hy => .inl hy⟩
    rw [exists_compared_iff fun y => s.baseline y nid, Target.reads, if_neg hlisted]
    exact not_compared_nil _

/-- The loops over the three top directories. -/
theorem visits_booked {now : T} (hnow : now ≠ 0) {s : Collector T} (h : CollectorOk s)
    (visits : List (ℕ × Target)) :
    Booked now visits s (visits.foldl (collectTarget now) s) := by
  induction visits generalizing s with
  | nil =>
      refine ⟨id, id, fun nid => (or_iff_left ?_).symm, fun y hy => .inl hy⟩
      rintro ⟨l, hcompared⟩
      exact not_compared_nil _ hcompared
  | cons visit visits ih =>
      have hvisited := collectTarget_spec hnow h (Finset.mem_singleton_self visit.2.dName)
      have hstep := collectTarget_booked hnow h visit
      have hrest := ih hvisited.ok
      rw [List.foldl_cons]
      refine
        { counted := fun hs => hrest.counted (hstep.counted hs)
          sums := fun hs => hrest.sums (hstep.sums hs)
          current := fun nid => ?_
          listed := fun y hy => ?_ }
      · rw [hrest.current, hstep.current, or_assoc, ← exists_or]
        apply or_congr_right
        apply exists_congr
        intro l
        rw [hvisited.baseline, List.flatMap_singleton]
        exact compared_append.symm
      · rcases hrest.listed y hy with hy | ⟨later, hlater, hname⟩
        · rcases hstep.listed y hy with hy | ⟨first, hfirst, hname⟩
          · exact .inl hy
          · rw [List.mem_singleton.1 hfirst] at hname
            exact .inr ⟨visit, List.mem_cons_self, hname⟩
        · exact .inr ⟨later, List.mem_cons_of_mem _ hlater, hname⟩

/-! ## A round -/

omit [Zero T] [DecidableEq T] in
theorem lxtDelete_counted {s : Collector T} (h : s.Counted) (name : CString) :
    (lxtDelete s name).Counted := by
  rw [lxtDelete]
  cases hfind : lxtFind s name with
  | none => exact h
  | some l =>
      apply h.del (l := l)
      · exact HashTable.toList_erase hfind
      · rfl
      · rfl

omit [Zero T] [DecidableEq T] in
theorem sweep_counted {s : Collector T} (h : s.Counted) (names : List CString) :
    (names.foldl lxtDelete s).Counted := by
  induction names generalizing s with
  | nil => exact h
  | cons name names ih => exact ih (lxtDelete_counted h name)

/-- After `collect_all`: list and table hold the same targets, all listed in this
round, and the numbers are theirs. -/
structure TargetsKept (r : Round T) (s : Collector T) : Prop where
  tmpList : s.tmpList = []
  nodup : s.lxtList.Nodup
  table : (s.lxtHashTable.toList.map Lxt.lName).Perm s.lxtList
  listed : ∀ name ∈ s.lxtList, ∃ visit ∈ r.visits,
    listed visit.2.isDir visit.2.dName ∧ visit.2.dName = name
  counted : s.Counted

/-- After `print_stats` of a round that started in `s`: the table holds the nids
of which some reading had one before it on the same target. -/
structure NidsKept (r : Round T) (s s' : Collector T) : Prop where
  nodup : (s'.nidHashTable.toList.map NidStats.nsNid).Nodup
  nids : ∀ nid, nid ∈ s'.nidHashTable.toList.map NidStats.nsNid ↔
    ∃ l, Compared (s.baseline l nid) (r.reads l nid)
  number : s'.ssNrNid = s'.nidHashTable.toList.length

/-- Between two rounds. -/
structure RoundOk (s : Collector T) : Prop extends CollectorOk s where
  tmpList_nil : s.tmpList = []
  counted : s.Counted
  sumsCounted : s.toSums.Counted

omit [DecidableEq T] in
theorem roundOk_init (hint : UInt64) : RoundOk (servdInit T hint) where
  toCollectorOk := collectorOk_init hint
  tmpList_nil := rfl
  counted := by
    constructor
    · rw [servdInit, HashTable.toList_init]
      rfl
    · rw [servdInit, HashTable.toList_init]
      rfl
  sumsCounted := by
    constructor
    · rw [servdInit, HashTable.toList_init]
      rfl
    · intro nid ns hns
      cases hns

omit [Zero T] [DecidableEq T] in
/-- No target is in the table twice, so list and table agree. -/
theorem CollectorOk.perm [Zero T] {s : Collector T} (h : CollectorOk s)
    (htmp : s.tmpList = []) : (s.lxtHashTable.toList.map Lxt.lName).Perm s.lxtList := by
  have hnodup := h.nodup
  rw [htmp, List.append_nil] at hnodup
  apply (List.perm_ext_iff_of_nodup h.lxts.nodup_map_key hnodup).2
  intro name
  have hmem := h.mem name
  rw [htmp, List.append_nil] at hmem
  rw [← hmem, List.mem_map]
  constructor
  · rintro ⟨l, hl, rfl⟩
    have hfind : lxtFind s l.lName = some l := h.lxts.mem_toList.1 hl
    rw [hfind]
    exact Option.some_ne_none l
  · intro hne
    obtain ⟨l, hl⟩ := Option.ne_none_iff_exists'.1 hne
    exact ⟨l, h.lxts.lookup_mem hl, HashTable.lookup_key hl⟩

theorem collectAll_kept {s : Collector T} (h : RoundOk s) {r : Round T} (hnow : r.now ≠ 0) :
    TargetsKept r (collectAll s r) ∧ (collectAll s r).toSums.Counted ∧
      ∀ nid, (collectAll s r).toSums.Current r.now nid ↔
        s.toSums.Current r.now nid ∨ ∃ l, Compared (s.baseline l nid) (r.reads l nid) := by
  have hgathered : Gathered r.now (targets [r]) r.reads s (collectAll s r) :=
    collectAll_spec h.toCollectorOk h.tmpList_nil hnow
      (mem_targets r (List.mem_singleton_self r))
  have hsplice : CollectorOk { s with tmpList := s.lxtList, lxtList := [] } := by
    refine ⟨h.lxts, h.target, h.sums, ?_, fun name => (h.mem name).trans ?_⟩
    · have hnodup := h.nodup
      rwa [h.tmpList_nil, List.append_nil] at hnodup
    · rw [h.tmpList_nil, List.append_nil, List.nil_append]
  have hvisited := visits_spec hnow hsplice (mem_targets r (List.mem_singleton_self r))
  have hbooked := visits_booked hnow hsplice r.visits
  have hcounted := hbooked.counted ⟨h.counted.mdt, h.counted.ost⟩
  have hnodup := hgathered.ok.nodup
  rw [hgathered.tmpList, List.append_nil] at hnodup
  have hperm := hgathered.ok.perm hgathered.tmpList
  have htmp := hgathered.tmpList
  rw [collectAll] at hnodup hperm htmp ⊢
  generalize r.visits.foldl (collectTarget r.now) _ = s₁ at *
  obtain ⟨-, hsums, hlist, -, -⟩ := sweep_spec hvisited.ok rfl
  refine ⟨⟨htmp, hnodup, hperm, fun name hname => ?_, sweep_counted hcounted _⟩, ?_, fun nid => ?_⟩
  · rw [hlist] at hname
    rcases hbooked.listed name hname with hold | hnew
    · exact absurd hold List.not_mem_nil
    · exact hnew
  · rw [hsums]
    exact hbooked.sums h.sumsCounted
  · rw [hsums]
    exact hbooked.current nid

/-- What `print_stats` leaves in the table. -/
theorem printStats_kept {s : Collector T}
    (hkeyed : s.nidHashTable.Keyed NidStats.nsNid strHash) (hsums : s.toSums.Counted) (now : T) :
    (printStats s now).2.toSums.Counted ∧
      ((printStats s now).2.nidHashTable.toList.map NidStats.nsNid).Nodup ∧
      ∀ nid, nid ∈ (printStats s now).2.nidHashTable.toList.map NidStats.nsNid ↔
        s.toSums.Current now nid := by
  have hkeyed' : (printStats s now).2.nidHashTable.Keyed NidStats.nsNid strHash :=
    hkeyed.remove _
  refine ⟨⟨?_, fun {nid ns} hns => ?_⟩, hkeyed'.nodup_map_key, fun nid => ?_⟩
  · have hlength := List.length_eq_length_filter_add (l := s.nidHashTable.toList)
      fun ns : NidStats T => decide (ns.nsTime ≠ now)
    rw [printStats]
    simp only [HashTable.toList_remove]
    rw [hsums.number, hlength]
    push_cast
    ring
  · rw [nidFind_printStats hkeyed, Option.filter_eq_some_iff] at hns
    exact hsums.timed hns.1
  · rw [List.mem_map, Sums.Current]
    constructor
    · rintro ⟨ns, hns, rfl⟩
      have hfind : nidFind (printStats s now).2.nidHashTable ns.nsNid = some ns :=
        hkeyed'.mem_toList.1 hns
      rw [nidFind_printStats hkeyed, Option.filter_eq_some_iff] at hfind
      exact ⟨ns, hfind.1, of_decide_eq_true hfind.2⟩
    · rintro ⟨ns, hns, htime⟩
      have hfind : nidFind (printStats s now).2.nidHashTable nid = some ns := by
        rw [nidFind_printStats hkeyed, Option.filter_eq_some_iff]
        exact ⟨hns, decide_eq_true htime⟩
      exact ⟨ns, hkeyed'.lookup_mem hfind, HashTable.lookup_key hfind⟩

theorem round_kept {s : Collector T} (h : RoundOk s) {r : Round T} (hnow : r.now ≠ 0)
    (hfresh : s.Fresh r.now) :
    TargetsKept r (collectAll s r) ∧ NidsKept r s (round s r).2 ∧ RoundOk (round s r).2 := by
  have hgathered : Gathered r.now (targets [r]) r.reads s (collectAll s r) :=
    collectAll_spec h.toCollectorOk h.tmpList_nil hnow
      (mem_targets r (List.mem_singleton_self r))
  obtain ⟨htargets, hsums, hcurrent⟩ := collectAll_kept h hnow
  obtain ⟨hsums', hnodup, hnids⟩ := printStats_kept hgathered.ok.sums hsums r.now
  have hstale : ∀ nid, ¬ s.toSums.Current r.now nid := by
    rintro nid ⟨ns, hns, htime⟩
    exact hfresh nid ns hns htime
  refine ⟨htargets, ⟨hnodup, fun nid => ?_, hsums'.number⟩, ⟨?_, htargets.tmpList, ?_, hsums'⟩⟩
  · exact (hnids nid).trans ((hcurrent nid).trans (or_iff_right (hstale nid)))
  · exact ⟨hgathered.ok.lxts, hgathered.ok.target, hgathered.ok.sums.remove _,
      hgathered.ok.nodup, hgathered.ok.mem⟩
  · exact ⟨htargets.counted.mdt, htargets.counted.ost⟩

end Collect

section Run

variable {T : Type*} [Zero T] [DecidableEq T]

/-- The state after some rounds. -/
def afterRounds (s : Collector T) (rounds : List (Round T)) : Collector T :=
  rounds.foldl (fun s r => (round s r).2) s

/-- The books are in order before every round, and no sum is from its time. -/
theorem afterRounds_ok (hint : UInt64) {rounds : List (Round T)} {r : Round T}
    (hpos : ∀ r' ∈ rounds ++ [r], r'.now ≠ 0)
    (hnext : ((rounds ++ [r]).map Round.now).IsChain (· ≠ ·)) :
    RoundOk (afterRounds (servdInit T hint) rounds) ∧
      (afterRounds (servdInit T hint) rounds).Fresh r.now := by
  induction rounds using List.reverseRecOn generalizing r with
  | nil =>
      refine ⟨roundOk_init hint, fun nid ns hns => ?_⟩
      cases hns
  | append_singleton rounds last ih =>
      have hinit : rounds ++ [last] <+: rounds ++ [last] ++ [r] := List.prefix_append ..
      have hbefore : ((rounds ++ [last]).map Round.now).IsChain (· ≠ ·) :=
        hnext.prefix (hinit.map _)
      obtain ⟨hok, hfresh⟩ := ih (fun r' hr' => hpos r' (hinit.subset hr')) hbefore
      have hlast : last.now ≠ 0 := hpos last (by simp)
      have hne : last.now ≠ r.now := by
        rw [List.map_append, List.isChain_append] at hnext
        exact hnext.2.2 last.now (by simp) r.now (by simp)
      rw [afterRounds, List.foldl_append, List.foldl_cons, List.foldl_nil, ← afterRounds]
      have hround := round_spec hok.toCollectorOk hok.tmpList_nil hlast hfresh
        (mem_targets last (List.mem_singleton_self last))
      exact ⟨(round_kept hok hlast hfresh).2.2, hround.fresh hne⟩

/-- In every run of rounds at times that are not zero and not twice the same in a
row, the targets and the nids that are held are those of the last round. -/
theorem target_bookkeeping (hint : UInt64) (rounds : List (Round T)) (r : Round T)
    (hpos : ∀ r' ∈ rounds ++ [r], r'.now ≠ 0)
    (hnext : ((rounds ++ [r]).map Round.now).IsChain (· ≠ ·)) :
    TargetsKept r (collectAll (afterRounds (servdInit T hint) rounds) r) ∧
      NidsKept r (afterRounds (servdInit T hint) rounds)
        (round (afterRounds (servdInit T hint) rounds) r).2 := by
  obtain ⟨hok, hfresh⟩ := afterRounds_ok hint hpos hnext
  obtain ⟨htargets, hnids, -⟩ := round_kept hok (hpos r (by simp)) hfresh
  exact ⟨htargets, hnids⟩

/-- The round in which the target comes back. -/
theorem target_bookkeeping_sample :
    TargetsKept (sampleRound 4 (lit "20"))
        (collectAll (afterRounds (servdInit ℕ 16) sampleGone) (sampleRound 4 (lit "20"))) ∧
      NidsKept (sampleRound 4 (lit "20")) (afterRounds (servdInit ℕ 16) sampleGone)
        (round (afterRounds (servdInit ℕ 16) sampleGone) (sampleRound 4 (lit "20"))).2 :=
  target_bookkeeping 16 sampleGone (sampleRound 4 (lit "20")) (by decide)
    (by simp [sampleGone, sampleRound])

end Run

end Xltop.Servd
