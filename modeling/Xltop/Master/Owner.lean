import Xltop.Master.Views

/-!
# Top queries with an owner

With an owner a top query asks each job that its walk comes to, and goes on
below it without asking again.  A walk from above thus reports jobs and hosts
of the owner and no others.  A walk from a host never comes to a job, and so
reports the host whoever owns its job.
-/

namespace Xltop.Master

open Xltop.Heap
open Xltop.Rate
open Xltop.Text

variable {R : Type*}

namespace Daemon

/-- The job of a job or of a host. -/
def jobOf (m : Daemon R) (x : XNode) : Option XNode :=
  if x.xType = .job then some x
  else if x.xType = .host then m.parent x
  else none

/-- A job of the owner, or a host of such a job. -/
def OwnedBy (m : Daemon R) (owner : CString) (x : XNode) : Prop :=
  ∃ j, m.jobOf x = some j ∧ (m.jobs j).jOwner = owner

/-- Neither a job nor a host of another owner. -/
def passes (m : Daemon R) (owner : CString) (x : XNode) : Bool :=
  (m.jobOf x).all fun j => (m.jobs j).jOwner = owner

/-- `limit` as `top_query_cb` uses it. -/
def TopQuery.limitUsed (q : TopQuery) : ℕ :=
  if q.limit = 0 then topLimitMax else min q.limit topLimitMax

/-- The pairs that a query with an owner offers. -/
def ownerPairs (m : Daemon R) (owner : CString) (d0 d1 : ℕ) (x0 x1 : XNode) :
    List (XNode × XNode) :=
  if x0.xType = .host then m.topPairs d0 d1 x0 x1
  else (m.topPairs d0 d1 x0 x1).filter fun p => m.passes owner p.1

end Daemon

section Jobs

variable {m : Daemon R} {owner : CString} {x : XNode}

theorem jobOf_job (h : x.xType = .job) : m.jobOf x = some x :=
  if_pos h

theorem jobOf_host (h : x.xType = .host) : m.jobOf x = m.parent x := by
  rw [Daemon.jobOf, if_neg (by rw [h]; decide), if_pos h]

theorem jobOf_other (hjob : x.xType ≠ .job) (hhost : x.xType ≠ .host) : m.jobOf x = none := by
  rw [Daemon.jobOf, if_neg hjob, if_neg hhost]

theorem passes_of_owned (h : m.OwnedBy owner x) : m.passes owner x = true := by
  obtain ⟨j, hj, howner⟩ := h
  rw [Daemon.passes, hj, Option.all_some, decide_eq_true howner]

theorem owned_of_passes {j : XNode} (hj : m.jobOf x = some j) (h : m.passes owner x = true) :
    m.OwnedBy owner x := by
  rw [Daemon.passes, hj, Option.all_some] at h
  exact ⟨j, hj, of_decide_eq_true h⟩

end Jobs

/-! ## The pairs of a query with an owner -/

section Pairs

variable {m : Daemon R} {owner : CString} {x0 x1 : XNode}

/-- No node is below a host. -/
theorem children_host (h : StateOk m.toXState) (hx0 : x0.xType = .host) :
    m.children x0 = [] := by
  rw [List.eq_nil_iff_forall_not_mem]
  intro child hchild
  have hup := h.tree.up_of_parent ((h.tree.linked.mem_children x0 child).1 hchild)
  rw [hx0] at hup
  revert hup
  cases child.xType <;> decide

theorem ownerPairs_eq_nil (hpair : ¬ m.HasPair x0 x1) (d0 d1 : ℕ) :
    m.ownerPairs owner d0 d1 x0 x1 = [] := by
  rw [Daemon.ownerPairs, topPairs_eq_nil hpair, List.filter_nil, ite_self]

theorem ownerPairs_consumer (h : StateOk m.toXState) (hpair : m.HasPair x0 x1)
    (hjob : x0.xType ≠ .job) (d0 d1 : ℕ) :
    m.ownerPairs owner (d0 + 1) d1 x0 x1 =
      (m.children x0).flatMap fun child => m.ownerPairs owner d0 d1 child x1 := by
  rw [Daemon.ownerPairs, topPairs_consumer hpair]
  split
  · next hhost => rw [children_host h hhost, List.flatMap_nil, List.flatMap_nil]
  · rw [List.filter_flatMap]
    refine List.flatMap_congr fun child hchild => ?_
    -- Hosts are below jobs only.
    have hup := h.tree.up_of_parent ((h.tree.linked.mem_children x0 child).1 hchild)
    have hhost : child.xType ≠ .host := fun heq => by
      rw [heq] at hup
      exact hjob (Option.some.inj hup).symm
    rw [Daemon.ownerPairs, if_neg hhost]

theorem ownerPairs_provider (hpair : m.HasPair x0 x1) (d1 : ℕ) :
    m.ownerPairs owner 0 (d1 + 1) x0 x1 =
      (m.children x1).flatMap fun child => m.ownerPairs owner 0 d1 x0 child := by
  simp only [Daemon.ownerPairs, topPairs_provider hpair]
  split
  · rfl
  · exact List.filter_flatMap

theorem ownerPairs_zero (hpair : m.HasPair x0 x1) (hjob : x0.xType ≠ .job) :
    m.ownerPairs owner 0 0 x0 x1 = [(x0, x1)] := by
  rw [Daemon.ownerPairs, topPairs_zero hpair]
  split
  · rfl
  · next hhost =>
      apply List.filter_cons_of_pos
      rw [Daemon.passes, jobOf_other hjob hhost, Option.all_none]

theorem rank_of_below (h : m.toXTree.TreeOk) {depth : ℕ} {x y : XNode}
    (hbelow : m.Below depth x y) : x.xType.rank = y.xType.rank + depth := by
  induction depth generalizing y with
  | zero => rw [show y = x from hbelow, Nat.add_zero]
  | succ depth ih =>
      obtain ⟨p, hp, hbelow⟩ := hbelow
      have hrank := h.rank_of_parent hp
      have hrest := ih hbelow
      omega

/-- What the walk reaches below a job is the job or its hosts. -/
theorem jobOf_topPairs (h : StateOk m.toXState) (hjob : x0.xType = .job) {d0 d1 : ℕ}
    {p : XNode × XNode} (hp : p ∈ m.topPairs d0 d1 x0 x1) : m.jobOf p.1 = some x0 := by
  obtain ⟨-, hbelow, -⟩ := below_of_mem_topPairs h hp
  have hrank := rank_of_below h.tree hbelow
  rw [hjob] at hrank
  match d0, hbelow with
  | 0, hbelow => rw [show p.1 = x0 from hbelow, jobOf_job hjob]
  | 1, ⟨_, hparent, rfl⟩ =>
      have hup := h.tree.up_of_parent hparent
      have hhost : p.1.xType = .host := by
        rw [hjob] at hup
        revert hup
        cases p.1.xType <;> decide
      rw [jobOf_host hhost, hparent]
  | d0 + 2, _ =>
      have hone : XType.job.rank = 1 := rfl
      omega

theorem ownerPairs_job (h : StateOk m.toXState) (hjob : x0.xType = .job) (d0 d1 : ℕ) :
    m.ownerPairs owner d0 d1 x0 x1 =
      if (m.jobs x0).jOwner = owner then m.topPairs d0 d1 x0 x1 else [] := by
  rw [Daemon.ownerPairs, if_neg (by rw [hjob]; decide)]
  split
  · next howner =>
      refine List.filter_eq_self.2 fun p hp => passes_of_owned ?_
      exact ⟨x0, jobOf_topPairs h hjob hp, howner⟩
  · next howner =>
      refine List.filter_eq_nil_iff.2 fun p hp hpass => howner ?_
      rw [Daemon.passes, jobOf_topPairs h hjob hp] at hpass
      simpa using hpass

end Pairs

/-! ## The walk with the filter -/

section Walk

variable [Field R] [LinearOrder R] [FloorRing R] {c : KConf R}
  {cmp : KNode XNode R → KNode XNode R → ℤ} {now : R} {m : Daemon R} {owner : CString}

omit [Field R] [LinearOrder R] [FloorRing R] in
/-- The filter looks at the consumer that the walk is at. -/
theorem kHeapFiltOwner_eq {σ : XState R} {x0 x1 : XNode} {k : KNode XNode R}
    (hk : σ.kLookup x0 x1 = some k) : m.kHeapFiltOwner owner k =
      if x0.xType = .job then if (m.jobs x0).jOwner = owner then 1 else -1 else 0 := by
  have hx0 : k.kX0 = x0 := congrArg Prod.fst (Hash.HashTable.lookup_key hk)
  rw [Daemon.kHeapFiltOwner, hx0]

/-- The walk with the filter offers the pairs of `ownerPairs`. -/
theorem kHeapTop_owner (h : StateOk m.toXState) (d0 d1 : ℕ) (x0 x1 : XNode)
    {s : XState R × KHeap (KNode XNode R)} (hs : Reads c m.toXState s.1) :
    kHeapTop c cmp now d0 d1 (some (m.kHeapFiltOwner owner)) s x0 x1 =
      (m.ownerPairs owner d0 d1 x0 x1).foldl (fun s p => offer c cmp now s p.1 p.2) s := by
  induction hdepth : d0 + d1 using Nat.strongRecOn generalizing d0 d1 x0 x1 s with
  | ind depth ih =>
      have hchildren : ∀ x, s.1.children x = m.children x := fun x =>
        congrArg (fun t : XTree => t.children x) hs.tree
      cases hk : s.1.kLookup x0 x1 with
      | none =>
          rw [kHeapTop, hk,
            ownerPairs_eq_nil (hasPair_iff.not.2 (not_not.2 ((hs.pairs x0 x1).1 hk)))]
          rfl
      | some k =>
          have hpair : m.HasPair x0 x1 := hasPair_iff.2 (mt (hs.pairs x0 x1).2 (by simp [hk]))
          have hfilt : m.kHeapFiltOwner owner k = _ := kHeapFiltOwner_eq hk
          by_cases hjob : x0.xType = .job
          · rw [if_pos hjob] at hfilt
            rw [ownerPairs_job h hjob]
            by_cases howner : (m.jobs x0).jOwner = owner
            · rw [if_pos howner] at hfilt ⊢
              rw [← kHeapTop_eq d0 d1 x0 x1 hs, kHeapTop, kHeapTop, hk]
              simp [hfilt]
            · rw [if_neg howner] at hfilt ⊢
              rw [kHeapTop, hk]
              simp [hfilt]
          · rw [if_neg hjob] at hfilt
            rw [kHeapTop, hk]
            simp only [hfilt, lt_irrefl, if_false]
            match d0, d1 with
            | d0 + 1, d1 =>
                rw [hchildren x0, ownerPairs_consumer h hpair hjob]
                exact foldl_visits (fun s p => .offer s p.1 p.2)
                  (fun child _ s hs => ih _ (by omega) d0 d1 child x1 hs rfl) hs
            | 0, d1 + 1 =>
                rw [hchildren x1, ownerPairs_provider hpair]
                exact foldl_visits (fun s p => .offer s p.1 p.2)
                  (fun child _ s hs => ih _ (by omega) 0 d1 x0 child hs rfl) hs
            | 0, 0 =>
                rw [ownerPairs_zero hpair hjob]
                rfl

end Walk

/-! ## What a query reports -/

section Report

variable [Field R] [LinearOrder R] [FloorRing R] [IsStrictOrderedRing R] {env : Env R}
  {m : Daemon R} {now : R}

omit [IsStrictOrderedRing R] in
theorem mem_freshValues {σ : XState R} {c : KConf R} {pairs : List (XNode × XNode)}
    {k : KNode XNode R} : k ∈ σ.freshValues c now pairs ↔
      ∃ p ∈ pairs, ∃ old, σ.kLookup p.1 p.2 = some old ∧ kFreshen c old now = k := by
  simp only [XState.freshValues, List.mem_filterMap, Option.map_eq_some_iff]

variable (now) in
/-- What a query reports that offers a list of pairs. -/
theorem topQueryCb_reported (htick : 0 < env.conf.kTick) {q : Daemon.TopQuery}
    {x0 x1 : XNode} (hx0 : m.xLookupStr q.x0 = some x0) (hx1 : m.xLookupStr q.x1 = some x1)
    {pairs : List (XNode × XNode)}
    (hwalk : ∀ h, kHeapTop env.conf (kTopCmp q.sort) now q.d0 q.d1
        (q.owner.map m.kHeapFiltOwner) (m.toXState, h) x0 x1 =
      pairs.foldl (fun s p => offer env.conf (kTopCmp q.sort) now s p.1 p.2)
        (m.toXState, h)) :
    ∃ ks, (m.topQueryCb env q now).2 = some ks ∧
      (∀ k ∈ ks, k ∈ m.freshValues env.conf now pairs) ∧
      (ks.length < q.limitUsed → ∀ k ∈ m.freshValues env.conf now pairs, k ∈ ks) := by
  have hcmp := kTopCmp_comparison (X := XNode) (R := R) q.sort
  have hinit : Keeps (kTopCmp q.sort) q.limitUsed 0
      (kHeapInit q.limitUsed : KHeap (KNode XNode R)) := keeps_init _
  have hkeeps := hinit.foldl_kHeapAdd hcmp
    (m.freshValues env.conf now pairs)
  rw [add_zero] at hkeeps
  obtain ⟨hlength, ⟨dropped, hadded, -⟩, -⟩ := hkeeps.kHeapOrder hcmp
  obtain ⟨hvalues, -⟩ := foldl_visit (σ := m.toXState) (kHeapAdd (kTopCmp q.sort)) htick
    pairs (s := (m.toXState, kHeapInit q.limitUsed)) .refl
  refine ⟨kHeapArray (kHeapOrder (kTopCmp q.sort) ((m.freshValues env.conf now pairs).foldl
    (kHeapAdd (kTopCmp q.sort)) (kHeapInit q.limitUsed))), ?_, fun k hk => ?_,
    fun hroom k hk => ?_⟩
  · rw [Daemon.topQueryCb, hx0, hx1]
    simp only
    rw [hwalk]
    exact congrArg (fun h => some (kHeapArray (kHeapOrder (kTopCmp q.sort) h))) hvalues
  · rw [← Multiset.mem_coe, hadded]
    exact Multiset.mem_add.2 (.inl hk)
  · have hall := hkeeps.kHeapOrder_of_card_le hcmp (by omega)
    rwa [← Multiset.mem_coe, hall]

/-- A query with an owner reports the jobs and hosts of the owner among those
that it reports without one, and no others. -/
structure OwnerFiltered (env : Env R) (m : Daemon R) (q : Daemon.TopQuery) (owner : CString)
    (now : R) : Prop where
  owned : ∀ ks, (m.topQueryCb env { q with owner := some owner } now).2 = some ks →
    ∀ k ∈ ks, k.kX0.xType = .job ∨ k.kX0.xType = .host → m.OwnedBy owner k.kX0
  kept : ∀ ks all, (m.topQueryCb env { q with owner := some owner } now).2 = some ks →
    (m.topQueryCb env { q with owner := none } now).2 = some all →
    ∀ k ∈ all, m.OwnedBy owner k.kX0 → k ∈ ks

omit [IsStrictOrderedRing R] in
/-- The consumer of a reported value is that of its pair. -/
theorem kX0_of_fresh {σ : XState R} {c : KConf R} {p : XNode × XNode}
    {old k : KNode XNode R} (hold : σ.kLookup p.1 p.2 = some old)
    (hk : kFreshen c old now = k) : k.kX0 = p.1 := by
  rw [← hk, kFreshen_kX0]
  exact congrArg Prod.fst (Hash.HashTable.lookup_key hold)

omit [IsStrictOrderedRing R] [FloorRing R] [LinearOrder R] [Field R] in
/-- A job or a host with statistics has a job. -/
theorem exists_jobOf (h : StateOk m.toXState) {x0 x1 : XNode} (hpair : m.HasPair x0 x1)
    (htype : x0.xType = .job ∨ x0.xType = .host) : ∃ j, m.jobOf x0 = some j := by
  obtain ⟨k, hk⟩ := hpair
  rcases htype with hjob | hhost
  · exact ⟨x0, jobOf_job hjob⟩
  · obtain ⟨j, hj, -⟩ := h.tree.exists_parent (h.pairs.consumer hk).1
      (by rw [hhost]; rfl : x0.xType.up = some .job)
    exact ⟨j, (jobOf_host hhost).trans hj⟩

omit [IsStrictOrderedRing R] in
theorem named_of_reported {q : Daemon.TopQuery} {ks : List (KNode XNode R)}
    (h : (m.topQueryCb env q now).2 = some ks) :
    ∃ x0 x1, m.xLookupStr q.x0 = some x0 ∧ m.xLookupStr q.x1 = some x1 := by
  rw [Daemon.topQueryCb] at h
  split at h
  · next x0 x1 hx0 hx1 => exact ⟨x0, x1, hx0, hx1⟩
  · cases h

/-- The filter of a query below its limit works exactly when the query does not
start at a host with statistics that belongs to a job of another owner. -/
theorem owner_filter_iff {cfg : Config R} {m₀ : Daemon R}
    (hboot : Daemon.boot env cfg = some m₀) (events : List (Event R)) (q : Daemon.TopQuery)
    (owner : CString)
    (hlimit : ∀ ks, ((m₀.run env events).topQueryCb env { q with owner := some owner } now).2 =
      some ks → ks.length < q.limitUsed) :
    let m := m₀.run env events
    OwnerFiltered env m q owner now ↔
      ∀ x0 x1 y1, m.xLookupStr q.x0 = some x0 → m.xLookupStr q.x1 = some x1 →
        x0.xType = .host → q.d0 = 0 → m.HasPair x0 y1 → m.Below q.d1 x1 y1 →
        m.OwnedBy owner x0 := by
  intro m
  have htick := kTick_pos_of_boot hboot
  have hok : StateOk m.toXState := (reached_ok hboot events).state
  have hreported : ∀ {x0 x1}, m.xLookupStr q.x0 = some x0 → m.xLookupStr q.x1 = some x1 →
      ∃ ks, (m.topQueryCb env { q with owner := some owner } now).2 = some ks ∧
        ∀ k, k ∈ ks ↔ k ∈ m.freshValues env.conf now (m.ownerPairs owner q.d0 q.d1 x0 x1) := by
    intro x0 x1 hx0 hx1
    obtain ⟨ks, hks, hsub, hall⟩ := topQueryCb_reported now htick
      (q := { q with owner := some owner }) hx0 hx1
      (fun h => kHeapTop_owner hok q.d0 q.d1 x0 x1 .refl)
    exact ⟨ks, hks, fun k => ⟨hsub k, hall (hlimit ks hks) k⟩⟩
  constructor
  · intro hfiltered x0 x1 y1 hx0 hx1 hhost hd0 hpair hbelow
    obtain ⟨ks, hks, hmem⟩ := hreported hx0 hx1
    obtain ⟨old, hold⟩ := hpair
    have hk : kFreshen env.conf old now ∈ ks := by
      rw [hmem, mem_freshValues]
      refine ⟨(x0, y1), ?_, old, hold, rfl⟩
      rw [Daemon.ownerPairs, if_pos hhost, hd0]
      exact (mem_topPairs_provider hok _ x0 x1).2 ⟨⟨old, hold⟩, rfl, hbelow⟩
    have hx : (kFreshen env.conf old now).kX0 = x0 := kX0_of_fresh (p := (x0, y1)) hold rfl
    rw [← hx]
    exact hfiltered.owned ks hks _ hk (.inr (by rw [hx, hhost]))
  · intro hhosts
    refine ⟨fun ks hks k hk htype => ?_, fun ks all hks hall k hk howned => ?_⟩
    · obtain ⟨x0, x1, hx0, hx1⟩ := named_of_reported hks
      obtain ⟨ks', hks', hmem⟩ := hreported hx0 hx1
      obtain rfl : ks' = ks := Option.some.inj (hks'.symm.trans hks)
      obtain ⟨p, hp, old, hold, hfresh⟩ := mem_freshValues.1 ((hmem k).1 hk)
      rw [kX0_of_fresh hold hfresh] at htype ⊢
      rw [Daemon.ownerPairs] at hp
      split at hp
      · next hhost =>
          obtain ⟨hpair, hbelow, hbelow'⟩ := below_of_mem_topPairs hok hp
          have hrank := rank_of_below hok.tree hbelow
          rw [hhost] at hrank
          have hd0 : q.d0 = 0 := (Nat.add_eq_zero_iff.1 hrank.symm).2
          rw [hd0] at hbelow
          have hx : p.1 = x0 := hbelow
          exact hx ▸ hhosts x0 x1 p.2 hx0 hx1 hhost hd0 (hx ▸ hpair) hbelow'
      · obtain ⟨j, hj⟩ := exists_jobOf hok ⟨old, hold⟩ htype
        exact owned_of_passes hj (List.mem_filter.1 hp).2
    · obtain ⟨x0, x1, hx0, hx1⟩ := named_of_reported hks
      obtain ⟨ks', hks', hmem⟩ := hreported hx0 hx1
      obtain rfl : ks' = ks := Option.some.inj (hks'.symm.trans hks)
      obtain ⟨all', hall', hsub, -⟩ := topQueryCb_reported now htick
        (q := { q with owner := none }) hx0 hx1 (fun h => kHeapTop_eq q.d0 q.d1 x0 x1 .refl)
      obtain rfl : all' = all := Option.some.inj (hall'.symm.trans hall)
      obtain ⟨p, hp, old, hold, hfresh⟩ := mem_freshValues.1 (hsub k hk)
      rw [hmem, mem_freshValues]
      refine ⟨p, ?_, old, hold, hfresh⟩
      rw [kX0_of_fresh hold hfresh] at howned
      rw [Daemon.ownerPairs]
      split
      · exact hp
      · exact List.mem_filter.2 ⟨hp, passes_of_owned howned⟩

end Report

/-- A query for the host of the sample with its server. -/
def sampleOwnerQuery : Daemon.TopQuery where
  x0 := lit "host:10.0.0.1@tcp"
  x1 := lit "serv:oss1"
  d0 := 0
  d1 := 0
  limit := 0
  sort := kTopSpecInit
  owner := none

/-- The same from the jobs of the cluster down. -/
def sampleClusQuery : Daemon.TopQuery :=
  { sampleOwnerQuery with x0 := lit "clus:NONE", d0 := 2 }

/-- The host of alice is reported, and the other one is not. -/
theorem owner_filter_sample :
    ((sampleDaemon.run sampleEnv sampleBusy).topQueryCb sampleEnv
        { sampleClusQuery with owner := some (lit "alice") } 12).2.map
          (fun ks => ks.map fun k => k.kX0.xName) = some [lit "10.0.0.2@tcp"] ∧
      OwnerFiltered sampleEnv (sampleDaemon.run sampleEnv sampleBusy) sampleClusQuery
        (lit "alice") 12 := by
  have hreport : ((sampleDaemon.run sampleEnv sampleBusy).topQueryCb sampleEnv
      { sampleClusQuery with owner := some (lit "alice") } 12).2.map
        (fun ks => ks.map fun k => k.kX0.xName) = some [lit "10.0.0.2@tcp"] := by
    decide +kernel
  refine ⟨hreport, (owner_filter_iff boot_sample sampleBusy sampleClusQuery (lit "alice")
    fun ks hks => ?_).2 fun x0 x1 y1 hx0 hx1 hhost => ?_⟩
  · rw [hks, Option.map_some, Option.some.injEq] at hreport
    have hone : ks.length = 1 := by
      rw [← List.length_map (fun k : KNode XNode ℚ => k.kX0.xName), hreport]
      rfl
    rw [hone]
    decide
  · have hclus : ((sampleDaemon.run sampleEnv sampleBusy).xLookupStr
        sampleClusQuery.x0).map XNode.xType = some .clus := by
      decide +kernel
    rw [hx0, Option.map_some, hhost] at hclus
    cases hclus

/-- The host belongs to the idle job of its cluster, whose owner is not alice. -/
theorem owner_filter_skips_host :
    ¬ OwnerFiltered sampleEnv (sampleDaemon.run sampleEnv [sampleServMsg]) sampleOwnerQuery
      (lit "alice") 12 := by
  intro hfiltered
  have hreport : ((sampleDaemon.run sampleEnv [sampleServMsg]).topQueryCb sampleEnv
      { sampleOwnerQuery with owner := some (lit "alice") } 12).2.map
        (fun ks => ks.map KNode.kX0) = some [sampleHost] := by
    decide +kernel
  obtain ⟨ks, hks, hhosts⟩ := Option.map_eq_some_iff.1 hreport
  obtain ⟨k, hk, hhost⟩ := List.mem_map.1 (hhosts ▸ List.mem_singleton_self sampleHost)
  obtain ⟨j, hj, howner⟩ := hfiltered.owned ks hks k hk (.inr (by rw [hhost]; rfl))
  have hidle : ((sampleDaemon.run sampleEnv [sampleServMsg]).jobOf sampleHost).map
      (fun j => ((sampleDaemon.run sampleEnv [sampleServMsg]).jobs j).jOwner) =
        some (lit "NONE") := by
    decide +kernel
  rw [← hhost, hj, Option.map_some, howner] at hidle
  exact absurd hidle (by decide +kernel)

end Xltop.Master
