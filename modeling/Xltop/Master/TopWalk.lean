import Xltop.Master.Walks
import Mathlib.Data.List.Flatten

/-!
# What a top query finds

`k_heap_top` goes on below a pair only if the pair itself has statistics.  It
therefore finds every pair at the asked depths exactly when no pair is there
without the pair one consumer up.  A line that moves a host to a job without
statistics for one of the host's servers breaks this, until the next message
of that server about the host.
-/

namespace Xltop.Master

open Xltop.Text
open Xltop.Hash
open Xltop.Heap
open Xltop.Rate

/-- `y` is a descendant of `x` at the given depth. -/
def XTree.Below (t : XTree) : ℕ → XNode → XNode → Prop
  | 0, x, y => y = x
  | depth + 1, x, y => ∃ p, t.parent y = some p ∧ t.Below depth x p

section Below

variable {t : XTree}

/-- A descendant is below one of the children. -/
theorem below_succ {depth : ℕ} {x y : XNode} :
    t.Below (depth + 1) x y ↔ ∃ child, t.parent child = some x ∧ t.Below depth child y := by
  induction depth generalizing y with
  | zero =>
      constructor
      · rintro ⟨p, hp, rfl⟩
        exact ⟨y, hp, rfl⟩
      · rintro ⟨child, hchild, rfl⟩
        exact ⟨x, hchild, rfl⟩
  | succ depth ih =>
      constructor
      · rintro ⟨p, hp, hbelow⟩
        obtain ⟨child, hchild, hbelow'⟩ := ih.1 hbelow
        exact ⟨child, hchild, p, hp, hbelow'⟩
      · rintro ⟨child, hchild, p, hp, hbelow⟩
        exact ⟨p, hp, ih.2 ⟨child, hchild, hbelow⟩⟩

theorem below_unique {depth : ℕ} {x x' y : XNode} (h : t.Below depth x y)
    (h' : t.Below depth x' y) : x = x' := by
  induction depth generalizing y with
  | zero => exact h.symm.trans h'
  | succ depth ih =>
      obtain ⟨p, hp, hbelow⟩ := h
      obtain ⟨p', hp', hbelow'⟩ := h'
      obtain rfl : p = p' := Option.some.inj (hp.symm.trans hp')
      exact ih hbelow hbelow'

end Below

variable {R : Type*} [Field R] [LinearOrder R] [FloorRing R]

namespace XState

variable (σ : XState R)

section Pairs

omit [Field R] [LinearOrder R] [FloorRing R]

/-- The `k_node` of a pair exists. -/
def HasPair (x0 x1 : XNode) : Prop := ∃ k, σ.kLookup x0 x1 = some k

/-- A pair comes with the pair one consumer up. -/
def ConsumersClosed : Prop :=
  ∀ ⦃y0 y1 p⦄, σ.HasPair y0 y1 → σ.parent y0 = some p → σ.HasPair p y1

/-- The pairs that the walk reaches. -/
def topPairs (d0 d1 : ℕ) (x0 x1 : XNode) : List (XNode × XNode) :=
  match σ.kLookup x0 x1 with
  | none => []
  | some _ =>
      match d0, d1 with
      | d0 + 1, d1 => (σ.children x0).flatMap fun child => topPairs d0 d1 child x1
      | 0, d1 + 1 => (σ.children x1).flatMap fun child => topPairs 0 d1 x0 child
      | 0, 0 => [(x0, x1)]
termination_by d0 + d1

end Pairs

/-- The walk without a filter offers each pair at the asked depths once, and no
other pair. -/
def TopComplete (c : KConf R) : Prop :=
  ∀ (d0 d1 : ℕ) (x0 x1 : XNode), ∃ pairs : List (XNode × XNode),
    pairs.Nodup ∧
      (∀ y0 y1, (y0, y1) ∈ pairs ↔
        σ.HasPair y0 y1 ∧ σ.Below d0 x0 y0 ∧ σ.Below d1 x1 y1) ∧
      ∀ cmp now h, kHeapTop c cmp now d0 d1 none (σ, h) x0 x1 =
        pairs.foldl (fun s pair => offer c cmp now s pair.1 pair.2) (σ, h)

end XState

open XState

/-! ## The walk as a list of offers -/

section Walk

variable {c : KConf R} {cmp : KNode XNode R → KNode XNode R → ℤ} {now : R}
  {σ : XState R}

/-- A loop over children whose body visits the pairs of each child. -/
theorem foldl_visits {β : Type*} {children : List XNode}
    {body : XState R × β → XNode → XState R × β}
    {visit : XState R × β → XNode × XNode → XState R × β}
    (hvisit : ∀ s pair, Reads c s.1 (visit s pair).1)
    {pairs : XNode → List (XNode × XNode)}
    (hbody : ∀ child ∈ children, ∀ s, Reads c σ s.1 →
      body s child = (pairs child).foldl visit s)
    {s : XState R × β} (hs : Reads c σ s.1) :
    children.foldl body s = (children.flatMap pairs).foldl visit s := by
  induction children generalizing s with
  | nil => rfl
  | cons child children ih =>
      rw [List.forall_mem_cons] at hbody
      rw [List.foldl_cons, List.flatMap_cons, List.foldl_append, hbody.1 s hs]
      exact ih hbody.2 (hs.trans (.foldl hvisit _ s))

/-- The walk makes the offers of `topPairs`, whatever is fresh. -/
theorem kHeapTop_eq (d0 d1 : ℕ) (x0 x1 : XNode)
    {s : XState R × KHeap (KNode XNode R)} (hs : Reads c σ s.1) :
    kHeapTop c cmp now d0 d1 none s x0 x1 = (σ.topPairs d0 d1 x0 x1).foldl
      (fun s pair => offer c cmp now s pair.1 pair.2) s := by
  induction hdepth : d0 + d1 using Nat.strongRecOn generalizing d0 d1 x0 x1 s with
  | ind depth ih =>
      have hchildren : ∀ x, s.1.children x = σ.children x := fun x =>
        congrArg (fun t : XTree => t.children x) hs.tree
      rw [kHeapTop, XState.topPairs.eq_def]
      cases hk : s.1.kLookup x0 x1 with
      | none =>
          rw [(hs.pairs x0 x1).1 hk]
          rfl
      | some k =>
          obtain ⟨k', hk'⟩ : σ.HasPair x0 x1 :=
            Option.ne_none_iff_exists'.1 (mt (hs.pairs x0 x1).2 (by rw [hk]; simp))
          rw [hk']
          simp only [lt_irrefl, if_false]
          match d0, d1 with
          | d0 + 1, d1 =>
              rw [hchildren x0]
              exact foldl_visits (fun s pair => .offer s pair.1 pair.2)
                (fun child _ s hs => ih _ (by omega) d0 d1 child x1 hs rfl) hs
          | 0, d1 + 1 =>
              rw [hchildren x1]
              exact foldl_visits (fun s pair => .offer s pair.1 pair.2)
                (fun child _ s hs => ih _ (by omega) 0 d1 x0 child hs rfl) hs
          | 0, 0 => rfl

end Walk

/-! ## The pairs that the walk reaches -/

section Reached

omit [Field R] [LinearOrder R] [FloorRing R]

variable {σ : XState R}

theorem hasPair_iff {x0 x1 : XNode} : σ.HasPair x0 x1 ↔ σ.kLookup x0 x1 ≠ none :=
  Option.ne_none_iff_exists'.symm

/-- A pair with a descendant of a consumer comes with the consumer. -/
theorem hasPair_above (hclosed : σ.ConsumersClosed) {depth : ℕ}
    {x0 y0 y1 : XNode} (hy : σ.HasPair y0 y1) (hbelow : σ.Below depth x0 y0) :
    σ.HasPair x0 y1 := by
  induction depth generalizing y0 with
  | zero => exact hbelow ▸ hy
  | succ depth ih =>
      obtain ⟨p, hp, hbelow⟩ := hbelow
      exact ih (hclosed hy hp) hbelow

/-- A pair with a descendant of a provider comes with the provider. -/
theorem hasPair_below (h : StateOk σ) {depth : ℕ} {x0 x1 y1 : XNode}
    (hy : σ.HasPair x0 y1) (hbelow : σ.Below depth x1 y1) : σ.HasPair x0 x1 := by
  induction depth generalizing y1 with
  | zero => exact hbelow ▸ hy
  | succ depth ih =>
      obtain ⟨p, hp, hbelow⟩ := hbelow
      have hup := h.pairs.closed x0 (hasPair_iff.1 hy) hp (Set.notMem_empty _)
      exact ih (hasPair_iff.2 hup) hbelow

theorem topPairs_eq_nil {x0 x1 : XNode} (hpair : ¬ σ.HasPair x0 x1) (d0 d1 : ℕ) :
    σ.topPairs d0 d1 x0 x1 = [] := by
  rw [hasPair_iff, not_not] at hpair
  rw [topPairs.eq_def, hpair]

theorem topPairs_consumer {x0 x1 : XNode} (hpair : σ.HasPair x0 x1) (d0 d1 : ℕ) :
    σ.topPairs (d0 + 1) d1 x0 x1 =
      (σ.children x0).flatMap fun child => σ.topPairs d0 d1 child x1 := by
  obtain ⟨k, hk⟩ := hpair
  rw [topPairs.eq_def, hk]

theorem topPairs_provider {x0 x1 : XNode} (hpair : σ.HasPair x0 x1) (d1 : ℕ) :
    σ.topPairs 0 (d1 + 1) x0 x1 =
      (σ.children x1).flatMap fun child => σ.topPairs 0 d1 x0 child := by
  obtain ⟨k, hk⟩ := hpair
  rw [topPairs.eq_def, hk]

theorem topPairs_zero {x0 x1 : XNode} (hpair : σ.HasPair x0 x1) :
    σ.topPairs 0 0 x0 x1 = [(x0, x1)] := by
  obtain ⟨k, hk⟩ := hpair
  rw [topPairs.eq_def, hk]

/-- Below a consumer at the asked depth. -/
theorem mem_topPairs_provider (h : StateOk σ) (d1 : ℕ) (x0 x1 : XNode)
    {y0 y1 : XNode} : (y0, y1) ∈ σ.topPairs 0 d1 x0 x1 ↔
      σ.HasPair y0 y1 ∧ y0 = x0 ∧ σ.Below d1 x1 y1 := by
  induction d1 generalizing x1 with
  | zero =>
      by_cases hpair : σ.HasPair x0 x1
      · rw [topPairs_zero hpair, List.mem_singleton, Prod.mk.injEq, XTree.Below]
        constructor
        · rintro ⟨rfl, rfl⟩
          exact ⟨hpair, rfl, rfl⟩
        · exact fun hy => hy.2
      · rw [topPairs_eq_nil hpair]
        apply iff_of_false List.not_mem_nil
        rintro ⟨hy, rfl, rfl⟩
        exact hpair hy
  | succ d1 ih =>
      by_cases hpair : σ.HasPair x0 x1
      · rw [topPairs_provider hpair, List.mem_flatMap, below_succ]
        simp only [h.tree.linked.mem_children, ih]
        constructor
        · rintro ⟨child, hchild, hy, h0, h1⟩
          exact ⟨hy, h0, child, hchild, h1⟩
        · rintro ⟨hy, h0, child, hchild, h1⟩
          exact ⟨child, hchild, hy, h0, h1⟩
      · rw [topPairs_eq_nil hpair]
        apply iff_of_false List.not_mem_nil
        rintro ⟨hy, rfl, h1⟩
        exact hpair (hasPair_below h hy h1)

/-- The walk stays at the asked depths. -/
theorem below_of_mem_topPairs (h : StateOk σ) {d0 d1 : ℕ} {x0 x1 y0 y1 : XNode}
    (hy : (y0, y1) ∈ σ.topPairs d0 d1 x0 x1) :
    σ.HasPair y0 y1 ∧ σ.Below d0 x0 y0 ∧ σ.Below d1 x1 y1 := by
  induction d0 generalizing x0 with
  | zero => exact (mem_topPairs_provider h d1 x0 x1).1 hy
  | succ d0 ih =>
      by_cases hpair : σ.HasPair x0 x1
      · rw [topPairs_consumer hpair, List.mem_flatMap] at hy
        obtain ⟨child, hchild, hy⟩ := hy
        obtain ⟨hpair', h0, h1⟩ := ih hy
        exact ⟨hpair', below_succ.2 ⟨child, (h.tree.linked.mem_children x0 child).1 hchild, h0⟩,
          h1⟩
      · rw [topPairs_eq_nil hpair] at hy
        cases hy

theorem mem_topPairs (h : StateOk σ) (hclosed : σ.ConsumersClosed) (d0 d1 : ℕ)
    (x0 x1 : XNode) {y0 y1 : XNode} :
    (y0, y1) ∈ σ.topPairs d0 d1 x0 x1 ↔
      σ.HasPair y0 y1 ∧ σ.Below d0 x0 y0 ∧ σ.Below d1 x1 y1 := by
  refine ⟨below_of_mem_topPairs h, ?_⟩
  induction d0 generalizing x0 with
  | zero => exact (mem_topPairs_provider h d1 x0 x1).2
  | succ d0 ih =>
      rintro ⟨hy, h0, h1⟩
      have hpair := hasPair_below h (hasPair_above hclosed hy h0) h1
      obtain ⟨child, hchild, h0⟩ := below_succ.1 h0
      rw [topPairs_consumer hpair, List.mem_flatMap]
      exact ⟨child, (h.tree.linked.mem_children x0 child).2 hchild, ih child ⟨hy, h0, h1⟩⟩

/-- Children are visited once, and their descendants are disjoint. -/
theorem nodup_topPairs (h : StateOk σ) (d0 d1 : ℕ) (x0 x1 : XNode) :
    (σ.topPairs d0 d1 x0 x1).Nodup := by
  induction d0 generalizing x0 with
  | zero =>
      induction d1 generalizing x1 with
      | zero =>
          by_cases hpair : σ.HasPair x0 x1
          · rw [topPairs_zero hpair]
            exact List.nodup_singleton _
          · rw [topPairs_eq_nil hpair]
            exact List.nodup_nil
      | succ d1 ih =>
          by_cases hpair : σ.HasPair x0 x1
          · rw [topPairs_provider hpair, List.nodup_flatMap]
            refine ⟨fun child _ => ih child,
              (h.tree.linked.nodup_children x1).imp fun hne => ?_⟩
            rintro ⟨y0, y1⟩ hy hy'
            exact hne (below_unique (below_of_mem_topPairs h hy).2.2
              (below_of_mem_topPairs h hy').2.2)
          · rw [topPairs_eq_nil hpair]
            exact List.nodup_nil
  | succ d0 ih =>
      by_cases hpair : σ.HasPair x0 x1
      · rw [topPairs_consumer hpair, List.nodup_flatMap]
        refine ⟨fun child _ => ih child,
          (h.tree.linked.nodup_children x0).imp fun hne => ?_⟩
        rintro ⟨y0, y1⟩ hy hy'
        exact hne (below_unique (below_of_mem_topPairs h hy).2.1
          (below_of_mem_topPairs h hy').2.1)
      · rw [topPairs_eq_nil hpair]
        exact List.nodup_nil

end Reached

/-! ## Completeness -/

section Complete

variable {c : KConf R} {cmp : KNode XNode R → KNode XNode R → ℤ} {now : R}
  {σ : XState R}

omit [Field R] [LinearOrder R] [FloorRing R] in
theorem hCount_le_kHeapAdd (h : KHeap (KNode XNode R)) (k : KNode XNode R) :
    h.hCount ≤ (kHeapAdd cmp h k).hCount := by
  rw [kHeapAdd]
  split_ifs
  · exact le_rfl
  · rw [kHeapAddFull]
    split <;> exact le_rfl
  · exact Nat.le_succ _

theorem hCount_le_foldl_offer (pairs : List (XNode × XNode))
    (s : XState R × KHeap (KNode XNode R)) :
    s.2.hCount ≤ (pairs.foldl (fun s pair =>
      offer c cmp now s pair.1 pair.2) s).2.hCount := by
  induction pairs generalizing s with
  | nil => exact le_rfl
  | cons pair pairs ih =>
      rw [List.foldl_cons]
      refine le_trans ?_ (ih _)
      rw [offer]
      cases s.1.kLookup pair.1 pair.2 with
      | none => exact le_rfl
      | some k => exact hCount_le_kHeapAdd _ _

/-- The walk is complete exactly when the pairs are closed under consumers: a
walk from a missing pair to an existing one below it offers nothing. -/
theorem topComplete_iff (h : StateOk σ) :
    σ.TopComplete c ↔ σ.ConsumersClosed := by
  constructor
  · intro hcomplete y0 y1 p hy hp
    by_contra hpair
    obtain ⟨pairs, -, hmem, hwalk⟩ := hcomplete 1 0 p y1
    have hstop := hwalk (fun _ _ => 0) 0 (kHeapInit 1)
    rw [kHeapTop_eq 1 0 p y1 .refl, topPairs_eq_nil hpair,
      List.foldl_nil] at hstop
    have hcount := congrArg (fun s => s.2.hCount) hstop
    have hoffered : (y0, y1) ∈ pairs := (hmem y0 y1).2 ⟨hy, ⟨p, hp, rfl⟩, rfl⟩
    cases pairs with
    | nil => exact absurd hoffered List.not_mem_nil
    | cons pair pairs =>
        obtain ⟨k, hk⟩ := ((hmem pair.1 pair.2).1 List.mem_cons_self).1
        rw [List.foldl_cons] at hcount
        have hle : (offer c (fun _ _ => 0) 0 (σ, kHeapInit 1) pair.1 pair.2).2.hCount ≤
            (pairs.foldl (fun s pair => offer c (fun _ _ => 0) 0 s pair.1 pair.2)
              (offer c (fun _ _ => 0) 0 (σ, kHeapInit 1) pair.1 pair.2)).2.hCount :=
          hCount_le_foldl_offer pairs _
        rw [← hcount, offer, hk] at hle
        exact absurd hle (Nat.not_succ_le_zero 0)
  · intro hclosed d0 d1 x0 x1
    exact ⟨σ.topPairs d0 d1 x0 x1, nodup_topPairs h d0 d1 x0 x1,
      fun y0 y1 => mem_topPairs h hclosed d0 d1 x0 x1,
      fun cmp now heap => kHeapTop_eq d0 d1 x0 x1 .refl⟩

end Complete

end Xltop.Master
