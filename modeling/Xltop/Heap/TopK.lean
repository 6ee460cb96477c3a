import Xltop.Heap.KHeap

/-!
# Top-k selection

Adding nodes one by one to an empty heap of some limit and ordering the heap
leaves the greatest nodes of the input, as many as the limit allows, in
non-increasing order.  Which nodes were dropped is carried along as a
multiset: none of them is greater than a node that was kept.
-/

namespace Xltop.Heap

open Function
open Xltop.BinaryHeap
open Xltop.Rate

variable {α : Type*} {cmp : α → α → ℤ}

/-- The kept elements are a best choice among the added ones. -/
def Selects (cmp : α → α → ℤ) (added kept : Multiset α) : Prop :=
  ∃ dropped : Multiset α, added = kept + dropped ∧
    ∀ a ∈ dropped, ∀ b ∈ kept, cmp a b ≤ 0

/-- What holds of a heap of limit `limit` after `added` were offered to it. -/
structure Keeps (cmp : α → α → ℤ) (limit : ℕ) (added : Multiset α)
    (h : KHeap α) : Prop where
  hLimit_eq : h.hLimit = limit
  hCount_eq : h.hCount = min added.card limit
  ordered : Ordered cmp h.hK h.hCount
  selects : Selects cmp added (contents h.hCount h.hK)

theorem keeps_init [Inhabited α] (limit : ℕ) :
    Keeps cmp limit 0 (kHeapInit limit) where
  hLimit_eq := rfl
  hCount_eq := by simp [kHeapInit]
  ordered := fun i _ hi => absurd hi (Nat.not_lt_zero i)
  selects := ⟨0, by simp [kHeapInit], by simp⟩

namespace Keeps

variable {limit : ℕ} {added : Multiset α} {h : KHeap α}

/-- A heap of limit 0 keeps nothing. -/
theorem add_of_limit_zero (hkeeps : Keeps cmp limit added h)
    (hzero : h.hLimit = 0) (k : α) : Keeps cmp limit (k ::ₘ added) h := by
  have hempty : h.hCount = 0 := by
    rw [hkeeps.hCount_eq, ← hkeeps.hLimit_eq, hzero, Nat.min_zero]
  refine ⟨hkeeps.hLimit_eq, ?_, hkeeps.ordered, k ::ₘ added, ?_, ?_⟩
  · rw [hempty, ← hkeeps.hLimit_eq, hzero, Nat.min_zero]
  · rw [hempty, contents_zero, zero_add]
  · rw [hempty, contents_zero]
    simp

theorem add_of_lt (hcmp : Comparison cmp) (hkeeps : Keeps cmp limit added h)
    (hroom : h.hCount < h.hLimit) (k : α) :
    Keeps cmp limit (k ::ₘ added)
      { h with
        hK := siftUp cmp k h.hK h.hCount
        hCount := h.hCount + 1 } := by
  have hcard : h.hCount = added.card := by
    have hcount := hkeeps.hCount_eq
    have hlimit := hkeeps.hLimit_eq
    omega
  have hcontents : contents (h.hCount + 1) (siftUp cmp k h.hK h.hCount) =
      k ::ₘ contents h.hCount h.hK := by
    rw [siftUp_contents (Nat.lt_succ_self _), contents_succ, update_self,
      contents_update_ge _ _ le_rfl]
  obtain ⟨dropped, hadded, -⟩ := hkeeps.selects
  -- Nothing was dropped yet, since there was always room.
  have hnone : dropped = 0 := by
    have hsum := congrArg Multiset.card hadded
    rw [Multiset.card_add] at hsum
    have hheld : (contents h.hCount h.hK).card = h.hCount := by simp [contents]
    exact Multiset.card_eq_zero.1 (by omega)
  refine ⟨hkeeps.hLimit_eq, ?_,
    siftUp_ordered hcmp hkeeps.ordered.upReady_last (Nat.lt_succ_self _), 0, ?_, ?_⟩
  · have hlimit := hkeeps.hLimit_eq
    simp only [Multiset.card_cons]
    omega
  · rw [hcontents, hadded, hnone, add_zero, add_zero]
  · simp

theorem add_of_full (hcmp : Comparison cmp) (hkeeps : Keeps cmp limit added h)
    (hfull : h.hCount = h.hLimit) (hpos : 0 < h.hLimit) (k : α) :
    Keeps cmp limit (k ::ₘ added) (kHeapAddFull cmp h k) := by
  have hcount : h.hCount = min (k ::ₘ added).card limit := by
    have hold := hkeeps.hCount_eq
    have hlimit := hkeeps.hLimit_eq
    rw [Multiset.card_cons]
    omega
  have hroot : ∀ b ∈ contents h.hCount h.hK, cmp (h.hK 0) b ≤ 0 := by
    intro b hb
    obtain ⟨i, hi, rfl⟩ := mem_contents.1 hb
    exact hkeeps.ordered.root_le hcmp hi
  obtain ⟨dropped, hadded, hdropped⟩ := hkeeps.selects
  unfold kHeapAddFull
  split
  · next hle =>
      refine ⟨hkeeps.hLimit_eq, hcount, hkeeps.ordered, k ::ₘ dropped, ?_, ?_⟩
      · rw [hadded, Multiset.add_cons]
      · intro a ha b hb
        rcases Multiset.mem_cons.1 ha with rfl | ha
        · exact hcmp.trans hle (hroot b hb)
        · exact hdropped a ha b hb
  · next hgt =>
      have hkroot : cmp (h.hK 0) k ≤ 0 := hcmp.le_of_not_le hgt
      have hslot : 0 < h.hCount := by omega
      have hsift : contents h.hCount (siftDown cmp h.hCount k h.hK 0) =
          contents h.hCount (update h.hK 0 k) :=
        siftDown_contents hslot le_rfl
      have hexchange := contents_update hslot h.hK k
      refine ⟨hkeeps.hLimit_eq, hcount,
        siftDown_ordered hcmp hkeeps.ordered.downReady_root,
        h.hK 0 ::ₘ dropped, ?_, ?_⟩
      · rw [hsift, Multiset.add_cons, ← Multiset.cons_add, hexchange, hadded,
          Multiset.cons_add]
      · intro a ha b hb
        rw [hsift] at hb
        have hb' : b = k ∨ b ∈ contents h.hCount h.hK := by
          rw [← Multiset.mem_cons, ← hexchange]
          exact Multiset.mem_cons_of_mem hb
        have hrootb : cmp (h.hK 0) b ≤ 0 := by
          rcases hb' with rfl | hb'
          · exact hkroot
          · exact hroot b hb'
        rcases Multiset.mem_cons.1 ha with rfl | ha
        · exact hrootb
        · exact hcmp.trans
            (hdropped a ha (h.hK 0) (mem_contents.2 ⟨0, hslot, rfl⟩)) hrootb

theorem kHeapAdd (hcmp : Comparison cmp) (hkeeps : Keeps cmp limit added h)
    (k : α) : Keeps cmp limit (k ::ₘ added) (kHeapAdd cmp h k) := by
  unfold Heap.kHeapAdd
  split
  · next hzero => exact hkeeps.add_of_limit_zero hzero k
  · next hpos =>
      split
      · next hfull => exact hkeeps.add_of_full hcmp hfull (by omega) k
      · next hroom =>
          have hcount := hkeeps.hCount_eq
          have hlimit := hkeeps.hLimit_eq
          exact hkeeps.add_of_lt hcmp (by omega) k

/-- Adding a list of elements one by one. -/
theorem foldl_kHeapAdd (hcmp : Comparison cmp) (ks : List α)
    (hkeeps : Keeps cmp limit added h) :
    Keeps cmp limit (ks + added) (ks.foldl (Heap.kHeapAdd cmp) h) := by
  induction ks generalizing added h with
  | nil => simpa using hkeeps
  | cons k ks ih =>
      have hnext := ih (hkeeps.kHeapAdd hcmp k)
      rwa [Multiset.add_cons, ← Multiset.cons_add, Multiset.cons_coe] at hnext

end Keeps

/-! ## Ordering the heap -/

/-- A stage of `k_heap_order`: a heap in the first `n` slots, the rest sorted
and not greater than anything in the heap. -/
structure Ordering (cmp : α → α → ℤ) (total n : ℕ) (slots : ℕ → α) : Prop where
  ordered : Ordered cmp slots n
  sorted : ∀ i j, n ≤ i → i ≤ j → j < total → cmp (slots j) (slots i) ≤ 0
  apart : ∀ i j, i < n → n ≤ j → j < total → cmp (slots j) (slots i) ≤ 0

theorem Ordering.step {total n : ℕ} {slots : ℕ → α} (hcmp : Comparison cmp)
    (h : Ordering cmp total (n + 1) slots) :
    Ordering cmp total n
      (siftDown cmp n (slots n) (update slots n (slots 0)) 0) := by
  have hrest : Ordered cmp (update slots n (slots 0)) n := by
    intro i hpos hi
    rw [update_of_ne ((parent_lt hpos).trans hi).ne, update_of_ne hi.ne]
    exact h.ordered i hpos (Nat.lt_succ_of_lt hi)
  have hsift : Ordered cmp
      (siftDown cmp n (slots n) (update slots n (slots 0)) 0) n :=
    siftDown_ordered hcmp hrest.downReady_root
  rcases Nat.eq_zero_or_pos n with rfl | hpos
  · have hsame : siftDown cmp 0 (slots 0) (update slots 0 (slots 0)) 0 = slots := by
      rw [siftDown, if_neg (by omega)]
      simp
    rw [hsame] at hsift ⊢
    refine ⟨hsift, fun i j _ hij hj => ?_, fun i j hi => absurd hi (Nat.not_lt_zero i)⟩
    rcases Nat.eq_zero_or_pos i with rfl | hi
    · rcases Nat.eq_zero_or_pos j with rfl | hjpos
      · exact hcmp.refl _
      · exact h.apart 0 j (by omega) (by omega) hj
    · exact h.sorted i j hi hij hj
  -- Slots from `n` on are those before the step, with the root at `n`.
  have hge : ∀ j, n ≤ j →
      siftDown cmp n (slots n) (update slots n (slots 0)) 0 j =
        update slots n (slots 0) j := fun j hj => siftDown_of_ge hpos hj
  have hheld : ∀ i, i < n → ∃ i' < n + 1,
      siftDown cmp n (slots n) (update slots n (slots 0)) 0 i = slots i' := by
    intro i hi
    have hmem : siftDown cmp n (slots n) (update slots n (slots 0)) 0 i ∈
        contents n (update (update slots n (slots 0)) 0 (slots n)) := by
      rw [← siftDown_contents hpos le_rfl]
      exact mem_contents.2 ⟨i, hi, rfl⟩
    obtain ⟨i', hi', heq⟩ := mem_contents.1 hmem
    rcases Nat.eq_zero_or_pos i' with rfl | hi'pos
    · exact ⟨n, by omega, by rw [← heq, update_self]⟩
    · exact ⟨i', by omega, by
        rw [← heq, update_of_ne hi'pos.ne', update_of_ne hi'.ne]⟩
  refine ⟨hsift, fun i j hi hij hj => ?_, fun i j hi hj hjt => ?_⟩
  · rw [hge i hi, hge j (hi.trans hij)]
    rcases hi.eq_or_lt with rfl | hi
    · rw [update_self]
      rcases hij.eq_or_lt with rfl | hij
      · rw [update_self]
        exact hcmp.refl _
      · rw [update_of_ne hij.ne']
        exact h.apart 0 j (by omega) hij hj
    · rw [update_of_ne hi.ne', update_of_ne (hi.trans_le hij).ne']
      exact h.sorted i j hi hij hj
  · obtain ⟨i', hi', heq⟩ := hheld i hi
    rw [hge j hj, heq]
    rcases hj.eq_or_lt with rfl | hj
    · rw [update_self]
      exact h.ordered.root_le hcmp hi'
    · rw [update_of_ne hj.ne']
      exact h.apart i' j hi' hj hjt

theorem Ordering.step_contents {total n : ℕ} (slots : ℕ → α) (hn : n < total) :
    contents total (siftDown cmp n (slots n) (update slots n (slots 0)) 0) =
      contents total slots := by
  rcases Nat.eq_zero_or_pos n with rfl | hpos
  · rw [siftDown, if_neg (by omega)]
    simp
  · rw [siftDown_contents hpos hn.le,
      contents_move hn (hpos.trans hn) hpos.ne', update_eq_self]

theorem kHeapOrderLoop_spec {total n : ℕ} {slots : ℕ → α}
    (hcmp : Comparison cmp) (h : Ordering cmp total n slots) (hn : n ≤ total) :
    Ordering cmp total 0 (kHeapOrderLoop cmp n slots) ∧
      contents total (kHeapOrderLoop cmp n slots) = contents total slots := by
  induction n generalizing slots with
  | zero => exact ⟨h, rfl⟩
  | succ n ih =>
      obtain ⟨hdone, hcontents⟩ := ih (h.step hcmp) (by omega)
      exact ⟨hdone, hcontents.trans (Ordering.step_contents slots (by omega))⟩

/-- A heap never outgrows its limit. -/
theorem kHeapAdd_count (cmp : α → α → ℤ) {h : KHeap α} (hle : h.hCount ≤ h.hLimit) (k : α) :
    (kHeapAdd cmp h k).hCount ≤ (kHeapAdd cmp h k).hLimit ∧
      (kHeapAdd cmp h k).hLimit = h.hLimit := by
  rw [kHeapAdd]
  split
  · exact ⟨hle, rfl⟩
  · split
    · rw [kHeapAddFull]
      split <;> exact ⟨hle, rfl⟩
    · next hfree => exact ⟨Nat.lt_of_le_of_ne hle hfree, rfl⟩

theorem length_kHeapArray (h : KHeap α) : (kHeapArray h).length = h.hCount := by
  rw [kHeapArray, List.length_map, List.length_range]

theorem coe_kHeapArray (h : KHeap α) :
    (kHeapArray h : Multiset α) = contents h.hCount h.hK := rfl

/-- What `k_heap_order` leaves of a heap that keeps a best choice. -/
theorem Keeps.kHeapOrder {limit : ℕ} {added : Multiset α} {h : KHeap α}
    (hcmp : Comparison cmp) (hkeeps : Keeps cmp limit added h) :
    (kHeapArray (kHeapOrder cmp h)).length = min added.card limit ∧
      Selects cmp added (kHeapArray (kHeapOrder cmp h)) ∧
      (kHeapArray (kHeapOrder cmp h)).Pairwise fun a b => cmp b a ≤ 0 := by
  have hstart : Ordering cmp h.hCount h.hCount h.hK :=
    ⟨hkeeps.ordered, fun i j hi hij hj => by omega,
      fun i j _ hj hjt => by omega⟩
  obtain ⟨hdone, hcontents⟩ := kHeapOrderLoop_spec hcmp hstart le_rfl
  refine ⟨?_, ?_, ?_⟩
  · simpa [kHeapArray, Heap.kHeapOrder] using hkeeps.hCount_eq
  · rw [coe_kHeapArray]
    change Selects cmp added (contents h.hCount (kHeapOrderLoop cmp h.hCount h.hK))
    rw [hcontents]
    exact hkeeps.selects
  · rw [kHeapArray, List.pairwise_map]
    refine List.pairwise_lt_range.imp_of_mem fun {i j} _ hj hij => ?_
    exact hdone.sorted i j (Nat.zero_le i) hij.le (List.mem_range.1 hj)

/-- A heap whose limit is not exceeded loses nothing. -/
theorem Keeps.kHeapOrder_of_card_le {limit : ℕ} {added : Multiset α} {h : KHeap α}
    (hcmp : Comparison cmp) (hkeeps : Keeps cmp limit added h) (hle : added.card ≤ limit) :
    (kHeapArray (Heap.kHeapOrder cmp h) : Multiset α) = added := by
  obtain ⟨hlength, ⟨dropped, hadded, -⟩, -⟩ := hkeeps.kHeapOrder hcmp
  have hcard := congrArg Multiset.card hadded
  rw [Multiset.card_add, Multiset.coe_card, hlength, Nat.min_eq_left hle] at hcard
  have hnone : dropped = 0 := Multiset.card_eq_zero.1 (by omega)
  rw [hadded, hnone, add_zero]

/-- For every limit and every sort specification, the default one and all that
`q_k_top_parse` accepts among them, `k_heap_add` of the nodes one by one and
then `k_heap_order` leave `min(n, limit)` of the nodes, not increasing under
`k_top_cmp`, and no node left out is greater than one kept. -/
theorem top_k_selection {X R : Type*} [LinearOrder R] [Inhabited (KNode X R)]
    (spec : TSpec) (limit : ℕ) (ks : List (KNode X R)) :
    let kept := kHeapArray (kHeapOrder (kTopCmp spec)
      (ks.foldl (kHeapAdd (kTopCmp spec)) (kHeapInit limit)))
    kept.length = min ks.length limit ∧
      kept.Pairwise (fun k0 k1 => kTopCmp spec k1 k0 ≤ 0) ∧
      ∃ left : List (KNode X R), ks.Perm (kept ++ left) ∧
        ∀ k0 ∈ left, ∀ k1 ∈ kept, kTopCmp spec k0 k1 ≤ 0 := by
  intro kept
  have hcmp := kTopCmp_comparison (X := X) (R := R) spec
  have hinit : Keeps (kTopCmp spec) limit 0
      (kHeapInit limit : KHeap (KNode X R)) := keeps_init limit
  have hkeeps := hinit.foldl_kHeapAdd hcmp ks
  obtain ⟨hlength, ⟨dropped, hadded, hdropped⟩, hsorted⟩ := hkeeps.kHeapOrder hcmp
  refine ⟨by simpa using hlength, hsorted, dropped.toList, ?_, ?_⟩
  · rw [← Multiset.coe_eq_coe, ← Multiset.coe_add, Multiset.coe_toList]
    simpa using hadded
  · intro k0 hk0 k1 hk1
    exact hdropped k0 (Multiset.mem_toList.1 hk0) k1 (Multiset.mem_coe.2 hk1)

end Xltop.Heap
