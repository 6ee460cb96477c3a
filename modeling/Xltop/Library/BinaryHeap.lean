import Mathlib.Data.Finset.Range
import Mathlib.Data.Multiset.Range
import Mathlib.Data.Finset.Image
import Mathlib.Logic.Equiv.Basic
import Mathlib.Logic.Function.Basic

/-!
# Binary heaps with a hole

An array heap keeps its least element at index 0; the parent of index `i` is
`(i - 1) / 2`.  Both sift loops move a hole through the array and drop an
element into it at the end.  This file says what each loop needs of the order
around the hole, that it ends with a heap, and that it only rearranges.
-/

namespace Xltop.BinaryHeap

open Function

variable {α : Type*}

/-- A three-way comparison that is a total preorder. -/
structure Comparison (cmp : α → α → ℤ) : Prop where
  neg_iff : ∀ a b, cmp a b < 0 ↔ 0 < cmp b a
  trans : ∀ {a b c}, cmp a b ≤ 0 → cmp b c ≤ 0 → cmp a c ≤ 0

namespace Comparison

variable {cmp : α → α → ℤ} (hcmp : Comparison cmp)

include hcmp

theorem refl (a : α) : cmp a a ≤ 0 := by
  by_contra hpos
  have hneg := (hcmp.neg_iff a a).2 (by omega)
  omega

theorem le_of_not_le {a b : α} (h : ¬ cmp a b ≤ 0) : cmp b a ≤ 0 := by
  have hneg := (hcmp.neg_iff b a).2 (by omega)
  omega

theorem le_of_not_neg {a b : α} (h : ¬ cmp a b < 0) : cmp b a ≤ 0 := by
  have hpos := mt (hcmp.neg_iff a b).2 h
  omega

end Comparison

/-- The parent of a heap index. -/
def parent (i : ℕ) : ℕ := (i - 1) / 2

theorem parent_lt {i : ℕ} (hi : 0 < i) : parent i < i := by
  unfold parent
  omega

theorem parent_eq_iff {i p : ℕ} (hi : 0 < i) :
    parent i = p ↔ i = 2 * p + 1 ∨ i = 2 * p + 2 := by
  unfold parent
  omega

/-- No element is less than the one at the parent index. -/
def Ordered (cmp : α → α → ℤ) (slots : ℕ → α) (count : ℕ) : Prop :=
  ∀ i, 0 < i → i < count → cmp (slots (parent i)) (slots i) ≤ 0

/-- The root of a heap is a least element. -/
theorem Ordered.root_le {cmp : α → α → ℤ} (hcmp : Comparison cmp)
    {slots : ℕ → α} {count : ℕ} (h : Ordered cmp slots count) {i : ℕ}
    (hi : i < count) : cmp (slots 0) (slots i) ≤ 0 := by
  induction i using Nat.strongRecOn with
  | ind i ih =>
      rcases Nat.eq_zero_or_pos i with hzero | hpos
      · rw [hzero]
        exact hcmp.refl _
      · have hparent := parent_lt hpos
        exact hcmp.trans (ih (parent i) hparent (hparent.trans hi))
          (h i hpos hi)

/-! ## What the slots hold -/

/-- The elements in the first `count` slots. -/
def contents (count : ℕ) (slots : ℕ → α) : Multiset α :=
  (Multiset.range count).map slots

theorem mem_contents {count : ℕ} {slots : ℕ → α} {a : α} :
    a ∈ contents count slots ↔ ∃ i < count, slots i = a := by
  simp [contents]

@[simp]
theorem contents_zero (slots : ℕ → α) : contents 0 slots = 0 := rfl

theorem contents_succ (count : ℕ) (slots : ℕ → α) :
    contents (count + 1) slots = slots count ::ₘ contents count slots := by
  simp [contents]

theorem contents_congr {count : ℕ} {left right : ℕ → α}
    (heq : ∀ i < count, left i = right i) :
    contents count left = contents count right :=
  Multiset.map_congr rfl fun i hi => heq i (Multiset.mem_range.1 hi)

theorem contents_update_ge {count i : ℕ} (slots : ℕ → α) (a : α)
    (hi : count ≤ i) : contents count (update slots i a) = contents count slots :=
  contents_congr fun j hj => update_of_ne (by omega) _ _

theorem contents_swap {count i j : ℕ} (hi : i < count) (hj : j < count)
    (slots : ℕ → α) :
    contents count (slots ∘ Equiv.swap i j) = contents count slots := by
  have himage : (Finset.range count).map (Equiv.swap i j).toEmbedding =
      Finset.range count := by
    ext index
    simp only [Finset.mem_map_equiv, Equiv.symm_swap, Finset.mem_range]
    rcases eq_or_ne index i with rfl | hindexi
    · simp [hi, hj]
    rcases eq_or_ne index j with rfl | hindexj
    · simp [hi, hj]
    · rw [Equiv.swap_apply_of_ne_of_ne hindexi hindexj]
  have hrange := congrArg (fun s : Finset ℕ => s.val.map slots) himage
  simpa [contents, Finset.map_val, Multiset.map_map, Finset.range_val] using hrange

/-- Moving an element into the hole and the hole to where it came from. -/
theorem contents_move {count i j : ℕ} (hi : i < count) (hj : j < count)
    (hne : i ≠ j) (slots : ℕ → α) (a : α) :
    contents count (update (update slots i (slots j)) j a) =
      contents count (update slots i a) := by
  rw [← contents_swap hi hj (update slots i a)]
  congr 1
  funext index
  rcases eq_or_ne index j with rfl | hindexj
  · simp
  rcases eq_or_ne index i with rfl | hindexi
  · simp [hne, hne.symm]
  · simp [hindexi, hindexj, Equiv.swap_apply_of_ne_of_ne]

/-- Replacing one element exchanges it in what the slots hold. -/
theorem contents_update {count i : ℕ} (hi : i < count) (slots : ℕ → α) (a : α) :
    slots i ::ₘ contents count (update slots i a) = a ::ₘ contents count slots := by
  induction count with
  | zero => omega
  | succ count ih =>
      rw [contents_succ, contents_succ]
      rcases eq_or_ne i count with rfl | hne
      · rw [update_self, contents_update_ge slots a le_rfl, Multiset.cons_swap]
      · rw [update_of_ne hne.symm, Multiset.cons_swap, ih (by omega),
          Multiset.cons_swap]

/-! ## Sifting up -/

section SiftUp

variable (cmp : α → α → ℤ) (k : α)

/-- Move the hole at `i` towards the root until `k` fits, then fill it. -/
def siftUp (slots : ℕ → α) (i : ℕ) : ℕ → α :=
  if i = 0 then update slots 0 k
  else if cmp (slots (parent i)) k ≤ 0 then update slots i k
  else siftUp (update slots i (slots (parent i))) (parent i)
termination_by i
decreasing_by exact parent_lt (by omega)

/-- Order off the hole, across the hole, and of `k` with what is below it. -/
structure UpReady (slots : ℕ → α) (count hole : ℕ) : Prop where
  off : ∀ i, 0 < i → i < count → i ≠ hole → parent i ≠ hole →
    cmp (slots (parent i)) (slots i) ≤ 0
  across : 0 < hole → ∀ i, 0 < i → i < count → parent i = hole →
    cmp (slots (parent hole)) (slots i) ≤ 0
  below : ∀ i, 0 < i → i < count → parent i = hole → cmp k (slots i) ≤ 0

variable {cmp k} (hcmp : Comparison cmp) {slots : ℕ → α} {count hole : ℕ}

theorem UpReady.fill (h : UpReady cmp k slots count hole)
    (habove : 0 < hole → cmp (slots (parent hole)) k ≤ 0) :
    Ordered cmp (update slots hole k) count := by
  intro i hpos hi
  rcases eq_or_ne i hole with rfl | hihole
  · rw [update_self, update_of_ne (parent_lt hpos).ne]
    exact habove hpos
  · rw [update_of_ne hihole]
    rcases eq_or_ne (parent i) hole with hchild | hparent
    · rw [hchild, update_self]
      exact h.below i hpos hi hchild
    · rw [update_of_ne hparent]
      exact h.off i hpos hi hihole hparent

include hcmp in
theorem UpReady.move (h : UpReady cmp k slots count hole) (hpos : 0 < hole)
    (hhole : hole < count) (habove : ¬ cmp (slots (parent hole)) k ≤ 0) :
    UpReady cmp k (update slots hole (slots (parent hole))) count
      (parent hole) := by
  have hup := parent_lt hpos
  have hk : cmp k (slots (parent hole)) ≤ 0 := hcmp.le_of_not_le habove
  refine ⟨?_, ?_, ?_⟩
  · intro i hi0 hi hine hparent
    have hihole : i ≠ hole := fun heq => hparent (by rw [heq])
    rw [update_of_ne hihole]
    rcases eq_or_ne (parent i) hole with hchild | hoff
    · rw [hchild, update_self]
      exact h.across hpos i hi0 hi hchild
    · rw [update_of_ne hoff]
      exact h.off i hi0 hi hihole hoff
  · intro hp0 i hi0 hi hchild
    have hgrand := parent_lt hp0
    have hparentOk : cmp (slots (parent (parent hole))) (slots (parent hole)) ≤ 0 :=
      h.off (parent hole) hp0 (hup.trans hhole) hup.ne (hgrand.trans hup).ne
    rw [update_of_ne (hgrand.trans hup).ne]
    rcases eq_or_ne i hole with rfl | hihole
    · rw [update_self]
      exact hparentOk
    · rw [update_of_ne hihole]
      apply hcmp.trans hparentOk
      rw [← hchild]
      exact h.off i hi0 hi hihole (by rw [hchild]; exact hup.ne)
  · intro i hi0 hi hchild
    rcases eq_or_ne i hole with rfl | hihole
    · rw [update_self]
      exact hk
    · rw [update_of_ne hihole]
      apply hcmp.trans hk
      rw [← hchild]
      exact h.off i hi0 hi hihole (by rw [hchild]; exact hup.ne)

include hcmp in
theorem siftUp_ordered (h : UpReady cmp k slots count hole)
    (hhole : hole < count) : Ordered cmp (siftUp cmp k slots hole) count := by
  induction slots, hole using siftUp.induct cmp k with
  | case1 slots =>
      rw [siftUp, if_pos rfl]
      exact h.fill fun hpos => absurd hpos (lt_irrefl 0)
  | case2 slots hole hne hle =>
      rw [siftUp, if_neg hne, if_pos hle]
      exact h.fill fun _ => hle
  | case3 slots hole hne hle ih =>
      rw [siftUp, if_neg hne, if_neg hle]
      have hpos := Nat.pos_of_ne_zero hne
      exact ih (h.move hcmp hpos hhole hle) ((parent_lt hpos).trans hhole)

theorem siftUp_contents (hhole : hole < count) :
    contents count (siftUp cmp k slots hole) =
      contents count (update slots hole k) := by
  induction slots, hole using siftUp.induct cmp k with
  | case1 slots => rw [siftUp, if_pos rfl]
  | case2 slots hole hne hle => rw [siftUp, if_neg hne, if_pos hle]
  | case3 slots hole hne hle ih =>
      have hup := parent_lt (Nat.pos_of_ne_zero hne)
      rw [siftUp, if_neg hne, if_neg hle, ih (hup.trans hhole),
        contents_move hhole (hup.trans hhole) hup.ne']

end SiftUp

/-! ## Sifting down -/

section SiftDown

variable (cmp : α → α → ℤ) (count : ℕ) (k : α)

/-- The index of the lesser of the children of `i`, of which the left one is
in the heap. -/
def lesserChild (slots : ℕ → α) (i : ℕ) : ℕ :=
  if 2 * i + 2 < count ∧ cmp (slots (2 * i + 2)) (slots (2 * i + 1)) < 0
  then 2 * i + 2 else 2 * i + 1

variable {count} in
theorem lesserChild_spec (slots : ℕ → α) {i : ℕ} (hi : 2 * i + 1 < count) :
    i < lesserChild cmp count slots i ∧ lesserChild cmp count slots i < count ∧
      parent (lesserChild cmp count slots i) = i := by
  unfold lesserChild parent
  split <;> omega

/-- Move the hole at `i` towards the leaves until `k` fits, then fill it. -/
def siftDown (slots : ℕ → α) (i : ℕ) : ℕ → α :=
  if 2 * i + 1 < count then
    if cmp k (slots (lesserChild cmp count slots i)) ≤ 0 then update slots i k
    else siftDown (update slots i (slots (lesserChild cmp count slots i)))
      (lesserChild cmp count slots i)
  else update slots i k
termination_by count - i
decreasing_by
  rename_i hleft _
  have hchild := lesserChild_spec cmp slots hleft
  omega

/-- Order off the hole, across the hole, and of `k` with what is above it. -/
structure DownReady (slots : ℕ → α) (hole : ℕ) : Prop where
  off : ∀ i, 0 < i → i < count → i ≠ hole → parent i ≠ hole →
    cmp (slots (parent i)) (slots i) ≤ 0
  across : 0 < hole → ∀ i, 0 < i → i < count → parent i = hole →
    cmp (slots (parent hole)) (slots i) ≤ 0
  above : 0 < hole → cmp (slots (parent hole)) k ≤ 0

variable {cmp count k} (hcmp : Comparison cmp) {slots : ℕ → α} {hole : ℕ}

theorem DownReady.fill (h : DownReady cmp count k slots hole)
    (hbelow : ∀ i, 0 < i → i < count → parent i = hole → cmp k (slots i) ≤ 0) :
    Ordered cmp (update slots hole k) count := by
  intro i hpos hi
  rcases eq_or_ne i hole with rfl | hihole
  · rw [update_self, update_of_ne (parent_lt hpos).ne]
    exact h.above hpos
  · rw [update_of_ne hihole]
    rcases eq_or_ne (parent i) hole with hchild | hparent
    · rw [hchild, update_self]
      exact hbelow i hpos hi hchild
    · rw [update_of_ne hparent]
      exact h.off i hpos hi hihole hparent

include hcmp in
/-- The lesser child is not greater than any child. -/
theorem lesserChild_le {i child : ℕ} (hpos : 0 < child) (hchild : child < count)
    (hparent : parent child = i) :
    cmp (slots (lesserChild cmp count slots i)) (slots child) ≤ 0 := by
  unfold lesserChild
  rcases (parent_eq_iff hpos).1 hparent with rfl | rfl
  · split
    · next hright => omega
    · exact hcmp.refl _
  · split
    · exact hcmp.refl _
    · next hright =>
        exact hcmp.le_of_not_neg fun hlt => hright ⟨hchild, hlt⟩

include hcmp in
theorem DownReady.move (h : DownReady cmp count k slots hole)
    (hleft : 2 * hole + 1 < count)
    (hbelow : ¬ cmp k (slots (lesserChild cmp count slots hole)) ≤ 0) :
    DownReady cmp count k
      (update slots hole (slots (lesserChild cmp count slots hole)))
      (lesserChild cmp count slots hole) := by
  obtain ⟨hdown, hcount, hparent⟩ := lesserChild_spec cmp slots hleft
  have hmin : ∀ child, 0 < child → child < count → parent child = hole →
      cmp (slots (lesserChild cmp count slots hole)) (slots child) ≤ 0 :=
    fun _ => lesserChild_le hcmp
  generalize lesserChild cmp count slots hole = next at *
  refine ⟨?_, ?_, ?_⟩
  · intro i hi0 hi hine hoff
    rcases eq_or_ne i hole with rfl | hihole
    · rw [update_self, update_of_ne (parent_lt hi0).ne]
      exact h.across hi0 next (by omega) hcount hparent
    · rw [update_of_ne hihole]
      rcases eq_or_ne (parent i) hole with hchild | hparent'
      · rw [hchild, update_self]
        exact hmin i hi0 hi hchild
      · rw [update_of_ne hparent']
        exact h.off i hi0 hi hihole hparent'
  · intro _ i hi0 hi hchild
    have hchildGt : next < i := hchild ▸ parent_lt hi0
    rw [hparent, update_self, update_of_ne (by omega)]
    rw [← hchild]
    exact h.off i hi0 hi (by omega) (by omega)
  · intro _
    rw [hparent, update_self]
    exact hcmp.le_of_not_le hbelow

include hcmp in
theorem siftDown_ordered (h : DownReady cmp count k slots hole) :
    Ordered cmp (siftDown cmp count k slots hole) count := by
  induction slots, hole using siftDown.induct cmp count k with
  | case1 slots hole hleft hle =>
      rw [siftDown, if_pos hleft, if_pos hle]
      exact h.fill fun i hpos hi hparent =>
        hcmp.trans hle (lesserChild_le hcmp hpos hi hparent)
  | case2 slots hole hleft hle ih =>
      rw [siftDown, if_pos hleft, if_neg hle]
      exact ih (h.move hcmp hleft hle)
  | case3 slots hole hleft =>
      rw [siftDown, if_neg hleft]
      refine h.fill fun i hpos hi hparent => ?_
      have hchild := (parent_eq_iff hpos).1 hparent
      omega

/-- Sifting only rearranges, also as seen over more slots than the heap has. -/
theorem siftDown_contents {total : ℕ} (hhole : hole < count)
    (htotal : count ≤ total) :
    contents total (siftDown cmp count k slots hole) =
      contents total (update slots hole k) := by
  induction slots, hole using siftDown.induct cmp count k with
  | case1 slots hole hleft hle => rw [siftDown, if_pos hleft, if_pos hle]
  | case2 slots hole hleft hle ih =>
      obtain ⟨hdown, hcount, -⟩ := lesserChild_spec cmp slots hleft
      rw [siftDown, if_pos hleft, if_neg hle, ih hcount,
        contents_move (hhole.trans_le htotal) (hcount.trans_le htotal) hdown.ne]
  | case3 slots hole hleft => rw [siftDown, if_neg hleft]

/-- Slots outside the heap are not touched. -/
theorem siftDown_of_ge (hhole : hole < count) {i : ℕ} (hi : count ≤ i) :
    siftDown cmp count k slots hole i = slots i := by
  induction slots, hole using siftDown.induct cmp count k with
  | case1 slots hole hleft hle =>
      rw [siftDown, if_pos hleft, if_pos hle, update_of_ne (by omega)]
  | case2 slots hole hleft hle ih =>
      obtain ⟨-, hcount, -⟩ := lesserChild_spec cmp slots hleft
      rw [siftDown, if_pos hleft, if_neg hle, ih hcount, update_of_ne (by omega)]
  | case3 slots hole hleft =>
      rw [siftDown, if_neg hleft, update_of_ne (by omega)]

/-- A heap with its root taken out is ready for any element. -/
theorem Ordered.downReady_root (h : Ordered cmp slots count) :
    DownReady cmp count k slots 0 where
  off i hpos hi _ _ := h i hpos hi
  across hpos := absurd hpos (lt_irrefl 0)
  above hpos := absurd hpos (lt_irrefl 0)

/-- A heap with a free slot at its end is ready for any element. -/
theorem Ordered.upReady_last (h : Ordered cmp slots count) :
    UpReady cmp k slots (count + 1) count where
  off i hpos hi hne _ := h i hpos (by omega)
  across _ i hpos hi hparent := by
    have hlt := parent_lt hpos
    omega
  below i hpos hi hparent := by
    have hlt := parent_lt hpos
    omega

end SiftDown

end Xltop.BinaryHeap
