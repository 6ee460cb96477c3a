import Mathlib.Algebra.BigOperators.Group.List.Basic
import Mathlib.Algebra.Order.Group.Unbundled.Basic
import Mathlib.Algebra.Order.Group.Defs
import Mathlib.Data.List.DropRight

/-!
# Counters read again and again

Whoever reads a counter and adds up the differences between one reading and the
next gets the last reading less the first.  Readings may come in rounds, a
reader may forget its last reading after a round.
-/

namespace Xltop.Telescoping

variable {G : Type*} [AddCommGroup G]

/-- What the reading `x` adds after the last reading `b`, or after none. -/
def advance (b : Option G) (x : G) : G :=
  match b with
  | none => 0
  | some b => x - b

/-- What a list of readings adds up to. -/
def gain : Option G → List G → G
  | _, [] => 0
  | b, x :: xs => advance b x + gain (some x) xs

/-- The last reading less the first. -/
def growth : List G → G
  | [] => 0
  | x :: xs => xs.getLastD x - x

@[simp]
theorem gain_nil (b : Option G) : gain b [] = 0 := by
  cases b <;> rfl

theorem gain_cons (b : Option G) (x : G) (xs : List G) :
    gain b (x :: xs) = advance b x + gain (some x) xs := by
  cases b <;> rfl

theorem gain_append (b : Option G) (xs ys : List G) :
    gain b (xs ++ ys) = gain b xs + gain (xs.getLast?.or b) ys := by
  induction xs generalizing b with
  | nil => rw [List.nil_append, gain_nil, zero_add, List.getLast?_nil, Option.none_or]
  | cons x xs ih =>
      have hlast : xs.getLast?.or (some x) = (x :: xs).getLast?.or b := by
        rw [List.getLast?_cons]
        cases xs.getLast? <;> rfl
      rw [List.cons_append, gain_cons, gain_cons, ih, hlast, add_assoc]

/-- The differences telescope. -/
theorem gain_some (b : G) (xs : List G) : gain (some b) xs = xs.getLastD b - b := by
  induction xs generalizing b with
  | nil => exact (sub_self b).symm
  | cons x xs ih =>
      calc gain (some b) (x :: xs) = (x - b) + (xs.getLastD x - x) := by
            rw [gain_cons, ih, advance]
        _ = xs.getLastD x - b := by
            rw [add_comm, sub_add_sub_cancel]
        _ = (x :: xs).getLastD b - b := by rw [List.getLastD_cons]

theorem gain_none (xs : List G) : gain none xs = growth xs := by
  cases xs with
  | nil => rfl
  | cons x xs => rw [gain_cons, gain_some, advance, zero_add, growth]

theorem gain_eq_growth (b : Option G) (xs : List G) :
    gain b xs = growth (b.toList ++ xs) := by
  cases b with
  | none => exact gain_none xs
  | some b => exact gain_some b xs

/-! ## Whether there is a difference -/

section Compared

variable {V : Type*}

/-- Some reading has one before it. -/
def Compared (old : Option V) (reads : List V) : Prop :=
  1 < (old.toList ++ reads).length

theorem not_compared_nil (old : Option V) : ¬ Compared old [] := by
  cases old <;> simp [Compared]

theorem compared_singleton {old : Option V} {x : V} : Compared old [x] ↔ old ≠ none := by
  cases old <;> simp [Compared]

theorem compared_append {old : Option V} {xs ys : List V} :
    Compared old (xs ++ ys) ↔ Compared old xs ∨ Compared (xs.getLast?.or old) ys := by
  rcases List.eq_nil_or_concat xs with rfl | ⟨init, last, rfl⟩
  · rw [List.nil_append, List.getLast?_nil, Option.none_or,
      or_iff_right (not_compared_nil old)]
  · simp only [Compared, List.concat_eq_append, List.getLast?_append, List.getLast?_singleton,
      Option.some_or, Option.toList_some, List.length_append, List.length_singleton]
    omega

end Compared

/-! ## Rounds -/

section Rounds

variable {ρ : Type*} (kept : ρ → Bool) (reads : ρ → List G)

/-- What the reader knows after a round: its last reading, unless the round
makes it forget. -/
def carry (b : Option G) (r : ρ) : Option G :=
  if kept r then (reads r).getLast?.or b else none

/-- What the rounds add up to. -/
def total (b : Option G) : List ρ → G
  | [] => 0
  | r :: rs => gain b (reads r) + total (carry kept reads b r) rs

/-- The first period goes on from the last reading before it. -/
theorem total_eq_gain {rs : List ρ} (hreads : ∀ r ∈ rs, kept r = false → reads r = [])
    (b : Option G) {first : List ρ} {later : List (List ρ)}
    (hsplit : rs.splitOnP (fun r => !kept r) = first :: later) :
    total kept reads b rs = gain b (first.flatMap reads) +
      (later.map fun period => growth (period.flatMap reads)).sum := by
  induction rs generalizing b first later with
  | nil =>
      rw [List.splitOnP_nil] at hsplit
      obtain ⟨rfl, rfl⟩ := List.cons_eq_cons.1 hsplit
      simp [total]
  | cons r rs ih =>
      rw [List.forall_mem_cons] at hreads
      obtain ⟨head, tail, hrest⟩ := List.exists_cons_of_ne_nil
        (List.splitOnP_ne_nil (fun r => !kept r) rs)
      have hlater := fun b => ih hreads.2 b hrest
      rw [total, carry]
      cases hkept : kept r with
      | true =>
          rw [List.splitOnP_cons_eq_if_modifyHead, hrest, hkept] at hsplit
          obtain ⟨rfl, rfl⟩ := List.cons_eq_cons.1 hsplit
          rw [if_pos rfl, hlater, List.flatMap_cons, gain_append, add_assoc]
      | false =>
          rw [List.splitOnP_cons_eq_if_modifyHead, hrest, hkept] at hsplit
          obtain ⟨rfl, rfl⟩ := List.cons_eq_cons.1 hsplit
          rw [if_neg Bool.false_ne_true, hlater, hreads.1 hkept, gain_none]
          simp

/-- The rounds add up to the growth over each period in which nothing was
forgotten. -/
theorem total_eq_growth {rs : List ρ} (hreads : ∀ r ∈ rs, kept r = false → reads r = []) :
    total kept reads none rs = ((rs.splitOnP fun r => !kept r).map fun period =>
      growth (period.flatMap reads)).sum := by
  obtain ⟨first, later, hsplit⟩ := List.exists_cons_of_ne_nil
    (List.splitOnP_ne_nil (fun r => !kept r) rs)
  rw [total_eq_gain kept reads hreads none hsplit, hsplit, List.map_cons, List.sum_cons,
    gain_none]

omit [AddCommGroup G] in
/-- The reader knows the last reading since it last forgot. -/
theorem foldl_carry (rs : List ρ) : rs.foldl (carry kept reads) none =
    ((rs.rtakeWhile kept).flatMap reads).getLast? := by
  induction rs using List.reverseRecOn with
  | nil => rfl
  | append_singleton rs r ih =>
      rw [List.foldl_append, List.foldl_cons, List.foldl_nil, ih, carry]
      by_cases hkept : kept r
      · rw [if_pos hkept, List.rtakeWhile_concat_pos _ _ _ hkept, List.flatMap_append,
          List.getLast?_append, List.flatMap_singleton]
      · rw [if_neg hkept, List.rtakeWhile_concat_neg _ _ _ hkept]
        rfl

end Rounds

/-- Readings that never fall never add up to a loss. -/
theorem growth_nonneg [PartialOrder G] [IsOrderedAddMonoid G] {xs : List G}
    (hrise : xs.Pairwise (· ≤ ·)) : 0 ≤ growth xs := by
  cases xs with
  | nil => exact le_rfl
  | cons x xs =>
      rw [List.pairwise_cons] at hrise
      rw [growth, sub_nonneg, List.getLastD_eq_getLast?]
      cases hlast : xs.getLast? with
      | none => exact le_rfl
      | some y => exact hrise.1 y (List.mem_of_getLast? hlast)

end Xltop.Telescoping
