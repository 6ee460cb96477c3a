import Mathlib.Data.List.Basic
import Mathlib.Data.List.GetD
import Mathlib.Data.List.Range
import Mathlib.Data.Nat.Notation

/-!
# Memory by address

A block of memory is a function from offsets to cells.  Reading gives the list
of the cells of an interval, writing a list replaces the cells of an interval;
the lemmas say what an interval holds after a write and how intervals split.
-/

namespace Xltop.Memory

variable {β : Type*}

/-- The cells from `start` on. -/
def slice (mem : ℕ → β) (start len : ℕ) : List β :=
  (List.range len).map fun i => mem (start + i)

/-- The memory after a list has been written from `start` on. -/
def blit (mem : ℕ → β) (start : ℕ) (cells : List β) : ℕ → β := fun i =>
  if start ≤ i then cells.getD (i - start) (mem i) else mem i

variable (mem : ℕ → β) (start : ℕ)

@[simp]
theorem length_slice (len : ℕ) : (slice mem start len).length = len := by
  simp [slice]

theorem slice_zero : slice mem start 0 = [] := rfl

theorem slice_add (len more : ℕ) :
    slice mem start (len + more) =
      slice mem start len ++ slice mem (start + len) more := by
  simp only [slice, List.range_add, List.map_append, List.map_map, Function.comp_def,
    Nat.add_assoc]

theorem take_slice {len n : ℕ} (hle : n ≤ len) :
    (slice mem start len).take n = slice mem start n := by
  obtain ⟨more, rfl⟩ := Nat.exists_eq_add_of_le hle
  rw [slice_add, List.take_left' (length_slice mem start n)]

theorem drop_slice (len n : ℕ) :
    (slice mem start len).drop n = slice mem (start + n) (len - n) := by
  rcases Nat.le_total n len with hle | hle
  · obtain ⟨more, rfl⟩ := Nat.exists_eq_add_of_le hle
    rw [slice_add, List.drop_left' (length_slice mem start n), Nat.add_sub_cancel_left]
  · rw [Nat.sub_eq_zero_of_le hle, slice_zero]
    exact List.drop_of_length_le (by rwa [length_slice])

variable {mem start}

/-- Two memories with the same cells in an interval. -/
theorem slice_congr {mem' : ℕ → β} {len : ℕ}
    (h : ∀ i, start ≤ i → i < start + len → mem i = mem' i) :
    slice mem start len = slice mem' start len := by
  refine List.map_congr_left fun i hi => ?_
  rw [List.mem_range] at hi
  exact h _ (Nat.le_add_right _ _) (Nat.add_lt_add_left hi start)

variable (mem start)

/-- A written interval holds what was written. -/
theorem slice_blit (cells : List β) :
    slice (blit mem start cells) start cells.length = cells := by
  refine List.ext_getElem (length_slice ..) fun i _ hi => ?_
  simp [slice, blit, hi]

variable {mem start}

/-- A write leaves the cells before it alone. -/
theorem slice_blit_before {other len : ℕ} (cells : List β)
    (hbefore : other + len ≤ start) :
    slice (blit mem start cells) other len = slice mem other len := by
  refine slice_congr fun i _ hi => ?_
  rw [blit, if_neg]
  omega

/-- Writing behind an interval extends it. -/
theorem slice_blit_append (mem : ℕ → β) (start len : ℕ) (cells : List β) :
    slice (blit mem (start + len) cells) start (len + cells.length) =
      slice mem start len ++ cells := by
  rw [slice_add, slice_blit_before cells le_rfl, slice_blit]

/-! ## Lists that lie in memory -/

/-- The cells from `start` on are those of a list. -/
def Holds (mem : ℕ → β) : ℕ → List β → Prop
  | _, [] => True
  | start, c :: cells => mem start = c ∧ Holds mem (start + 1) cells

theorem holds_append {start : ℕ} {xs ys : List β} :
    Holds mem start (xs ++ ys) ↔ Holds mem start xs ∧ Holds mem (start + xs.length) ys := by
  induction xs generalizing start with
  | nil => exact ⟨fun h => ⟨trivial, h⟩, fun h => h.2⟩
  | cons x xs ih =>
      rw [List.cons_append, Holds, Holds, ih, and_assoc, List.length_cons, Nat.add_assoc,
        Nat.add_comm 1]

theorem holds_of_getElem {start : ℕ} {cells : List β}
    (h : ∀ i (hi : i < cells.length), mem (start + i) = cells[i]) : Holds mem start cells := by
  induction cells generalizing start with
  | nil => trivial
  | cons c cells ih =>
      refine ⟨h 0 (Nat.zero_lt_succ _), ih fun i hi => ?_⟩
      have hnext : mem (start + (i + 1)) = cells[i] := h (i + 1) (Nat.succ_lt_succ hi)
      rwa [Nat.add_comm i, ← Nat.add_assoc] at hnext

theorem Holds.congr {mem' : ℕ → β} {start : ℕ} {cells : List β} (h : Holds mem start cells)
    (hsame : ∀ i, start ≤ i → i < start + cells.length → mem' i = mem i) :
    Holds mem' start cells := by
  induction cells generalizing start with
  | nil => trivial
  | cons c cells ih =>
      rw [List.length_cons] at hsame
      refine ⟨(hsame start le_rfl (by omega)).trans h.1, ih h.2 fun i hle hlt => ?_⟩
      exact hsame i (by omega) (by omega)

theorem Holds.slice_eq {start : ℕ} {cells : List β} (h : Holds mem start cells) :
    slice mem start cells.length = cells := by
  induction cells generalizing start with
  | nil => rfl
  | cons c cells ih =>
      have hhead : slice mem start 1 = [c] := by simp [slice, h.1]
      rw [List.length_cons, Nat.add_comm, slice_add, hhead, ih h.2]
      rfl

end Xltop.Memory
