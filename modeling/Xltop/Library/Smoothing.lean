import Mathlib.Algebra.Order.Floor.Ring
import Mathlib.Algebra.Order.Field.Basic
import Mathlib.Tactic.Linarith
import Mathlib.Tactic.Ring
import Mathlib.Tactic.FieldSimp

/-!
# Sampled exponential smoothing

A quantity is sampled once per tick and folded into a running average that
starts afresh whenever it is not positive.  This file has the average as a
recursion over ticks, its behaviour over a stretch of empty ticks, and the
floor arithmetic that says which tick a point of time falls in.
-/

namespace Xltop.Smoothing

variable {R : Type*} [Field R] [LinearOrder R]

/-- One boundary: start afresh from a non-positive average, else mix. -/
def smooth (a sample average : R) : R :=
  if average ≤ 0 then sample else a * average + (1 - a) * sample

/-- The average after `count` boundaries. -/
def average (a : R) (sample : ℕ → R) : ℕ → R
  | 0 => 0
  | count + 1 => smooth a (sample count) (average a sample count)

theorem average_congr (a : R) {left right : ℕ → R} {count : ℕ}
    (heq : ∀ tick < count, left tick = right tick) :
    average a left count = average a right count := by
  induction count with
  | zero => rfl
  | succ count ih =>
      rw [average, average, heq count (Nat.lt_succ_self count),
        ih fun tick htick => heq tick (Nat.lt_succ_of_lt htick)]

/-- An empty tick only decays an average that is not negative. -/
theorem smooth_zero_of_nonneg {a value : R} (hvalue : 0 ≤ value) :
    smooth a 0 value = a * value := by
  unfold smooth
  split
  · next hle => simp [le_antisymm hle hvalue]
  · simp

section Ordered

variable [IsStrictOrderedRing R]

theorem smooth_nonneg {a sample value : R} (ha0 : 0 ≤ a) (ha1 : a ≤ 1)
    (hsample : 0 ≤ sample) : 0 ≤ smooth a sample value := by
  unfold smooth
  split
  · exact hsample
  · next hvalue =>
      have hmixed : 0 ≤ a * value := mul_nonneg ha0 (le_of_not_ge hvalue)
      have hfresh : 0 ≤ (1 - a) * sample := mul_nonneg (by linarith) hsample
      linarith

theorem average_nonneg {a : R} (ha0 : 0 ≤ a) (ha1 : a ≤ 1) {sample : ℕ → R}
    (hsample : ∀ tick, 0 ≤ sample tick) (count : ℕ) :
    0 ≤ average a sample count := by
  cases count with
  | zero => exact le_rfl
  | succ count => exact smooth_nonneg ha0 ha1 (hsample count)

/-- Over a stretch of empty ticks the average decays by one power. -/
theorem average_add_of_empty {a : R} (ha0 : 0 ≤ a) {sample : ℕ → R}
    {start : ℕ} (hstart : 0 ≤ average a sample start) {count : ℕ}
    (hempty : ∀ tick < count, sample (start + tick) = 0) :
    average a sample (start + count) = a ^ count * average a sample start := by
  induction count with
  | zero => simp
  | succ count ih =>
      have hprev := ih fun tick htick => hempty tick (Nat.lt_succ_of_lt htick)
      have hnonneg : 0 ≤ average a sample (start + count) := by
        rw [hprev]
        exact mul_nonneg (pow_nonneg ha0 count) hstart
      calc
        average a sample (start + (count + 1)) =
            smooth a (sample (start + count))
              (average a sample (start + count)) := rfl
        _ = a * average a sample (start + count) := by
            rw [hempty count (Nat.lt_succ_self count),
              smooth_zero_of_nonneg hnonneg]
        _ = a ^ (count + 1) * average a sample start := by
            rw [hprev, pow_succ]
            ring

end Ordered

/-! ## Which tick a point of time falls in -/

section Grid

variable [FloorRing R]

/-- The number of whole ticks from `origin` to `now`. -/
def tickNo (origin tick now : R) : ℕ := ⌊(now - origin) / tick⌋₊

variable [IsStrictOrderedRing R] {origin tick now : R}

theorem tickNo_self : tickNo origin tick origin = 0 := by
  simp [tickNo]

theorem tickNo_mono (origin : R) (htick : 0 < tick) {later : R}
    (hle : now ≤ later) :
    tickNo origin tick now ≤ tickNo origin tick later := by
  unfold tickNo
  gcongr

theorem origin_add_tickNo_le (htick : 0 < tick) (hle : origin ≤ now) :
    origin + tickNo origin tick now * tick ≤ now := by
  have hfloor := Nat.floor_le (div_nonneg (sub_nonneg.2 hle) htick.le)
  have hmul := (le_div_iff₀ htick).1 hfloor
  unfold tickNo
  linarith

theorem lt_origin_add_tickNo (htick : 0 < tick) :
    now < origin + (tickNo origin tick now + 1) * tick := by
  have hfloor := Nat.lt_floor_add_one ((now - origin) / tick)
  have hmul := (div_lt_iff₀ htick).1 hfloor
  unfold tickNo
  linarith

/-- `now` is in tick `index` exactly when `tickNo` says so. -/
theorem tickNo_eq_iff (htick : 0 < tick) (hle : origin ≤ now) {index : ℕ} :
    tickNo origin tick now = index ↔
      origin + index * tick ≤ now ∧ now < origin + (index + 1) * tick := by
  constructor
  · rintro rfl
    exact ⟨origin_add_tickNo_le htick hle, lt_origin_add_tickNo htick⟩
  · rintro ⟨hlow, hhigh⟩
    unfold tickNo
    rw [Nat.floor_eq_iff (div_nonneg (sub_nonneg.2 hle) htick.le),
      le_div_iff₀ htick, div_lt_iff₀ htick]
    exact ⟨by linarith, by linarith⟩

/-- Counting whole ticks from the boundary `index` instead of the origin. -/
theorem floor_from_boundary (htick : 0 < tick) (hle : origin ≤ now)
    (index : ℕ) :
    ⌊(now - (origin + index * tick)) / tick⌋ =
      (tickNo origin tick now : ℤ) - index := by
  have hshift : (now - (origin + index * tick)) / tick =
      (now - origin) / tick - (index : R) := by
    field_simp
    ring
  rw [hshift, Int.floor_sub_natCast, tickNo,
    Int.natCast_floor_eq_floor (div_nonneg (sub_nonneg.2 hle) htick.le)]

end Grid

end Xltop.Smoothing
