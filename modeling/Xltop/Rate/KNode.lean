import Mathlib.Algebra.Order.Floor.Ring
import Mathlib.Analysis.SpecialFunctions.Exp

/-!
# The statistics of one flow

A `k_node` carries what one consumer moved to or from one provider: totals,
what arrived in the current tick, and an exponentially weighted rate.  The
clock of the node only advances when somebody touches it, so `k_freshen`
catches up on all ticks missed since the last touch.

Numbers are exact.  The two functions of libm that the code calls are fields
of `KConf`, next to the two globals `k_tick` and `k_window`.
-/

namespace Xltop.Rate

/-- `NR_STATS`: bytes written, bytes read and requests. -/
abbrev nrStats : ℕ := 3

instance (priority := high) instNeZeroStats : NeZero nrStats :=
  ⟨Nat.succ_ne_zero 2⟩

/-- `double d[NR_STATS]`. -/
abbrev Stats (R : Type*) := Fin nrStats → R

/-- The globals `k_tick` and `k_window`, and the libm functions applied to
them. -/
structure KConf (R : Type*) where
  kTick : R
  kWindow : R
  exp : R → R
  expm1 : R → R

/-- A `struct k_node` between the nodes `kX0` and `kX1` of `k_x`. -/
structure KNode (X R : Type*) where
  kX0 : X
  kX1 : X
  kT : R
  kPending : Stats R
  kRate : Stats R
  kSum : Stats R
  deriving DecidableEq

/-- The same statistics under other names of the two nodes. -/
def KNode.map {X Y R : Type*} (f : X → Y) (k : KNode X R) : KNode Y R :=
  { k with kX0 := f k.kX0, kX1 := f k.kX1 }

instance {X R : Type*} [Inhabited X] [Inhabited R] : Inhabited (KNode X R) :=
  ⟨⟨default, default, default, default, default, default⟩⟩

variable {X R : Type*} [Field R] [LinearOrder R] [FloorRing R]

/-- The `k_init()` part of `k_lookup`: `memset` to zero, then the two
endpoints. -/
def kInit (x0 x1 : X) : KNode X R where
  kX0 := x0
  kX1 := x1
  kT := 0
  kPending := 0
  kRate := 0
  kSum := 0

/-- `k->k_t` after the first statement of `k_freshen`: a node that was never
touched starts its clock at `now`. -/
def kStart (k : KNode X R) (now : R) : R :=
  if k.kT ≤ 0 then now else k.kT

/-- `n` in `k_freshen`, the number of ticks that have passed. -/
def kTicks (c : KConf R) (k : KNode X R) (now : R) : ℤ :=
  ⌊(now - kStart k now) / c.kTick⌋

/-- The body of the loop of `k_freshen` on one `k_rate[i]`: the pending
amount enters the average at the first of `n` ticks, the others only decay. -/
def freshenRate (c : KConf R) (n : ℤ) (rate pending : R) : R :=
  let r := pending / c.kTick
  let applied :=
    if 0 < n then
      if rate ≤ 0 then r
      else rate + (rate - r) * c.expm1 (-c.kTick / c.kWindow)
    else rate
  if 1 < n then applied * c.exp ((n - 1) * (-c.kTick / c.kWindow)) else applied

def kFreshen (c : KConf R) (k : KNode X R) (now : R) : KNode X R :=
  let n := kTicks c k now
  { k with
    kT := kStart k now + max (n : R) 0 * c.kTick
    kPending := fun i => if 0 < n then 0 else k.kPending i
    kRate := fun i => freshenRate c n (k.kRate i) (k.kPending i) }

def kUpdate (c : KConf R) (k : KNode X R) (d : Stats R) (now : R) : KNode X R :=
  let fresh := kFreshen c k now
  { fresh with
    kSum := fresh.kSum + d
    kPending := fresh.kPending + d }

@[simp]
theorem kFreshen_kX0 (c : KConf R) (k : KNode X R) (now : R) :
    (kFreshen c k now).kX0 = k.kX0 := rfl

@[simp]
theorem kFreshen_kX1 (c : KConf R) (k : KNode X R) (now : R) :
    (kFreshen c k now).kX1 = k.kX1 := rfl

@[simp]
theorem kFreshen_kSum (c : KConf R) (k : KNode X R) (now : R) :
    (kFreshen c k now).kSum = k.kSum := rfl

@[simp]
theorem kUpdate_kX0 (c : KConf R) (k : KNode X R) (d : Stats R) (now : R) :
    (kUpdate c k d now).kX0 = k.kX0 := rfl

@[simp]
theorem kUpdate_kX1 (c : KConf R) (k : KNode X R) (d : Stats R) (now : R) :
    (kUpdate c k d now).kX1 = k.kX1 := rfl

@[simp]
theorem kUpdate_kSum (c : KConf R) (k : KNode X R) (d : Stats R) (now : R) :
    (kUpdate c k d now).kSum = k.kSum + d := rfl

section Again

variable [IsStrictOrderedRing R] {c : KConf R}

/-- No tick has passed since a node was made fresh. -/
theorem kTicks_kFreshen_self (htick : 0 < c.kTick) (k : KNode X R) (now : R) :
    kTicks c (kFreshen c k now) now ≤ 0 := by
  have hkT : (kFreshen c k now).kT = kStart k now + max (kTicks c k now : R) 0 * c.kTick := rfl
  by_cases hstart : (kFreshen c k now).kT ≤ 0
  · rw [kTicks, kStart, if_pos hstart, sub_self, zero_div, Int.floor_zero]
  · have hpassed : (now - kStart k now) / c.kTick < max (kTicks c k now : R) 0 + 1 :=
      (Int.lt_floor_add_one _).trans_le (by gcongr; exact le_max_left _ _)
    rw [div_lt_iff₀ htick] at hpassed
    rw [kTicks, kStart, if_neg hstart, hkT, ← Int.lt_add_one_iff, Int.floor_lt,
      div_lt_iff₀ htick]
    push_cast
    linarith

/-- The clock of a fresh node runs. -/
theorem kStart_kFreshen_self (htick : 0 < c.kTick) (k : KNode X R) (now : R) :
    kStart (kFreshen c k now) now = (kFreshen c k now).kT := by
  by_cases hkT : (kFreshen c k now).kT ≤ 0
  · rw [kStart, if_pos hkT]
    have hadd : 0 ≤ max (kTicks c k now : R) 0 * c.kTick :=
      mul_nonneg (le_max_right _ _) htick.le
    have hle : kStart k now ≤ 0 := (le_add_of_nonneg_right hadd).trans hkT
    by_cases hold : k.kT ≤ 0
    · change now = kStart k now + max (kTicks c k now : R) 0 * c.kTick
      rw [kTicks, kStart, if_pos hold]
      simp
    · rw [kStart, if_neg hold] at hle
      exact absurd hle hold
  · rw [kStart, if_neg hkT]

/-- Nothing happens to a node whose clock runs, while no tick has passed. -/
theorem kFreshen_of_fresh {k : KNode X R} {now : R} (hstart : kStart k now = k.kT)
    (hnone : kTicks c k now ≤ 0) : kFreshen c k now = k := by
  have hnone' : (kTicks c k now : R) ≤ 0 := by exact_mod_cast hnone
  have hrate : ∀ rate pending : R,
      freshenRate c (kTicks c k now) rate pending = rate := fun rate pending => by
    rw [freshenRate, if_neg (by omega), if_neg (by omega)]
  rw [kFreshen, hstart, max_eq_right hnone', zero_mul, add_zero]
  simp only [hrate, if_neg hnone.not_gt]

/-- Freshening twice at one time is freshening once. -/
theorem kFreshen_self (htick : 0 < c.kTick) (k : KNode X R) (now : R) :
    kFreshen c (kFreshen c k now) now = kFreshen c k now :=
  kFreshen_of_fresh (kStart_kFreshen_self htick k now) (kTicks_kFreshen_self htick k now)

/-- An update leaves the node fresh. -/
theorem kFreshen_kUpdate_self (htick : 0 < c.kTick) (k : KNode X R) (d : Stats R) (now : R) :
    kFreshen c (kUpdate c k d now) now = kUpdate c k d now :=
  kFreshen_of_fresh (kStart_kFreshen_self htick k now) (kTicks_kFreshen_self htick k now)

/-- Two updates at one time may be swapped. -/
theorem kUpdate_comm (htick : 0 < c.kTick) (k : KNode X R) (d d' : Stats R) (now : R) :
    kUpdate c (kUpdate c k d now) d' now = kUpdate c (kUpdate c k d' now) d now := by
  have hswap : ∀ k : KNode X R, ∀ d d' : Stats R, kUpdate c (kUpdate c k d now) d' now =
      { kFreshen c k now with
        kSum := (kFreshen c k now).kSum + (d + d')
        kPending := (kFreshen c k now).kPending + (d + d') } := fun k d d' => by
    rw [kUpdate, kFreshen_kUpdate_self htick, kUpdate, add_assoc, add_assoc]
  rw [hswap, hswap, add_comm d]

end Again

/-- What the code relies on in libm: with `a` the decay of one tick,
`expm1` gives `a - 1` and `exp` of `j` ticks gives `a ^ j`. -/
structure KConf.Decays (c : KConf R) (a : R) : Prop where
  tick_pos : 0 < c.kTick
  decay_nonneg : 0 ≤ a
  decay_le_one : a ≤ 1
  expm1_tick : c.expm1 (-c.kTick / c.kWindow) = a - 1
  exp_ticks : ∀ j : ℕ, c.exp ((j : R) * (-c.kTick / c.kWindow)) = a ^ j

/-- The clock of the master over exact reals. -/
noncomputable def realConf (kTick kWindow : ℝ) : KConf ℝ where
  kTick := kTick
  kWindow := kWindow
  exp := Real.exp
  expm1 := fun x => Real.exp x - 1

theorem realConf_decays {kTick kWindow : ℝ} (htick : 0 < kTick)
    (hwindow : 0 < kWindow) :
    (realConf kTick kWindow).Decays (Real.exp (-kTick / kWindow)) where
  tick_pos := htick
  decay_nonneg := (Real.exp_pos _).le
  decay_le_one := by
    rw [Real.exp_le_one_iff, neg_div, neg_nonpos]
    positivity
  expm1_tick := rfl
  exp_ticks j := Real.exp_nat_mul _ j

end Xltop.Rate
