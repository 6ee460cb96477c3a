import Xltop.Rate.Reads

/-!
# A flow and its copy that nobody reads

Two copies of a `k_node` get the same updates, and one of them is freshened in
between.  As long as no amount of a statistic is negative, its rate is not
either, and every later call finds both copies in the same state.
-/

namespace Xltop.Rate

open Xltop.Smoothing

variable {X R : Type*} [Field R] [LinearOrder R] [FloorRing R]

/-- A node, and its copy that is not read, as they stand at `now`. -/
structure Unread (c : KConf R) (kept : Fin nrStats → Prop) (now : R) (read unread : KNode X R) :
    Prop where
  kX0_eq : read.kX0 = unread.kX0
  kX1_eq : read.kX1 = unread.kX1
  alike : SeenAlike c kept now read unread
  touched : Touched read now
  rate_nonneg : ∀ i, kept i → 0 ≤ read.kRate i
  pending_nonneg : ∀ i, kept i → 0 ≤ read.kPending i

omit [Field R] [LinearOrder R] [FloorRing R] in
/-- Agreement on everything is equality. -/
theorem Agree.eq {left right : KNode X R} (h : Agree (fun _ => True) left right)
    (hx0 : left.kX0 = right.kX0) (hx1 : left.kX1 = right.kX1) : left = right := by
  cases left
  cases right
  obtain ⟨hkT, hpending, hsum, hrate⟩ := h
  simp only at hx0 hx1 hkT hpending hsum hrate
  rw [hx0, hx1, hkT, hpending, hsum, funext fun i => hrate i trivial]

variable [IsStrictOrderedRing R] {c : KConf R} {kept : Fin nrStats → Prop} {a : R}

/-- Amounts that are not negative have rates that are not negative. -/
theorem freshenRate_nonneg (hc : c.Decays a) (n : ℤ) {rate pending : R} (hrate : 0 ≤ rate)
    (hpending : 0 ≤ pending) : 0 ≤ freshenRate c n rate pending := by
  by_cases hn : 0 < n
  · obtain ⟨missed, rfl⟩ : ∃ missed : ℕ, n = missed + 1 := ⟨(n - 1).toNat, by omega⟩
    rw [freshenRate_succ hc]
    have hsample : 0 ≤ pending / c.kTick := div_nonneg hpending hc.tick_pos.le
    exact mul_nonneg (smooth_nonneg hc.decay_nonneg hc.decay_le_one hsample)
      (pow_nonneg hc.decay_nonneg missed)
  · rwa [freshenRate_of_nonpos c hn]

namespace Unread

variable {now later : R} {read unread : KNode X R}

omit [IsStrictOrderedRing R] in
theorem mono (h : Unread c kept now read unread) (hlater : now ≤ later) :
    Unread c kept later read unread where
  kX0_eq := h.kX0_eq
  kX1_eq := h.kX1_eq
  alike := fun time htime => h.alike time (hlater.trans htime)
  touched := h.touched.mono hlater
  rate_nonneg := h.rate_nonneg
  pending_nonneg := h.pending_nonneg

theorem freshen_rate_nonneg (h : Unread c kept now read unread) (hc : c.Decays a)
    (i : Fin nrStats) (hi : kept i) : 0 ≤ (kFreshen c read now).kRate i :=
  freshenRate_nonneg hc _ (h.rate_nonneg i hi) (h.pending_nonneg i hi)

omit [IsStrictOrderedRing R] in
theorem freshen_pending_nonneg (h : Unread c kept now read unread) (i : Fin nrStats)
    (hi : kept i) : 0 ≤ (kFreshen c read now).kPending i := by
  change 0 ≤ if 0 < kTicks c read now then 0 else read.kPending i
  split
  · exact le_rfl
  · exact h.pending_nonneg i hi

/-- A read. -/
theorem freshen_left (h : Unread c kept now read unread) (hc : c.Decays a) :
    Unread c kept now (kFreshen c read now) unread where
  kX0_eq := h.kX0_eq
  kX1_eq := h.kX1_eq
  alike := fun time htime =>
    (h.touched.kFreshen_kFreshen hc htime fun i hi =>
      .inr (h.freshen_rate_nonneg hc i hi)).trans (h.alike time htime)
  touched := h.touched.kFreshen hc.tick_pos
  rate_nonneg := h.freshen_rate_nonneg hc
  pending_nonneg := h.freshen_pending_nonneg

/-- A read of both copies. -/
theorem freshen (h : Unread c kept now read unread) (hc : c.Decays a) :
    Unread c kept now (kFreshen c read now) (kFreshen c unread now) where
  kX0_eq := h.kX0_eq
  kX1_eq := h.kX1_eq
  alike := fun time _ => (h.alike now le_rfl).kFreshen time
  touched := h.touched.kFreshen hc.tick_pos
  rate_nonneg := h.freshen_rate_nonneg hc
  pending_nonneg := h.freshen_pending_nonneg

/-- An update of both copies. -/
theorem update (h : Unread c kept now read unread) (hc : c.Decays a) {d : Stats R}
    (hd : ∀ i, kept i → 0 ≤ d i) :
    Unread c kept now (kUpdate c read d now) (kUpdate c unread d now) where
  kX0_eq := h.kX0_eq
  kX1_eq := h.kX1_eq
  alike := fun time _ => ((h.alike now le_rfl).kUpdate).kFreshen time
  touched := h.touched.kUpdate hc.tick_pos d
  rate_nonneg := h.freshen_rate_nonneg hc
  pending_nonneg := fun i hi => add_nonneg (h.freshen_pending_nonneg i hi) (hd i hi)

/-- The first update. -/
theorem first (x0 x1 : X) {d : Stats R} (hpos : 0 < now) (hd : ∀ i, kept i → 0 ≤ d i) :
    Unread c kept now (kUpdate c (kInit x0 x1) d now) (kUpdate c (kInit x0 x1) d now) := by
  have hticks : kTicks c (kInit x0 x1 : KNode X R) now = 0 := by
    simp [kTicks, kStart, kInit]
  refine ⟨rfl, rfl, fun _ _ => .refl _, touched_first x0 x1 d hpos, fun i _ => ?_, fun i hi => ?_⟩
  · change 0 ≤ freshenRate c (kTicks c (kInit x0 x1 : KNode X R) now) 0 0
    rw [hticks, freshenRate_of_nonpos c (lt_irrefl 0)]
  · change 0 ≤ (if 0 < kTicks c (kInit x0 x1 : KNode X R) now then 0 else 0) + d i
    rw [ite_self, zero_add]
    exact hd i hi

end Unread

end Xltop.Rate
