import Xltop.Rate.Calls

/-!
# The lazy rate is the eager rate

`k_freshen` collapses all ticks missed since the last call into one smoothing
step and one power of the decay.  The eager reference steps every boundary by
itself: the sample of a boundary is what arrived in the tick before it,
divided by the length of a tick.
-/

namespace Xltop.Rate

open Xltop.Smoothing

variable {X R : Type*} [Field R] [LinearOrder R]

/-- The rate of statistic `i` after stepping `boundaries` tick boundaries one
by one from `origin`. -/
def eagerRate (a tick origin : R) (calls : List (KCall R)) (i : Fin nrStats)
    (boundaries : ℕ) : R :=
  average a (fun index => received tick origin calls index i / tick) boundaries

variable {c : KConf R} {a : R}

theorem freshenRate_of_nonpos (c : KConf R) {n : ℤ} (hn : ¬ 0 < n)
    (rate pending : R) : freshenRate c n rate pending = rate := by
  have hone : ¬ 1 < n := by omega
  simp [freshenRate, hn, hone]

/-- One smoothing step at the first boundary, then one factor of the decay
for each further boundary. -/
theorem freshenRate_succ (hc : c.Decays a) (missed : ℕ) (rate pending : R) :
    freshenRate c (missed + 1) rate pending =
      smooth a (pending / c.kTick) rate * a ^ missed := by
  have hpos : (0 : ℤ) < missed + 1 := by omega
  have happlied :
      (if rate ≤ 0 then pending / c.kTick
        else rate + (rate - pending / c.kTick) *
          c.expm1 (-c.kTick / c.kWindow)) =
      smooth a (pending / c.kTick) rate := by
    unfold smooth
    split
    · rfl
    · rw [hc.expm1_tick]
      ring
  simp only [freshenRate, hpos, if_true, happlied]
  rcases Nat.eq_zero_or_pos missed with hzero | hmissed
  · simp [hzero]
  · have hone : (1 : ℤ) < missed + 1 := by omega
    rw [if_pos hone, ← hc.exp_ticks missed]
    congr 3
    push_cast
    ring

variable [FloorRing R] [IsStrictOrderedRing R]

omit [FloorRing R] in
/-- With deltas that are not negative no sample is. -/
theorem received_nonneg {calls : List (KCall R)}
    (hdelta : ∀ call ∈ calls, ∀ i, 0 ≤ call.delta i) (tick origin : R)
    (index : ℕ) (i : Fin nrStats) :
    0 ≤ received tick origin calls index i := by
  induction calls with
  | nil => simp [received]
  | cons call calls ih =>
      have hrest := ih fun other hother => hdelta other (by simp [hother])
      have hhead : 0 ≤ (if origin + index * tick ≤ call.now ∧
          call.now < origin + (index + 1) * tick
          then call.delta else 0) i := by
        split
        · exact hdelta call (by simp) i
        · exact le_rfl
      rw [← List.singleton_append, received_append, Pi.add_apply]
      exact add_nonneg (by simpa [received] using hhead) hrest

/-- A later call does not change the samples of the ticks before it. -/
theorem eagerRate_append {tick origin : R} (htick : 0 < tick)
    (calls : List (KCall R)) (call : KCall R) (hle : origin ≤ call.now)
    (i : Fin nrStats) {boundaries : ℕ}
    (hbefore : boundaries ≤ tickNo origin tick call.now) :
    eagerRate a tick origin (calls ++ [call]) i boundaries =
      eagerRate a tick origin calls i boundaries := by
  apply average_congr
  intro index hindex
  rw [received_append, received_singleton htick call hle, if_neg (by omega),
    add_zero]

namespace Synced

variable {origin now : R} {calls : List (KCall R)} {k : KNode X R}

/-- Freshening moves the rate along the eager reference. -/
theorem kFreshen_kRate (h : Synced c origin calls now k) (hc : c.Decays a)
    (hdelta : ∀ call ∈ calls, ∀ i, 0 ≤ call.delta i) (i : Fin nrStats)
    (hrate : k.kRate i =
      eagerRate a c.kTick origin calls i (tickNo origin c.kTick now))
    {later : R} (hlater : now ≤ later) :
    (kFreshen c k later).kRate i =
      eagerRate a c.kTick origin calls i (tickNo origin c.kTick later) := by
  have htick := hc.tick_pos
  have hmono := tickNo_mono origin htick hlater
  have hticks := h.kTicks_eq htick hlater
  change freshenRate c (kTicks c k later) (k.kRate i) (k.kPending i) = _
  obtain ⟨passed, hpassed⟩ := Nat.exists_eq_add_of_le hmono
  cases passed with
  | zero =>
      rw [freshenRate_of_nonpos c (by omega), hrate, hpassed, add_zero]
  | succ missed =>
      have hcount : kTicks c k later = missed + 1 := by omega
      have hsample : ∀ index, 0 ≤ received c.kTick origin calls index i / c.kTick :=
        fun index => div_nonneg (received_nonneg hdelta _ _ _ i) htick.le
      have hnext : smooth a (k.kPending i / c.kTick) (k.kRate i) =
          average a (fun index => received c.kTick origin calls index i / c.kTick)
            (tickNo origin c.kTick now + 1) := by
        rw [average, h.kPending_eq, hrate]
        rfl
      -- No call so far is in a tick after the current one.
      have hempty : ∀ tick < missed,
          received c.kTick origin calls
            (tickNo origin c.kTick now + 1 + tick) i / c.kTick = 0 := by
        intro tick _
        rw [received_eq_zero htick h.origin_le fun call hcall =>
          (tickNo_mono _ htick (h.le_now call hcall)).trans_lt (by omega)]
        simp
      rw [hcount, freshenRate_succ hc, hnext, hpassed, eagerRate,
        ← Nat.add_assoc, Nat.add_right_comm, average_add_of_empty
          hc.decay_nonneg
          (average_nonneg hc.decay_nonneg hc.decay_le_one hsample _) hempty,
        mul_comm]

end Synced

theorem runCalls_kRate (hc : c.Decays a) (x0 x1 : X) (first : KCall R)
    (calls : List (KCall R)) (htimely : Timely (first :: calls))
    (hdelta : ∀ call ∈ first :: calls, ∀ i, 0 ≤ call.delta i)
    (i : Fin nrStats) :
    (runCalls c (kInit x0 x1) (first :: calls)).kRate i =
      eagerRate a c.kTick first.now (first :: calls) i
        (tickNo first.now c.kTick
          ((first :: calls).getLast (List.cons_ne_nil _ _)).now) := by
  have htick := hc.tick_pos
  induction calls using List.reverseRecOn with
  | nil =>
      have hstart : kStart (kInit x0 x1 : KNode X R) first.now = first.now := by
        simp [kStart, kInit]
      have hrate : (first.run c (kInit x0 x1 : KNode X R)).kRate i = 0 := by
        cases first <;>
          simp_all [KCall.run, KCall.now, kUpdate, kFreshen, kTicks,
            freshenRate, kInit]
      simp [hrate, eagerRate, tickNo_self, average]
  | append_singleton calls call ih =>
      rw [← List.cons_append] at htimely hdelta
      obtain ⟨hinit, -, hlast⟩ := timely_append_singleton htimely
      have hold : ∀ other ∈ first :: calls, ∀ i, 0 ≤ other.delta i :=
        fun other hother => hdelta other (List.mem_append_left _ hother)
      have hsynced := synced_runCalls c htick x0 x1 first calls hinit
      have hlater := hlast _ (List.getLast_mem (List.cons_ne_nil first calls))
      have hfresh := hsynced.kFreshen_kRate hc hold i (ih hinit hold) hlater
      have hrun : (runCalls c (kInit x0 x1) ((first :: calls) ++ [call])).kRate i =
          (kFreshen c (runCalls c (kInit x0 x1) (first :: calls)) call.now).kRate i := by
        rw [runCalls_append]
        cases call <;> rfl
      have heager := eagerRate_append (a := a) htick (first :: calls) call
        (hsynced.origin_le_now.trans hlater) i le_rfl
      simp only [← List.cons_append, hrun, hfresh,
        List.getLast_append_singleton, heager]

/-- Over exact reals and deltas that are not negative, `k_rate` is after every
call the rate of the reference that steps each tick boundary since the first
call by itself. -/
theorem lazy_rate_eq_eager_rate {kTick kWindow : ℝ} (htick : 0 < kTick)
    (hwindow : 0 < kWindow) (x0 x1 : X) (first : KCall ℝ)
    (calls : List (KCall ℝ)) (htimely : Timely (first :: calls))
    (hdelta : ∀ call ∈ first :: calls, ∀ i, 0 ≤ call.delta i)
    (i : Fin nrStats) :
    (runCalls (realConf kTick kWindow) (kInit x0 x1) (first :: calls)).kRate i =
      eagerRate (Real.exp (-kTick / kWindow)) kTick first.now (first :: calls) i
        (tickNo first.now kTick
          ((first :: calls).getLast (List.cons_ne_nil _ _)).now) :=
  runCalls_kRate (realConf_decays htick hwindow) x0 x1 first calls htimely
    hdelta i

/-- A node updated at second 1 and read three boundaries later. -/
theorem lazy_rate_eq_eager_rate_third_boundary :
    (runCalls (realConf 10 600) (kInit () ())
        [.update (fun _ => 20) 1, .freshen 35]).kRate 0 =
      eagerRate (Real.exp (-10 / 600)) 10 1
        [.update (fun _ => 20) 1, .freshen 35] 0 (tickNo (1 : ℝ) 10 35) := by
  have htimely : Timely [KCall.update (fun _ => (20 : ℝ)) 1, .freshen 35] := by
    constructor
    · simp [KCall.now]
    · simp [KCall.now]
  exact lazy_rate_eq_eager_rate (by norm_num) (by norm_num) () ()
    (.update (fun _ => 20) 1) [.freshen 35] htimely (by simp [KCall.delta]) 0

end Xltop.Rate
