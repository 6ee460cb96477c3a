import Xltop.Rate.Average

/-!
# Reading a flow between updates

A top query or a GET of a server freshens every node it reports.  Here the
run with those reads is compared with the run of the updates alone.  Clock,
pending amounts and totals never differ.  Rates do not differ as long as a
read that crosses a tick boundary leaves them non-negative: `k_freshen`
restarts the average from a non-positive rate, so a negative rate decays when
its boundaries are passed in one step but is dropped to zero when a read
stops in between.
-/

namespace Xltop.Rate

open Xltop.Smoothing

variable {X R : Type*} [Field R] [LinearOrder R] [FloorRing R]

/-- Agreement on clock, pending amounts and totals, and on the rates of the
statistics in `kept`. -/
structure Agree (kept : Fin nrStats → Prop) (left right : KNode X R) : Prop where
  kT_eq : left.kT = right.kT
  kPending_eq : left.kPending = right.kPending
  kSum_eq : left.kSum = right.kSum
  kRate_eq : ∀ i, kept i → left.kRate i = right.kRate i

/-- A read of `k` at `now` that passes no boundary, or leaves rate `i`
non-negative. -/
def ReadKeeps (c : KConf R) (i : Fin nrStats) (k : KNode X R) (now : R) : Prop :=
  kTicks c k now ≤ 0 ∨ 0 ≤ (kFreshen c k now).kRate i

/-- Every read among `calls`, run from `k`, is of that kind. -/
def ReadsKeep (c : KConf R) (i : Fin nrStats) : KNode X R → List (KCall R) → Prop
  | _, [] => True
  | k, .update d now :: calls => ReadsKeep c i (kUpdate c k d now) calls
  | k, .freshen now :: calls =>
      ReadKeeps c i k now ∧ ReadsKeep c i (kFreshen c k now) calls

variable {c : KConf R} {kept : Fin nrStats → Prop}

namespace Agree

variable {left middle right : KNode X R}

omit [Field R] [LinearOrder R] [FloorRing R] in
theorem refl (k : KNode X R) : Agree kept k k :=
  ⟨rfl, rfl, rfl, fun _ _ => rfl⟩

omit [Field R] [LinearOrder R] [FloorRing R] in
theorem trans (h : Agree kept left middle) (h' : Agree kept middle right) :
    Agree kept left right :=
  ⟨h.kT_eq.trans h'.kT_eq, h.kPending_eq.trans h'.kPending_eq,
    h.kSum_eq.trans h'.kSum_eq,
    fun i hi => (h.kRate_eq i hi).trans (h'.kRate_eq i hi)⟩

theorem kTicks_eq (h : Agree kept left right) (now : R) :
    kTicks c left now = kTicks c right now := by
  simp [kTicks, kStart, h.kT_eq]

theorem kFreshen (h : Agree kept left right) (now : R) :
    Agree kept (kFreshen c left now) (kFreshen c right now) where
  kT_eq := by simp [Rate.kFreshen, h.kTicks_eq, kStart, h.kT_eq]
  kPending_eq := by simp [Rate.kFreshen, h.kTicks_eq, h.kPending_eq]
  kSum_eq := h.kSum_eq
  kRate_eq i hi := by
    simp [Rate.kFreshen, h.kTicks_eq, h.kPending_eq, h.kRate_eq i hi]

/-- Nodes that a read would find in agreement are in agreement after an
update at that time. -/
theorem kUpdate {d : Stats R} {now : R}
    (h : Agree kept (Rate.kFreshen c left now) (Rate.kFreshen c right now)) :
    Agree kept (kUpdate c left d now) (kUpdate c right d now) where
  kT_eq := h.kT_eq
  kPending_eq := congrArg (· + d) h.kPending_eq
  kSum_eq := congrArg (· + d) h.kSum_eq
  kRate_eq := h.kRate_eq

end Agree

variable [IsStrictOrderedRing R]

omit [FloorRing R] [IsStrictOrderedRing R] in
/-- Two stretches of ticks compose on a rate, unless the first leaves it
negative and the second has a boundary to restart it at. -/
theorem freshenRate_freshenRate {a : R} (hc : c.Decays a) {first second : ℤ}
    (hfirst : 0 ≤ first) (hsecond : 0 ≤ second) {rate pending : R}
    (hkeeps : first ≤ 0 ∨ 0 ≤ freshenRate c first rate pending) :
    freshenRate c second (freshenRate c first rate pending)
        (if 0 < first then 0 else pending) =
      freshenRate c (first + second) rate pending := by
  rcases hfirst.eq_or_lt with hzero | hpos
  · simp [← hzero, freshenRate_of_nonpos]
  rcases hsecond.eq_or_lt with hzero | hmore
  · rw [← hzero, freshenRate_of_nonpos c (lt_irrefl 0), add_zero]
  obtain ⟨passed, rfl⟩ : ∃ passed : ℕ, first = passed + 1 :=
    ⟨(first - 1).toNat, by omega⟩
  obtain ⟨missed, rfl⟩ : ∃ missed : ℕ, second = missed + 1 :=
    ⟨(second - 1).toNat, by omega⟩
  have hnonneg := hkeeps.resolve_left (by omega)
  have hsum : ((passed : ℤ) + 1) + (missed + 1) =
      ((passed + 1 + missed : ℕ) : ℤ) + 1 := by
    push_cast
    ring
  calc
    freshenRate c (missed + 1) (freshenRate c (passed + 1) rate pending)
        (if (0 : ℤ) < passed + 1 then 0 else pending) =
        a * freshenRate c (passed + 1) rate pending * a ^ missed := by
      rw [if_pos hpos, freshenRate_succ hc, zero_div,
        smooth_zero_of_nonneg hnonneg]
    _ = smooth a (pending / c.kTick) rate * a ^ (passed + 1 + missed) := by
      rw [freshenRate_succ hc]
      ring
    _ = freshenRate c ((passed + 1) + (missed + 1)) rate pending := by
      rw [hsum, freshenRate_succ hc]

/-- A touched node whose clock is not ahead of `now`. -/
structure Touched (k : KNode X R) (now : R) : Prop where
  kT_pos : 0 < k.kT
  kT_le : k.kT ≤ now

namespace Touched

variable {k : KNode X R} {now later : R}

omit [FloorRing R] [IsStrictOrderedRing R] in
theorem mono (h : Touched k now) (hlater : now ≤ later) : Touched k later :=
  ⟨h.kT_pos, h.kT_le.trans hlater⟩

theorem kTicks_nonneg (h : Touched k now) (htick : 0 < c.kTick) :
    0 ≤ kTicks c k now := by
  rw [kTicks, kStart_of_pos h.kT_pos]
  exact Int.floor_nonneg.2 (div_nonneg (sub_nonneg.2 h.kT_le) htick.le)

theorem kFreshen_kT (h : Touched k now) (htick : 0 < c.kTick) :
    (kFreshen c k now).kT = k.kT + kTicks c k now * c.kTick := by
  have hnonneg : (0 : R) ≤ kTicks c k now := by
    exact_mod_cast h.kTicks_nonneg htick
  change kStart k now + max (kTicks c k now : R) 0 * c.kTick = _
  rw [kStart_of_pos h.kT_pos, max_eq_left hnonneg]

theorem kFreshen (h : Touched k now) (htick : 0 < c.kTick) :
    Touched (kFreshen c k now) now := by
  have hnonneg : (0 : R) ≤ kTicks c k now := by
    exact_mod_cast h.kTicks_nonneg htick
  have hpassed : (kTicks c k now : R) * c.kTick ≤ now - k.kT := by
    rw [← le_div_iff₀ htick, kTicks, kStart_of_pos h.kT_pos]
    exact Int.floor_le _
  constructor
  · rw [h.kFreshen_kT htick]
    linarith [h.kT_pos, mul_nonneg hnonneg htick.le]
  · rw [h.kFreshen_kT htick]
    linarith

theorem kUpdate (h : Touched k now) (htick : 0 < c.kTick) (d : Stats R) :
    Touched (kUpdate c k d now) now :=
  ⟨(h.kFreshen htick).kT_pos, (h.kFreshen htick).kT_le⟩

/-- Ticks counted in two stretches are the ticks counted in one. -/
theorem kTicks_kFreshen (h : Touched k now) (htick : 0 < c.kTick) (later : R) :
    kTicks c (Rate.kFreshen c k now) later =
      kTicks c k later - kTicks c k now := by
  have hshift : (later - (k.kT + kTicks c k now * c.kTick)) / c.kTick =
      (later - k.kT) / c.kTick - (kTicks c k now : R) := by
    field_simp
    ring
  have hlater : kTicks c k later = ⌊(later - k.kT) / c.kTick⌋ := by
    rw [kTicks, kStart_of_pos h.kT_pos]
  rw [kTicks, kStart_of_pos (h.kFreshen htick).kT_pos, h.kFreshen_kT htick,
    hshift, Int.floor_sub_intCast, hlater]

/-- A read in between does not change what a later call finds. -/
theorem kFreshen_kFreshen {a : R} (h : Touched k now) (hc : c.Decays a)
    (hlater : now ≤ later) (hkeeps : ∀ i, kept i → ReadKeeps c i k now) :
    Agree kept (Rate.kFreshen c (Rate.kFreshen c k now) later)
      (Rate.kFreshen c k later) := by
  have htick := hc.tick_pos
  have hread := (h.kFreshen htick).mono hlater
  have hfirst := h.kTicks_nonneg htick
  have hsecond := hread.kTicks_nonneg htick
  have hticks : kTicks c k later =
      kTicks c k now + kTicks c (Rate.kFreshen c k now) later := by
    rw [h.kTicks_kFreshen htick later]
    ring
  refine ⟨?_, ?_, rfl, ?_⟩
  · rw [hread.kFreshen_kT htick, (h.mono hlater).kFreshen_kT htick,
      h.kFreshen_kT htick, hticks]
    push_cast
    ring
  · funext i
    change (if 0 < kTicks c (Rate.kFreshen c k now) later then 0
      else if 0 < kTicks c k now then 0 else k.kPending i) =
        if 0 < kTicks c k later then 0 else k.kPending i
    split_ifs <;> first | rfl | omega
  · intro i hi
    change freshenRate c (kTicks c (Rate.kFreshen c k now) later)
      (freshenRate c (kTicks c k now) (k.kRate i) (k.kPending i))
      (if 0 < kTicks c k now then 0 else k.kPending i) =
        freshenRate c (kTicks c k later) (k.kRate i) (k.kPending i)
    rw [hticks]
    exact freshenRate_freshenRate hc hfirst hsecond (hkeeps i hi)

end Touched

/-- Two nodes that every call from `now` on finds in agreement. -/
def SeenAlike (c : KConf R) (kept : Fin nrStats → Prop) (now : R)
    (read unread : KNode X R) : Prop :=
  ∀ later, now ≤ later →
    Agree kept (kFreshen c read later) (kFreshen c unread later)

omit [IsStrictOrderedRing R] in
theorem SeenAlike.run {now : R} {read unread : KNode X R}
    (h : SeenAlike c kept now read unread) (call : KCall R)
    (hlater : now ≤ call.now) :
    Agree kept (call.run c read) (call.run c unread) := by
  cases call with
  | update d time => exact (h time hlater).kUpdate
  | freshen time => exact h time hlater

/-- The run with reads and the run without stay alike for all later calls.
The induction is on the calls, from any two nodes that are alike already. -/
theorem seenAlike_runCalls {a : R} (hc : c.Decays a) {now : R}
    {read unread : KNode X R} (calls : List (KCall R))
    (halike : SeenAlike c kept now read unread) (htouched : Touched read now)
    (htimely : calls.Pairwise fun earlier later => earlier.now ≤ later.now)
    (hnow : ∀ call ∈ calls, now ≤ call.now)
    (hkeeps : ∀ i, kept i → ReadsKeep c i read calls) :
    ∀ last : R, now ≤ last → (∀ call ∈ calls, call.now ≤ last) →
      SeenAlike c kept last (runCalls c read calls)
        (runCalls c unread (calls.filter KCall.isUpdate)) := by
  induction calls generalizing now read unread with
  | nil => exact fun last hlast _ later hlater => halike later (hlast.trans hlater)
  | cons call calls ih =>
      intro last _ hlast
      rw [List.pairwise_cons] at htimely
      have hcall := hnow call (by simp)
      have hrest : ∀ other ∈ calls, call.now ≤ other.now := htimely.1
      have hend : call.now ≤ last := hlast call (by simp)
      have hlater : ∀ other ∈ calls, other.now ≤ last :=
        fun other hother => hlast other (by simp [hother])
      cases call with
      | update d time =>
          have hboth : SeenAlike c kept time (kUpdate c read d time)
              (kUpdate c unread d time) :=
            fun later _ => ((halike time hcall).kUpdate).kFreshen later
          exact ih hboth ((htouched.mono hcall).kUpdate hc.tick_pos d)
            htimely.2 hrest hkeeps last hend hlater
      | freshen time =>
          have hread : SeenAlike c kept time (kFreshen c read time) unread :=
            fun later htime =>
              ((htouched.mono hcall).kFreshen_kFreshen hc htime
                fun i hi => (hkeeps i hi).1).trans
                (halike later (hcall.trans htime))
          exact ih hread ((htouched.mono hcall).kFreshen hc.tick_pos)
            htimely.2 hrest (fun i hi => (hkeeps i hi).2) last
            hend hlater

theorem touched_first (x0 x1 : X) (d : Stats R) {now : R} (hpos : 0 < now) :
    Touched (kUpdate c (kInit x0 x1) d now) now := by
  have hstart : (kUpdate c (kInit x0 x1 : KNode X R) d now).kT = now := by
    simp [kUpdate, kFreshen, kTicks, kStart, kInit]
  exact ⟨by rwa [hstart], hstart.le⟩

/-- Over exact reals and any deltas, the reads between the first update and
the last call change nothing that the last call leaves behind in `k_t`,
`k_pending` and `k_sum`, nor in a rate that each read which crosses a tick
boundary leaves non-negative. -/
theorem reads_do_not_disturb {kTick kWindow : ℝ} (htick : 0 < kTick)
    (hwindow : 0 < kWindow) (x0 x1 : X) (d : Stats ℝ) (start : ℝ)
    (calls : List (KCall ℝ)) (last : KCall ℝ)
    (htimely : Timely (.update d start :: calls ++ [last])) :
    Agree
      (fun i => ReadsKeep (realConf kTick kWindow) i
        (kUpdate (realConf kTick kWindow) (kInit x0 x1) d start) calls)
      (runCalls (realConf kTick kWindow) (kInit x0 x1)
        (.update d start :: calls ++ [last]))
      (runCalls (realConf kTick kWindow) (kInit x0 x1)
        (.update d start :: calls.filter KCall.isUpdate ++ [last])) := by
  have hc := realConf_decays htick hwindow
  set c := realConf kTick kWindow
  set node : KNode X ℝ := kUpdate c (kInit x0 x1) d start
  obtain ⟨⟨hpairwise, hpos⟩, -, hlast⟩ := timely_append_singleton htimely
  rw [List.pairwise_cons] at hpairwise
  have hstart : start ≤ last.now := hlast (.update d start) (by simp)
  have htouched : Touched node start :=
    touched_first x0 x1 d (hpos (.update d start) (by simp))
  have hsame : SeenAlike c (fun i => ReadsKeep c i node calls) start node node :=
    fun _ _ => Agree.refl _
  have halike := seenAlike_runCalls hc calls hsame htouched hpairwise.2
    hpairwise.1 (fun i hi => hi) last.now hstart
    (fun call hcall => hlast call (by simp [hcall]))
  rw [List.cons_append, List.cons_append, runCalls_cons, runCalls_cons,
    runCalls_append, runCalls_append]
  exact halike.run last le_rfl

/-- One read of a node with traffic, two boundaries before the next call. -/
theorem reads_do_not_disturb_one_read :
    Agree
      (fun i => ReadsKeep (realConf 10 600) i
        (kUpdate (realConf 10 600) (kInit () ()) (fun _ => 20) 1) [.freshen 12])
      (runCalls (realConf 10 600) (kInit () ())
        (.update (fun _ => 20) 1 :: [.freshen 12] ++ [.freshen 35]))
      (runCalls (realConf 10 600) (kInit () ())
        (.update (fun _ => 20) 1 :: [KCall.freshen 12].filter KCall.isUpdate ++
          [.freshen 35])) := by
  have htimely : Timely
      (KCall.update (fun _ => (20 : ℝ)) 1 :: [.freshen 12] ++ [.freshen 35]) := by
    constructor
    · simp [KCall.now]
      norm_num
    · simp [KCall.now]
  exact reads_do_not_disturb (by norm_num) (by norm_num) () () (fun _ => 20) 1
    [.freshen 12] (.freshen 35) htimely

/-- A negative delta at second 1, then a call at second 25: a read at second
12 makes the rate found there zero instead of negative. -/
theorem negative_rate_read_disturbs :
    (runCalls (realConf 10 600) (kInit () ())
        [.update (fun _ => -10) 1, .freshen 12, .freshen 25]).kRate 0 ≠
      (runCalls (realConf 10 600) (kInit () ())
        [.update (fun _ => -10) 1, .freshen 25]).kRate 0 := by
  have hc := realConf_decays (show (0 : ℝ) < 10 by norm_num)
    (show (0 : ℝ) < 600 by norm_num)
  set c := realConf 10 600
  set node := kUpdate c (kInit () ()) (fun _ => -10) 1 with hnode
  have hkT : node.kT = 1 := by
    simp [hnode, kUpdate, kFreshen, kTicks, kStart, kInit]
  have hpending : node.kPending 0 = -10 := by
    simp [hnode, kUpdate, kFreshen, kTicks, kStart, kInit]
  have hrate : node.kRate 0 = 0 := by
    simp [hnode, kUpdate, kFreshen, kTicks, kStart, kInit, freshenRate]
  have hcTick : c.kTick = 10 := rfl
  have hpos : 0 < node.kT := by rw [hkT]; norm_num
  have hread : kTicks c node 12 = (0 : ℕ) + 1 := by
    rw [kTicks, kStart_of_pos hpos, hkT, hcTick, Int.floor_eq_iff]
    norm_num
  have hunread : kTicks c node 25 = (1 : ℕ) + 1 := by
    rw [kTicks, kStart_of_pos hpos, hkT, hcTick, Int.floor_eq_iff]
    norm_num
  have hafter : kTicks c (kFreshen c node 12) 25 = (0 : ℕ) + 1 := by
    have htouched : Touched node 12 := ⟨hpos, by rw [hkT]; norm_num⟩
    rw [htouched.kTicks_kFreshen hc.tick_pos, hread, hunread]
    norm_num
  change freshenRate c (kTicks c (kFreshen c node 12) 25)
      (freshenRate c (kTicks c node 12) (node.kRate 0) (node.kPending 0))
      (if 0 < kTicks c node 12 then 0 else node.kPending 0) ≠
    freshenRate c (kTicks c node 25) (node.kRate 0) (node.kPending 0)
  rw [hafter, hread, hunread, hrate, hpending, freshenRate_succ hc,
    freshenRate_succ hc, freshenRate_succ hc]
  have hexp := Real.exp_pos (-10 / 600)
  norm_num [smooth, hcTick]

end Xltop.Rate
