import Xltop.Library.Smoothing
import Xltop.Rate.KNode
import Mathlib.Algebra.BigOperators.Group.List.Basic
import Mathlib.Data.List.Pairwise

/-!
# A run of calls on one flow

The life of one `k_node` is a list of `k_update` and `k_freshen` calls at
times that never go back.  After each call the clock of the node stands on the
last tick boundary, counted from the first call, and what is pending is what
arrived since that boundary.
-/

namespace Xltop.Rate

open Xltop.Smoothing

variable {X R : Type*} [Field R] [LinearOrder R] [FloorRing R]

/-- One call on a `k_node`, at the time `ev_now()` or `now`. -/
inductive KCall (R : Type*) where
  | update (d : Stats R) (now : R)
  | freshen (now : R)

namespace KCall

def now : KCall R → R
  | update _ now => now
  | freshen now => now

def delta : KCall R → Stats R
  | update d _ => d
  | freshen _ => 0

def isUpdate : KCall R → Bool
  | update _ _ => true
  | freshen _ => false

def run (c : KConf R) (k : KNode X R) : KCall R → KNode X R
  | update d now => kUpdate c k d now
  | freshen now => kFreshen c k now

end KCall

def runCalls (c : KConf R) (k : KNode X R) (calls : List (KCall R)) :
    KNode X R :=
  calls.foldl (KCall.run c) k

@[simp]
theorem runCalls_append (c : KConf R) (k : KNode X R)
    (calls more : List (KCall R)) :
    runCalls c k (calls ++ more) = runCalls c (runCalls c k calls) more :=
  List.foldl_append

@[simp]
theorem runCalls_cons (c : KConf R) (k : KNode X R) (call : KCall R)
    (more : List (KCall R)) :
    runCalls c k (call :: more) = runCalls c (call.run c k) more := rfl

@[simp]
theorem runCalls_nil (c : KConf R) (k : KNode X R) :
    runCalls c k [] = k := rfl

/-- Positive times that never go back. -/
def Timely (calls : List (KCall R)) : Prop :=
  calls.Pairwise (fun earlier later => earlier.now ≤ later.now) ∧
    ∀ call ∈ calls, 0 < call.now

/-- The sum of the deltas received in tick `index`, counted from `origin`. -/
def received (tick origin : R) (calls : List (KCall R)) (index : ℕ) : Stats R :=
  (calls.map fun call =>
    if origin + index * tick ≤ call.now ∧
        call.now < origin + (index + 1) * tick
    then call.delta else 0).sum

/-- What holds of a node after `calls`, the last of them at `now`. -/
structure Synced (c : KConf R) (origin : R) (calls : List (KCall R))
    (now : R) (k : KNode X R) : Prop where
  origin_pos : 0 < origin
  origin_le : ∀ call ∈ calls, origin ≤ call.now
  le_now : ∀ call ∈ calls, call.now ≤ now
  origin_le_now : origin ≤ now
  kT_eq : k.kT = origin + tickNo origin c.kTick now * c.kTick
  kPending_eq : k.kPending =
    received c.kTick origin calls (tickNo origin c.kTick now)
  kSum_eq : k.kSum = (calls.map KCall.delta).sum

variable [IsStrictOrderedRing R]

omit [FloorRing R] [IsStrictOrderedRing R] in
theorem received_append (tick origin : R) (calls more : List (KCall R))
    (index : ℕ) :
    received tick origin (calls ++ more) index =
      received tick origin calls index + received tick origin more index := by
  simp [received]

/-- A call adds its delta to the tick it falls in and to no other. -/
theorem received_singleton {tick origin : R} (htick : 0 < tick)
    (call : KCall R) (hle : origin ≤ call.now) (index : ℕ) :
    received tick origin [call] index =
      if tickNo origin tick call.now = index then call.delta else 0 := by
  simp only [received, List.map_cons, List.map_nil, List.sum_cons,
    List.sum_nil, add_zero, tickNo_eq_iff htick hle]

/-- No call before tick `index` has anything in it. -/
theorem received_eq_zero {tick origin : R} (htick : 0 < tick)
    {calls : List (KCall R)} {index : ℕ}
    (hle : ∀ call ∈ calls, origin ≤ call.now)
    (hbefore : ∀ call ∈ calls, tickNo origin tick call.now < index) :
    received tick origin calls index = 0 := by
  apply List.sum_eq_zero
  intro amount hamount
  obtain ⟨call, hcall, rfl⟩ := List.mem_map.1 hamount
  rw [if_neg]
  rw [← tickNo_eq_iff htick (hle call hcall)]
  exact (hbefore call hcall).ne

omit [FloorRing R] [IsStrictOrderedRing R] in
theorem kStart_of_pos {k : KNode X R} (hpos : 0 < k.kT) (now : R) :
    kStart k now = k.kT := by
  rw [kStart, if_neg (not_le.2 hpos)]

namespace Synced

variable {c : KConf R} {origin now : R} {calls : List (KCall R)}
  {k : KNode X R}

theorem kT_pos (h : Synced c origin calls now k) (htick : 0 < c.kTick) :
    0 < k.kT := by
  rw [h.kT_eq]
  have hgrid : 0 ≤ (tickNo origin c.kTick now : R) * c.kTick := by positivity
  linarith [h.origin_pos]

/-- The ticks `k_freshen` counts are those between two positions of the
grid. -/
theorem kTicks_eq (h : Synced c origin calls now k) (htick : 0 < c.kTick)
    {later : R} (hlater : now ≤ later) :
    kTicks c k later =
      (tickNo origin c.kTick later : ℤ) - tickNo origin c.kTick now := by
  rw [kTicks, kStart_of_pos (h.kT_pos htick), h.kT_eq]
  exact floor_from_boundary htick (h.origin_le_now.trans hlater) _

theorem kFreshen_kT (h : Synced c origin calls now k) (htick : 0 < c.kTick)
    {later : R} (hlater : now ≤ later) :
    (kFreshen c k later).kT =
      origin + tickNo origin c.kTick later * c.kTick := by
  have hmono := tickNo_mono origin htick hlater
  have hcast : (kTicks c k later : R) =
      tickNo origin c.kTick later - tickNo origin c.kTick now := by
    rw [h.kTicks_eq htick hlater]
    push_cast
    ring
  have hnonneg : (0 : R) ≤ kTicks c k later := by
    rw [hcast, sub_nonneg]
    exact_mod_cast hmono
  change kStart k later + max (kTicks c k later : R) 0 * c.kTick = _
  rw [kStart_of_pos (h.kT_pos htick), max_eq_left hnonneg, hcast, h.kT_eq]
  ring

theorem kFreshen_kPending (h : Synced c origin calls now k)
    (htick : 0 < c.kTick) {later : R} (hlater : now ≤ later) :
    (kFreshen c k later).kPending =
      received c.kTick origin calls (tickNo origin c.kTick later) := by
  have hmono := tickNo_mono origin htick hlater
  have hticks := h.kTicks_eq htick hlater
  change (fun i => if 0 < kTicks c k later then 0 else k.kPending i) = _
  rcases hmono.eq_or_lt with hsame | hnext
  · have hzero : ¬ 0 < kTicks c k later := by omega
    simp only [hzero, if_false, ← hsame, h.kPending_eq]
  · have hpos : 0 < kTicks c k later := by omega
    rw [received_eq_zero htick h.origin_le fun call hcall =>
      (tickNo_mono _ htick (h.le_now call hcall)).trans_lt hnext]
    simp only [hpos, if_true]
    rfl

/-- One more call keeps the node in step with the calls. -/
theorem run (h : Synced c origin calls now k) (htick : 0 < c.kTick)
    (call : KCall R) (hlater : now ≤ call.now) :
    Synced c origin (calls ++ [call]) call.now (call.run c k) := by
  have horigin := h.origin_le_now.trans hlater
  have hpending : received c.kTick origin (calls ++ [call])
      (tickNo origin c.kTick call.now) =
      (kFreshen c k call.now).kPending + call.delta := by
    rw [received_append, received_singleton htick call horigin, if_pos rfl,
      h.kFreshen_kPending htick hlater]
  refine ⟨h.origin_pos, ?_, ?_, horigin, ?_, ?_, ?_⟩
  · intro other hother
    rcases List.mem_append.1 hother with hold | hnew
    · exact h.origin_le other hold
    · rwa [List.mem_singleton.1 hnew]
  · intro other hother
    rcases List.mem_append.1 hother with hold | hnew
    · exact (h.le_now other hold).trans hlater
    · rw [List.mem_singleton.1 hnew]
  · cases call <;> exact h.kFreshen_kT htick hlater
  · rw [hpending]
    cases call with
    | update d now => rfl
    | freshen now => exact (add_zero _).symm
  · rw [List.map_append, List.sum_append, ← h.kSum_eq]
    cases call with
    | update d now => simp [KCall.run, KCall.delta]
    | freshen now => simp [KCall.run, KCall.delta]

end Synced

/-- The first call on a new node starts the grid. -/
theorem synced_first (c : KConf R) (htick : 0 < c.kTick) (x0 x1 : X)
    (call : KCall R) (hpos : 0 < call.now) :
    Synced c call.now [call] call.now (call.run c (kInit x0 x1)) := by
  have hstart : kStart (kInit x0 x1 : KNode X R) call.now = call.now := by
    simp [kStart, kInit]
  have hticks : kTicks c (kInit x0 x1 : KNode X R) call.now = 0 := by
    simp [kTicks, hstart]
  have hpending : received c.kTick call.now [call] 0 = call.delta := by
    rw [received_singleton htick call le_rfl, if_pos tickNo_self]
  refine ⟨hpos, by simp, by simp, le_rfl, ?_, ?_, ?_⟩
  · cases call <;>
      simp_all [KCall.run, kUpdate, kFreshen, tickNo_self, KCall.now]
  · rw [tickNo_self, hpending]
    cases call <;> funext i <;>
      simp_all [KCall.run, kUpdate, kFreshen, KCall.now, KCall.delta, kInit]
  · cases call <;> simp [KCall.run, KCall.delta, kInit]

omit [FloorRing R] [IsStrictOrderedRing R] in
theorem timely_append_singleton {calls : List (KCall R)} {call : KCall R}
    (h : Timely (calls ++ [call])) :
    Timely calls ∧ 0 < call.now ∧ ∀ earlier ∈ calls, earlier.now ≤ call.now := by
  obtain ⟨hpairwise, hpos⟩ := h
  rw [List.pairwise_append] at hpairwise
  exact ⟨⟨hpairwise.1, fun earlier hearlier => hpos earlier (by simp [hearlier])⟩,
    hpos call (by simp),
    fun earlier hearlier => hpairwise.2.2 earlier hearlier call (by simp)⟩

/-- Every run of calls on a new node keeps it in step with the calls. -/
theorem synced_runCalls (c : KConf R) (htick : 0 < c.kTick) (x0 x1 : X)
    (first : KCall R) (calls : List (KCall R))
    (htimely : Timely (first :: calls)) :
    Synced c first.now (first :: calls)
      ((first :: calls).getLast (List.cons_ne_nil _ _)).now
      (runCalls c (kInit x0 x1) (first :: calls)) := by
  induction calls using List.reverseRecOn with
  | nil =>
      exact synced_first c htick x0 x1 first (htimely.2 first (by simp))
  | append_singleton calls call ih =>
      rw [← List.cons_append] at htimely
      obtain ⟨hinit, -, hlast⟩ := timely_append_singleton htimely
      have hstep := (ih hinit).run htick call
        (hlast _ (List.getLast_mem _))
      simpa [runCalls] using hstep

/-! ## Ticks -/

/-- How a node stands after `calls`, the first of them at `origin` and the last
at `now`. -/
structure Aligned (c : KConf R) (origin : R) (calls : List (KCall R))
    (now : R) (k : KNode X R) : Prop where
  boundary : ∃ m : ℕ, k.kT = origin + m * c.kTick
  kT_le : k.kT ≤ now
  lt_next : now < k.kT + c.kTick
  kPending : k.kPending =
    ((calls.filter fun call => call.isUpdate ∧ k.kT ≤ call.now).map KCall.delta).sum
  kSum : k.kSum = ((calls.filter KCall.isUpdate).map KCall.delta).sum

omit [LinearOrder R] [FloorRing R] [IsStrictOrderedRing R] in
/-- Calls that do not count may as well be left out. -/
theorem sum_filter_delta (p : KCall R → Bool) (calls : List (KCall R)) :
    ((calls.filter p).map KCall.delta).sum =
      (calls.map fun call => if p call then call.delta else 0).sum := by
  induction calls with
  | nil => rfl
  | cons call calls ih =>
      rw [List.map_cons, List.sum_cons, ← ih, List.filter_cons]
      by_cases hp : p call
      · rw [if_pos hp, if_pos hp, List.map_cons, List.sum_cons]
      · rw [if_neg hp, if_neg hp, zero_add]

omit [LinearOrder R] [FloorRing R] [IsStrictOrderedRing R] in
/-- A `k_freshen` adds nothing. -/
theorem delta_of_not_isUpdate {call : KCall R} (h : ¬ call.isUpdate) :
    call.delta = 0 := by
  cases call with
  | update d now => exact absurd rfl h
  | freshen now => rfl

theorem Synced.aligned {c : KConf R} {origin now : R} {calls : List (KCall R)}
    {k : KNode X R} (h : Synced c origin calls now k) (htick : 0 < c.kTick) :
    Aligned c origin calls now k where
  boundary := ⟨_, h.kT_eq⟩
  kT_le := by
    rw [h.kT_eq]
    exact origin_add_tickNo_le htick h.origin_le_now
  lt_next := by
    have hnext : now < origin + (tickNo origin c.kTick now + 1) * c.kTick :=
      lt_origin_add_tickNo htick
    rw [h.kT_eq, add_assoc, ← add_one_mul]
    exact hnext
  kPending := by
    rw [h.kPending_eq, received, sum_filter_delta]
    congr 1
    apply List.map_congr_left
    intro call hcall
    have hnow : call.now < origin + (tickNo origin c.kTick now + 1) * c.kTick :=
      (h.le_now call hcall).trans_lt (lt_origin_add_tickNo htick)
    simp only [hnow, and_true, ← h.kT_eq, decide_eq_true_eq]
    by_cases hupdate : call.isUpdate
    · simp only [hupdate, true_and]
    · simp only [delta_of_not_isUpdate hupdate, ite_self]
  kSum := by
    rw [h.kSum_eq, sum_filter_delta]
    congr 1
    apply List.map_congr_left
    intro call _
    split
    · rfl
    · next hupdate => exact delta_of_not_isUpdate hupdate

/-- After every call the clock of a node stands on a tick boundary, counted from
the first call, and what is pending is what the updates since then brought. -/
theorem tick_alignment (c : KConf R) (htick : 0 < c.kTick) (x0 x1 : X)
    (first : KCall R) (calls : List (KCall R)) (htimely : Timely (first :: calls))
    {done : List (KCall R)} {call : KCall R}
    (hdone : done ++ [call] <+: first :: calls) :
    Aligned c first.now (done ++ [call]) call.now
      (runCalls c (kInit x0 x1) (done ++ [call])) := by
  have hprefix : Timely (done ++ [call]) :=
    ⟨htimely.1.sublist hdone.sublist, fun other hother => htimely.2 other (hdone.subset hother)⟩
  obtain ⟨rest, hrest⟩ : ∃ rest, done ++ [call] = first :: rest := by
    obtain ⟨later, hlater⟩ := hdone
    cases done with
    | nil => exact ⟨[], by rw [List.nil_append, (List.cons.inj hlater).1]⟩
    | cons head done =>
        exact ⟨done ++ [call], by rw [List.cons_append, (List.cons.inj hlater).1]⟩
  have hlast : (first :: rest).getLast (List.cons_ne_nil _ _) = call := by
    simp only [← hrest, List.getLast_append_singleton]
  rw [hrest] at hprefix ⊢
  have hsynced := synced_runCalls c htick x0 x1 first rest hprefix
  rw [hlast] at hsynced
  exact hsynced.aligned htick

/-- An update at second 1 and one on the next boundary, of which only the second
is pending. -/
theorem tick_alignment_on_boundary :
    Aligned (realConf 10 600) 1
      [.update (fun _ => 20) 1, .update (fun _ => 30) 11] 11
      (runCalls (realConf 10 600) (kInit () ())
        [.update (fun _ => 20) 1, .update (fun _ => 30) 11]) := by
  have htimely : Timely
      [KCall.update (fun _ => (20 : ℝ)) 1, .update (fun _ => 30) 11] := by
    constructor
    · simp [KCall.now]
    · simp [KCall.now]
  exact tick_alignment (realConf 10 600) (by norm_num [realConf]) () ()
    (.update (fun _ => 20) 1) [.update (fun _ => 30) 11] htimely
    (show [.update (fun _ => 20) 1] ++ [.update (fun _ => 30) 11] <+: _ from
      List.prefix_rfl)

end Xltop.Rate
