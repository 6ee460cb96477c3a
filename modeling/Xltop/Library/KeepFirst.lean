import Mathlib.Data.List.Basic
import Mathlib.Logic.Function.Basic

/-!
# Registers that keep the first value

A register is told pairs of a key and a value in rounds.  It takes the value of
a key that it does not know, keeps the value of a key that it knows, and forgets
the keys that a round leaves out.  So it agrees with a round exactly when no key
of the round had come with another value before.
-/

namespace Xltop.KeepFirst

open Function

variable {K V : Type*} [DecidableEq K]

/-- One pair: a known key keeps its value. -/
def learn (known : K → Option V) (e : K × V) : K → Option V :=
  update known e.1 (some ((known e.1).getD e.2))

/-- The first value that a round gives a key. -/
def firstValue (round : List (K × V)) (k : K) : Option V :=
  (round.find? fun e => e.1 = k).map Prod.snd

/-- What is known after a round, whose keys are kept. -/
def refresh (known : K → Option V) (round : List (K × V)) (k : K) : Option V :=
  (firstValue round k).map fun v => (known k).getD v

/-- What is known after some rounds. -/
def recorded (rounds : List (List (K × V))) : K → Option V :=
  rounds.foldl refresh fun _ => none

variable {known : K → Option V} {round : List (K × V)} {k : K}

theorem recorded_concat (rounds : List (List (K × V))) (round : List (K × V)) :
    recorded (rounds ++ [round]) = refresh (recorded rounds) round :=
  List.foldl_concat ..

theorem firstValue_eq_none : firstValue round k = none ↔ ∀ e ∈ round, e.1 ≠ k := by
  rw [firstValue, Option.map_eq_none_iff, List.find?_eq_none]
  simp only [decide_eq_true_eq, ne_eq]

theorem firstValue_cons (e : K × V) (round : List (K × V)) (k : K) :
    firstValue (e :: round) k = if e.1 = k then some e.2 else firstValue round k := by
  rw [firstValue, List.find?_cons]
  by_cases he : e.1 = k
  · rw [if_pos he, decide_eq_true he]
    rfl
  · rw [if_neg he, decide_eq_false he]
    rfl

/-- The pairs of a round one by one, before anything is forgotten. -/
theorem foldl_learn (round : List (K × V)) (known : K → Option V) (k : K) :
    round.foldl learn known k =
      match firstValue round k with
      | some v => some ((known k).getD v)
      | none => known k := by
  induction round generalizing known with
  | nil => rfl
  | cons e round ih =>
      rw [List.foldl_cons, ih, firstValue_cons]
      by_cases he : e.1 = k
      · subst he
        rw [if_pos rfl, learn, update_self]
        cases firstValue round e.1 <;> rfl
      · rw [if_neg he, learn, update_of_ne (Ne.symm he)]

theorem foldl_learn_of_mem {e : K × V} (he : e ∈ round) :
    round.foldl learn known e.1 = refresh known round e.1 := by
  rw [foldl_learn, refresh]
  cases hfirst : firstValue round e.1 with
  | none => exact absurd rfl (firstValue_eq_none.1 hfirst e he)
  | some v => rfl

theorem refresh_eq_none : refresh known round k = none ↔ ∀ e ∈ round, e.1 ≠ k := by
  rw [refresh, Option.map_eq_none_iff, firstValue_eq_none]

/-- The register agrees with a round that gives each key one value. -/
theorem refresh_current_iff
    (hfun : ∀ e ∈ round, ∀ e' ∈ round, e.1 = e'.1 → e.2 = e'.2) :
    (∀ e ∈ round, refresh known round e.1 = some e.2) ↔
      ∀ e ∈ round, ∀ v, known e.1 = some v → v = e.2 := by
  have hfirst : ∀ e ∈ round, firstValue round e.1 = some e.2 := by
    intro e he
    cases hvalue : firstValue round e.1 with
    | none => exact absurd rfl (firstValue_eq_none.1 hvalue e he)
    | some v =>
        obtain ⟨e', hfind, rfl⟩ := Option.map_eq_some_iff.1 hvalue
        have hkey : e'.1 = e.1 := by simpa using List.find?_some hfind
        rw [hfun e' (List.mem_of_find?_eq_some hfind) e he hkey]
  have hrefresh : ∀ e ∈ round, refresh known round e.1 = some ((known e.1).getD e.2) := by
    intro e he
    rw [refresh, hfirst e he, Option.map_some]
  constructor
  · intro hcurrent e he v hv
    have heq := (hrefresh e he).symm.trans (hcurrent e he)
    rw [hv] at heq
    exact Option.some.inj heq
  · intro hsame e he
    rw [hrefresh e he]
    cases hv : known e.1 with
    | none => rfl
    | some v => rw [Option.getD_some, hsame e he v hv]

end Xltop.KeepFirst
