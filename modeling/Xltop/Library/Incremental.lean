import Mathlib.Data.List.Basic

/-!
# Incremental readers

A reader takes one item after the other from the front of its input, until it
can go no further.  Where it stops, and what it has read by then, depends on the
input alone.
-/

namespace Xltop.Incremental

variable {σ β ε : Type*}

/-- One item: the next state, the rest of the input, and the output if there is
one. -/
abbrev Reader (σ β ε : Type*) := σ → List β → Option (σ × List β × Option ε)

/-- Some items have been read. -/
inductive Reads (next : Reader σ β ε) : σ → List β → List ε → σ → List β → Prop where
  | refl (s : σ) (input : List β) : Reads next s input [] s input
  | step {s : σ} {input : List β} {s' : σ} {rest : List β} {out : Option ε}
      {outs : List ε} {s'' : σ} {rest' : List β}
      (hnext : next s input = some (s', rest, out))
      (hrest : Reads next s' rest outs s'' rest') :
      Reads next s input (out.toList ++ outs) s'' rest'

namespace Reads

variable {next : Reader σ β ε} {s s' s'' : σ} {input rest rest' : List β}
  {outs outs' : List ε}

theorem trans (h : Reads next s input outs s' rest)
    (h' : Reads next s' rest outs' s'' rest') :
    Reads next s input (outs ++ outs') s'' rest' := by
  induction h with
  | refl => exact h'
  | step hnext _ ih =>
      rw [List.append_assoc]
      exact .step hnext (ih h')

theorem single {out : Option ε} (hnext : next s input = some (s', rest, out)) :
    Reads next s input out.toList s' rest := by
  rw [← List.append_nil out.toList]
  exact .step hnext (.refl s' rest)

/-- An item at the end. -/
theorem tail {out : Option ε} (h : Reads next s input outs s' rest)
    (hnext : next s' rest = some (s'', rest', out)) :
    Reads next s input (outs ++ out.toList) s'' rest' :=
  h.trans (.single hnext)

/-- A reader that can go no further has read what every such run reads. -/
theorem unique (h : Reads next s input outs s' rest) (hstuck : next s' rest = none)
    (h' : Reads next s input outs' s'' rest') (hstuck' : next s'' rest' = none) :
    outs = outs' ∧ s' = s'' ∧ rest = rest' := by
  induction h generalizing outs' with
  | refl =>
      cases h' with
      | refl => exact ⟨rfl, rfl, rfl⟩
      | step hnext =>
          rw [hstuck] at hnext
          cases hnext
  | step hnext _ ih =>
      cases h' with
      | refl =>
          rw [hstuck'] at hnext
          cases hnext
      | step hnext' hrest' =>
          rw [hnext] at hnext'
          cases hnext'
          obtain ⟨rfl, hstate, hleft⟩ := ih hstuck hrest'
          exact ⟨rfl, hstate, hleft⟩

end Reads

/-! ## Reading to the end -/

/-- Every item makes the input or the state smaller. -/
def Decreases (next : Reader σ β ε) (size : σ → List β → ℕ) : Prop :=
  ∀ s input s' rest out, next s input = some (s', rest, out) → size s' rest < size s input

/-- What at most so many items are, and where the reader is after them. -/
def readAll (next : Reader σ β ε) : ℕ → σ → List β → List ε × σ × List β
  | 0, s, input => ([], s, input)
  | bound + 1, s, input =>
      match next s input with
      | none => ([], s, input)
      | some (s', rest, out) =>
          let (outs, last) := readAll next bound s' rest
          (out.toList ++ outs, last)

section ReadAll

variable {next : Reader σ β ε}

theorem reads_readAll (next : Reader σ β ε) (bound : ℕ) (s : σ) (input : List β) :
    Reads next s input (readAll next bound s input).1 (readAll next bound s input).2.1
      (readAll next bound s input).2.2 := by
  induction bound generalizing s input with
  | zero => exact .refl s input
  | succ bound ih =>
      rw [readAll]
      cases hnext : next s input with
      | none => exact .refl s input
      | some item =>
          obtain ⟨s', rest, out⟩ := item
          exact .step hnext (ih s' rest)

/-- With as many items as the size allows, nothing is left to read. -/
theorem readAll_stuck {size : σ → List β → ℕ} (hsize : Decreases next size) {bound : ℕ}
    {s : σ} {input : List β} (hbound : size s input < bound) :
    next (readAll next bound s input).2.1 (readAll next bound s input).2.2 = none := by
  induction bound generalizing s input with
  | zero => exact absurd hbound (Nat.not_lt_zero _)
  | succ bound ih =>
      rw [readAll]
      cases hnext : next s input with
      | none => exact hnext
      | some item =>
          obtain ⟨s', rest, out⟩ := item
          have hless := hsize s input s' rest out hnext
          exact ih (Nat.lt_of_lt_of_le hless (Nat.le_of_lt_succ hbound))

/-- What has been read is the first part of what can be read. -/
theorem Reads.prefix_readAll {size : σ → List β → ℕ} (hsize : Decreases next size)
    {s s' : σ} {input rest : List β} {outs : List ε} (h : Reads next s input outs s' rest)
    {bound : ℕ} (hbound : size s input < bound) :
    outs <+: (readAll next bound s input).1 := by
  have hmore := h.trans (reads_readAll next (size s' rest + 1) s' rest)
  obtain ⟨hall, -, -⟩ := hmore.unique
    (readAll_stuck hsize (Nat.lt_succ_self (size s' rest))) (reads_readAll next bound s input)
    (readAll_stuck hsize hbound)
  exact hall ▸ List.prefix_append outs _

end ReadAll

/-- A property holds of every state that the reader goes through, within so many
items. -/
def allStates (next : Reader σ β ε) (p : σ → Bool) : ℕ → σ → List β → Bool
  | 0, _, _ => false
  | bound + 1, s, input =>
      p s &&
        match next s input with
        | none => true
        | some (s', rest, _) => allStates next p bound s' rest

theorem Reads.of_allStates {next : Reader σ β ε} {p : σ → Bool} {bound : ℕ} {s s' : σ}
    {input rest : List β} {outs : List ε} (hall : allStates next p bound s input = true)
    (h : Reads next s input outs s' rest) : p s' = true := by
  induction h generalizing bound with
  | refl =>
      cases bound with
      | zero => cases hall
      | succ bound =>
          rw [allStates, Bool.and_eq_true] at hall
          exact hall.1
  | step hnext _ ih =>
      cases bound with
      | zero => cases hall
      | succ bound =>
          rw [allStates, hnext, Bool.and_eq_true] at hall
          exact ih hall.2

end Xltop.Incremental
