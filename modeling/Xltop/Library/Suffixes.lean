import Mathlib.Data.List.Basic
import Mathlib.Data.Option.Basic

/-!
# Suffixes behind a separator

A name is looked up by what follows its separators, from the left.  What
follows an earlier separator is longer, so the first suffix that has a value is
the longest one that has.
-/

namespace Xltop.Suffixes

variable {α β : Type*} (sep : α → Prop)

/-- `rest` is what follows one of the separators of a list. -/
def Behind (list rest : List α) : Prop :=
  ∃ front c, list = front ++ c :: rest ∧ sep c

variable [DecidablePred sep]

/-- The value of the first suffix behind a separator that has one. -/
def firstSuffix (value : List α → Option β) : List α → Option β
  | [] => none
  | c :: rest =>
      if sep c then (value rest).or (firstSuffix value rest) else firstSuffix value rest

variable {sep} {value : List α → Option β} {list rest : List α} {c : α} {b : β}

omit [DecidablePred sep] in
theorem behind_cons : Behind sep (c :: list) rest ↔ sep c ∧ rest = list ∨ Behind sep list rest := by
  constructor
  · rintro ⟨_ | ⟨d, front⟩, c', heq, hsep⟩
    · obtain ⟨rfl, rfl⟩ := List.cons_eq_cons.1 heq
      exact .inl ⟨hsep, rfl⟩
    · obtain ⟨rfl, htail⟩ := List.cons_eq_cons.1 heq
      exact .inr ⟨front, c', htail, hsep⟩
  · rintro (⟨hsep, rfl⟩ | ⟨front, c', rfl, hsep⟩)
    · exact ⟨[], c, rfl, hsep⟩
    · exact ⟨c :: front, c', rfl, hsep⟩

omit [DecidablePred sep] in
theorem Behind.length_lt (h : Behind sep list rest) : rest.length < list.length := by
  obtain ⟨front, c, rfl, -⟩ := h
  rw [List.length_append, List.length_cons]
  omega

theorem firstSuffix_eq_none :
    firstSuffix sep value list = none ↔ ∀ rest, Behind sep list rest → value rest = none := by
  induction list with
  | nil =>
      refine iff_of_true rfl ?_
      rintro rest ⟨front, c, heq, -⟩
      exact absurd heq.symm (by simp)
  | cons c list ih =>
      simp only [behind_cons]
      rw [firstSuffix]
      split
      · next hsep =>
          rw [Option.or_eq_none_iff, ih]
          constructor
          · rintro ⟨hfirst, hrest⟩ rest (⟨-, rfl⟩ | hbehind)
            · exact hfirst
            · exact hrest rest hbehind
          · exact fun h => ⟨h list (.inl ⟨hsep, rfl⟩), fun rest hrest => h rest (.inr hrest)⟩
      · next hsep =>
          rw [ih]
          exact forall_congr' fun rest => by simp [hsep]

/-- `rest` is the longest suffix behind a separator that has a value. -/
structure Longest (sep : α → Prop) (value : List α → Option β) (list rest : List α)
    (b : β) : Prop where
  behind : Behind sep list rest
  value_eq : value rest = some b
  longest : ∀ rest', Behind sep list rest' → value rest' ≠ none → rest'.length ≤ rest.length

theorem exists_longest (h : firstSuffix sep value list = some b) :
    ∃ rest, Longest sep value list rest b := by
  induction list with
  | nil => cases h
  | cons c list ih =>
      rw [firstSuffix] at h
      split at h
      · next hsep =>
          cases hfirst : value list with
          | some b' =>
              rw [hfirst] at h
              obtain rfl : b' = b := Option.some.inj h
              refine ⟨list, behind_cons.2 (.inl ⟨hsep, rfl⟩), hfirst, fun rest' hrest _ => ?_⟩
              exact Nat.le_of_lt_succ hrest.length_lt
          | none =>
              rw [hfirst, Option.none_or] at h
              obtain ⟨rest, hrest⟩ := ih h
              refine ⟨rest, behind_cons.2 (.inr hrest.behind), hrest.value_eq,
                fun rest' hrest' hsome => ?_⟩
              rcases behind_cons.1 hrest' with ⟨-, rfl⟩ | hbehind
              · exact absurd hfirst hsome
              · exact hrest.longest rest' hbehind hsome
      · next hsep =>
          obtain ⟨rest, hrest⟩ := ih h
          refine ⟨rest, behind_cons.2 (.inr hrest.behind), hrest.value_eq,
            fun rest' hrest' hsome => ?_⟩
          rcases behind_cons.1 hrest' with ⟨hc, -⟩ | hbehind
          · exact absurd hc hsep
          · exact hrest.longest rest' hbehind hsome

end Xltop.Suffixes
