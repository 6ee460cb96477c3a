import Mathlib.Data.List.Basic
import Mathlib.Data.List.Induction
import Mathlib.Data.Set.Insert
import Mathlib.Logic.Function.Basic

/-!
# Mark and sweep

Holders have pointers to objects, and some objects are doomed.  A mark sets the
pointer of a holder and saves the object; what is still doomed after the marks
is swept away.  A pointer is left dangling exactly when neither its holder nor
its object has been marked.
-/

namespace Xltop.MarkSweep

open Function

/-- Pointers and doomed objects between a start and a sweep. -/
structure Phase (β α : Type*) where
  pointer : β → Option α
  doomed : Set α

variable {β α : Type*} [DecidableEq β]

/-- The holder gets the object, which is saved. -/
def mark (s : Phase β α) (m : β × α) : Phase β α :=
  ⟨update s.pointer m.1 (some m.2), s.doomed \ {m.2}⟩

theorem mark_dangles {s : Phase β α} {m : β × α} {b : β} {a : α} :
    (mark s m).pointer b = some a ∧ a ∈ (mark s m).doomed ↔
      (s.pointer b = some a ∧ a ∈ s.doomed) ∧ m.1 ≠ b ∧ m.2 ≠ a := by
  simp only [mark, Set.mem_sdiff, Set.mem_singleton_iff]
  by_cases hb : m.1 = b
  · rw [hb, update_self, Option.some.injEq]
    constructor
    · rintro ⟨heq, -, hne⟩
      exact absurd heq.symm hne
    · rintro ⟨-, hne, -⟩
      exact absurd rfl hne
  · rw [update_of_ne (Ne.symm hb)]
    constructor
    · rintro ⟨hpointer, hdoomed, hne⟩
      exact ⟨⟨hpointer, hdoomed⟩, hb, Ne.symm hne⟩
    · rintro ⟨⟨hpointer, hdoomed⟩, -, hne⟩
      exact ⟨hpointer, hdoomed, Ne.symm hne⟩

/-- After any marks, the pointers to doomed objects are those from before whose
holder and object are not marked. -/
theorem marks_dangle {s : Phase β α} {marks : List (β × α)} {b : β} {a : α} :
    (marks.foldl mark s).pointer b = some a ∧ a ∈ (marks.foldl mark s).doomed ↔
      (s.pointer b = some a ∧ a ∈ s.doomed) ∧ ∀ m ∈ marks, m.1 ≠ b ∧ m.2 ≠ a := by
  induction marks generalizing s with
  | nil => simp
  | cons m rest ih =>
      rw [List.foldl_cons, ih, mark_dangles, List.forall_mem_cons, and_assoc]

/-- What is doomed after some marks has not been marked. -/
theorem marks_doomed {s : Phase β α} {marks : List (β × α)} {a : α} :
    a ∈ (marks.foldl mark s).doomed ↔ a ∈ s.doomed ∧ ∀ m ∈ marks, m.2 ≠ a := by
  induction marks generalizing s with
  | nil => simp
  | cons m rest ih =>
      rw [List.foldl_cons, ih, mark, Set.mem_sdiff, Set.mem_singleton_iff, List.forall_mem_cons,
        and_assoc, ne_comm]

/-- A holder that is marked with one object only has that object. -/
theorem marks_pointer {s : Phase β α} {marks : List (β × α)} {m : β × α} (hm : m ∈ marks)
    (hfun : ∀ m' ∈ marks, m'.1 = m.1 → m'.2 = m.2) :
    (marks.foldl mark s).pointer m.1 = some m.2 := by
  induction marks using List.reverseRecOn with
  | nil => cases hm
  | append_singleton first last ih =>
      rw [List.foldl_concat]
      change update (first.foldl mark s).pointer last.1 (some last.2) m.1 = some m.2
      by_cases hlast : last.1 = m.1
      · have hmem : last ∈ first ++ [last] :=
          List.mem_append_right _ (List.mem_singleton_self last)
        rw [hlast, update_self, hfun last hmem hlast]
      · rw [update_of_ne (Ne.symm hlast)]
        have hfirst : m ∈ first := by
          rcases List.mem_append.1 hm with hmem | hmem
          · exact hmem
          · rw [List.mem_singleton.1 hmem] at hlast
            exact absurd rfl hlast
        exact ih hfirst fun m' hm' => hfun m' (List.mem_append_left _ hm')

end Xltop.MarkSweep
