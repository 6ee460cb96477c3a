import Mathlib.Data.List.Basic

/-!
# Cursors

A list is handed out one element a call, from a position that each call moves
on.  If each call gives the first of what is left and leaves the others, then
the calls give the whole list in order and nothing from there on.
-/

namespace Xltop.Cursor

variable {σ α : Type*} (next : σ → Option α × σ)

/-- The position after `n` calls. -/
def after (s : σ) : ℕ → σ
  | 0 => s
  | n + 1 => (next (after s n)).2

/-- What the next `fuel` calls hand out, up to the first that hands out
nothing. -/
def handOut : ℕ → σ → List α
  | 0, _ => []
  | fuel + 1, s =>
      match next s with
      | (none, _) => []
      | (some a, s) => a :: handOut fuel s

/-- Calls hand out what is left at a position, as long as it is a valid one. -/
structure Walks (Valid : σ → Prop) (left : σ → List α) : Prop where
  item : ∀ {s}, Valid s → (next s).1 = (left s).head?
  left_next : ∀ {s}, Valid s → left (next s).2 = (left s).tail
  valid_next : ∀ {s}, Valid s → Valid (next s).2

variable {next}

namespace Walks

variable {Valid : σ → Prop} {left : σ → List α} {s : σ}

theorem valid_after (h : Walks next Valid left) (hs : Valid s) (n : ℕ) :
    Valid (after next s n) := by
  induction n with
  | zero => exact hs
  | succ n ih => exact h.valid_next ih

theorem left_after (h : Walks next Valid left) (hs : Valid s) (n : ℕ) :
    left (after next s n) = (left s).drop n := by
  induction n with
  | zero => rfl
  | succ n ih =>
      rw [after, h.left_next (h.valid_after hs n), ih, List.tail_drop]

theorem item_after (h : Walks next Valid left) (hs : Valid s) (n : ℕ) :
    (next (after next s n)).1 = (left s)[n]? := by
  rw [h.item (h.valid_after hs n), h.left_after hs, List.head?_drop]

theorem handOut_eq (h : Walks next Valid left) (hs : Valid s) (fuel : ℕ) :
    handOut next fuel s = (left s).take fuel := by
  induction fuel generalizing s with
  | zero => rfl
  | succ fuel ih =>
      have hitem := h.item hs
      have hleft := h.left_next hs
      have hvalid := h.valid_next hs
      rw [handOut]
      cases hcall : next s with
      | mk item s' =>
          rw [hcall] at hitem hleft hvalid
          cases hl : left s with
          | nil =>
              rw [hl] at hitem
              obtain rfl : item = none := hitem
              rfl
          | cons a rest =>
              rw [hl] at hitem hleft
              obtain rfl : item = some a := hitem
              have hrest : left s' = rest := hleft
              rw [List.take_succ_cons, ← hrest]
              exact congrArg (List.cons a) (ih hvalid)

end Walks

end Xltop.Cursor
