import Mathlib.Data.List.Basic

/-!
# Queues

A machine that holds a list: each operation lets some elements in at the end
and some out at the front.  If no operation loses, repeats or reorders an
element, then no run does: what has left and what is held are together what was
held at first and what has entered, in order.
-/

namespace Xltop.Fifo

/-- A machine with states `σ`, operations `ι` and elements `α`. -/
structure Machine (σ ι α : Type*) where
  step : σ → ι → σ
  held : σ → List α
  entered : σ → ι → List α
  left : σ → ι → List α

namespace Machine

variable {σ ι α : Type*} (M : Machine σ ι α)

/-- The state after a run. -/
def run (s : σ) (ops : List ι) : σ :=
  ops.foldl M.step s

/-- All elements that enter in a run, in order. -/
def allEntered : σ → List ι → List α
  | _, [] => []
  | s, op :: ops => M.entered s op ++ allEntered (M.step s op) ops

/-- All elements that leave in a run, in order. -/
def allLeft : σ → List ι → List α
  | _, [] => []
  | s, op :: ops => M.left s op ++ allLeft (M.step s op) ops

/-- The operations keep an invariant, and under it they pass the elements on
in order. -/
structure Conserves (Inv : σ → Prop) : Prop where
  keeps : ∀ {s}, Inv s → ∀ op, Inv (M.step s op)
  passes : ∀ {s}, Inv s → ∀ op, M.held s ++ M.entered s op = M.left s op ++ M.held (M.step s op)

variable {M}

namespace Conserves

variable {Inv : σ → Prop} {s : σ}

theorem run_keeps (h : M.Conserves Inv) (hs : Inv s) (ops : List ι) : Inv (M.run s ops) := by
  induction ops generalizing s with
  | nil => exact hs
  | cons op ops ih => exact ih (h.keeps hs op)

theorem run_passes (h : M.Conserves Inv) (hs : Inv s) (ops : List ι) :
    M.held s ++ M.allEntered s ops = M.allLeft s ops ++ M.held (M.run s ops) := by
  induction ops generalizing s with
  | nil => exact List.append_nil _
  | cons op ops ih =>
      calc M.held s ++ (M.entered s op ++ M.allEntered (M.step s op) ops)
          = M.left s op ++ (M.held (M.step s op) ++ M.allEntered (M.step s op) ops) := by
            rw [← List.append_assoc, h.passes hs op, List.append_assoc]
        _ = M.allLeft s (op :: ops) ++ M.held (M.run s (op :: ops)) := by
            rw [ih (h.keeps hs op), allLeft, List.append_assoc]
            rfl

end Conserves

end Machine

end Xltop.Fifo
