import Mathlib.Data.Option.Basic

/-!
# Paths

A tree of named nodes, given by the parent of each node and the child that a
node has under a name, and the node that a path leads to.  A path is followed
from the left, and it leads nowhere when one of its steps does.
-/

namespace Xltop.Paths

variable {E N : Type*}

inductive Step (N : Type*) where
  | stay
  | up
  | down (name : N)
  deriving DecidableEq, Repr

section Walk

variable (up : E → Option E) (down : E → N → Option E)

/-- One step from `e`. -/
def move (e : E) : Step N → Option E
  | .stay => some e
  | .up => up e
  | .down name => down e name

/-- Where a path leads from `e`. -/
def walk : E → List (Step N) → Option E
  | e, [] => some e
  | e, step :: rest => (move up down e step).bind fun e' => walk e' rest

variable {up down}

@[simp]
theorem walk_nil (e : E) : walk up down e [] = some e :=
  rfl

@[simp]
theorem walk_cons (e : E) (step : Step N) (rest : List (Step N)) :
    walk up down e (step :: rest) =
      (move up down e step).bind fun e' => walk up down e' rest :=
  rfl

theorem walk_append (e : E) (path rest : List (Step N)) :
    walk up down e (path ++ rest) =
      (walk up down e path).bind fun e' => walk up down e' rest := by
  induction path generalizing e with
  | nil => rfl
  | cons step path ih =>
      rw [List.cons_append, walk_cons, walk_cons, Option.bind_assoc]
      exact congrArg _ (funext ih)

/-- A property that every step keeps holds where a path leads. -/
theorem walk_induction {P : E → Prop} (hup : ∀ {e p}, P e → up e = some p → P p)
    (hdown : ∀ {e name c}, P e → down e name = some c → P c) {e e' : E}
    {path : List (Step N)} (he : P e) (h : walk up down e path = some e') : P e' := by
  induction path generalizing e with
  | nil => exact Option.some.inj h ▸ he
  | cons step rest ih =>
      obtain ⟨e₁, hstep, hrest⟩ := Option.bind_eq_some_iff.1 h
      refine ih ?_ hrest
      cases step with
      | stay => exact Option.some.inj hstep ▸ he
      | up => exact hup he hstep
      | down name => exact hdown he hstep

/-- Where nodes are only added, a path that led to a node leads to it still. -/
theorem walk_mono {up' : E → Option E} {down' : E → N → Option E}
    (hup : ∀ {e p}, up e = some p → up' e = some p)
    (hdown : ∀ {e name c}, down e name = some c → down' e name = some c) {e e' : E}
    {path : List (Step N)} (h : walk up down e path = some e') :
    walk up' down' e path = some e' := by
  induction path generalizing e with
  | nil => exact h
  | cons step rest ih =>
      obtain ⟨e₁, hstep, hrest⟩ := Option.bind_eq_some_iff.1 h
      refine Option.bind_eq_some_iff.2 ⟨e₁, ?_, ih hrest⟩
      cases step with
      | stay => exact hstep
      | up => exact hup hstep
      | down name => exact hdown hstep

end Walk

end Xltop.Paths
