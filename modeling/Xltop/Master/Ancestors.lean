import Xltop.Master.Tree
import Mathlib.Logic.Relation

/-!
# Ancestors

The loop `for (i = x; i != NULL; i = i->x_parent)` visits a node and its
ancestors, each once, and ends at the root after at most four nodes.
-/

namespace Xltop.Master

namespace XTree

/-- `y` is `x` or an ancestor of `x`. -/
def Above (t : XTree) (x y : XNode) : Prop :=
  Relation.ReflTransGen (fun a b => t.parent a = some b) x y

variable {t : XTree}

theorem above_iff {x y : XNode} :
    t.Above x y ↔ y = x ∨ ∃ p, t.parent x = some p ∧ t.Above p y := by
  rw [Above, Relation.ReflTransGen.cases_head_iff, eq_comm]
  rfl

namespace TreeOk

variable (h : t.TreeOk) {x y : XNode}

include h

theorem live_of_above (hx : t.Live x) (hxy : t.Above x y) : t.Live y := by
  induction hxy with
  | refl => exact hx
  | tail _ hstep _ => exact h.parent_live hstep

theorem which_of_parent {p : XNode} (hp : t.parent x = some p) :
    p.which = x.which :=
  XType.which_of_up (h.up_of_parent hp)

theorem which_of_above (hxy : t.Above x y) : y.which = x.which := by
  induction hxy with
  | refl => rfl
  | tail _ hstep ih => exact (h.which_of_parent hstep).trans ih

theorem rank_of_parent {p : XNode} (hp : t.parent x = some p) :
    p.xType.rank = x.xType.rank + 1 :=
  XType.rank_of_up (h.up_of_parent hp)

theorem rank_le_of_above (hxy : t.Above x y) : x.xType.rank ≤ y.xType.rank := by
  induction hxy with
  | refl => exact le_rfl
  | tail _ hstep ih =>
      rw [h.rank_of_parent hstep]
      exact Nat.le_succ_of_le ih

/-- A node has at most one ancestor on a level. -/
theorem above_unique {z : XNode} (hy : t.Above x y) (hz : t.Above x z)
    (hrank : y.xType.rank = z.xType.rank) : y = z := by
  have heq : ∀ {a b}, t.Above a b → a.xType.rank = b.xType.rank → a = b := by
    intro a b hab hsame
    rcases above_iff.1 hab with rfl | ⟨p, hp, hpb⟩
    · rfl
    · have hup := h.rank_of_parent hp
      have hle := h.rank_le_of_above hpb
      omega
  have hunique : Relator.RightUnique fun a b => t.parent a = some b :=
    fun a b c hb hc => Option.some.inj (hb.symm.trans hc)
  rcases Relation.ReflTransGen.total_of_right_unique hunique hy hz with hyz | hzy
  · exact heq hyz hrank
  · exact (heq hzy hrank.symm).symm

/-- Every node is below the root of its side. -/
theorem above_root (hx : t.Live x) : t.Above x (t.xAll x.which) := by
  obtain ⟨levels, hlevels⟩ : ∃ levels, levels = 3 - x.xType.rank := ⟨_, rfl⟩
  induction levels generalizing x with
  | zero =>
      have hup : x.xType.up = none := by
        revert hlevels
        cases x.xType <;> decide
      rw [← h.root hx hup]
      exact .refl
  | succ levels ih =>
      cases hup : x.xType.up with
      | none =>
          rw [← h.root hx hup]
          exact .refl
      | some type =>
          obtain ⟨p, hp, -⟩ := h.exists_parent hx hup
          have hrank := h.rank_of_parent hp
          rw [← h.which_of_parent hp]
          exact .head hp (ih (h.parent_live hp) (by omega))

/-- With enough fuel the loop visits exactly the node and its ancestors. -/
theorem mem_xChain_of_rank {fuel : ℕ} (hx : t.Live x)
    (hfuel : 3 < fuel + x.xType.rank) :
    y ∈ t.xChain fuel (some x) ↔ t.Above x y := by
  induction fuel generalizing x with
  | zero =>
      have hrank : x.xType.rank ≤ 3 := by cases x.xType <;> decide
      omega
  | succ fuel ih =>
      rw [xChain, List.mem_cons, above_iff]
      apply or_congr_right
      cases hp : t.parent x with
      | none => cases fuel <;> simp [xChain]
      | some p =>
          have hrank := h.rank_of_parent hp
          rw [ih (h.parent_live hp) (by omega)]
          simp

theorem mem_xChain (hx : t.Live x) :
    y ∈ t.xChain nrXTypes (some x) ↔ t.Above x y :=
  h.mem_xChain_of_rank hx (Nat.lt_add_right _ (by decide))

theorem xChain_nodup (fuel : ℕ) (hx : t.Live x) :
    (t.xChain fuel (some x)).Nodup ∧
      ∀ y ∈ t.xChain fuel (some x), x.xType.rank ≤ y.xType.rank := by
  induction fuel generalizing x with
  | zero => simp [xChain]
  | succ fuel ih =>
      rw [xChain, List.nodup_cons]
      cases hp : t.parent x with
      | none => cases fuel <;> simp [xChain]
      | some p =>
          have hrank := h.rank_of_parent hp
          obtain ⟨hnodup, hle⟩ := ih (h.parent_live hp)
          refine ⟨⟨fun hmem => ?_, hnodup⟩, fun y hy => ?_⟩
          · have hself := hle x hmem
            omega
          · rcases List.mem_cons.1 hy with rfl | hy
            · exact le_rfl
            · have hup := hle y hy
              omega

end TreeOk

end XTree

end Xltop.Master
