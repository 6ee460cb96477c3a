import Xltop.Master.Runs

/-!
# The shape of the trees and the tables

What a reader of the trees and the tables relies on, in every state the daemon
reaches.  A node is in memory when it is a root or has a parent.  Child lists,
parent pointers and counters agree, every node in memory is where look-up
searches for it, and every walk to the root gets there.
-/

namespace Xltop.Master

open Function
open Xltop.Text
open Xltop.Hash
open Xltop.Rate

namespace XTree

/-- A node in memory: `x_init` gives every node but the two roots a parent. -/
def Held (t : XTree) (x : XNode) : Prop := (∃ i, x = t.xAll i) ∨ t.parent x ≠ none

instance (t : XTree) (x : XNode) : Decidable (t.Held x) :=
  inferInstanceAs (Decidable ((∃ i, x = t.xAll i) ∨ t.parent x ≠ none))

/-- Child lists, parent pointers and counters describe one forest of the nodes
that are hashed, whose levels are those of `x_type`. -/
structure Shape (t : XTree) : Prop where
  hashed : ∀ type x, x ∈ t.nodes type ↔ t.Held x ∧ x.xType = type
  count_children : ∀ p x, (t.children p).count x = if t.parent x = some p then 1 else 0
  nr_child : ∀ p, (t.links p).xNrChild = (t.children p).length
  host : ∀ x, t.Held x → x.xType = .host → ∃ j, t.parent x = some j ∧ j.xType = .job
  job : ∀ x, t.Held x → x.xType = .job → ∃ c, t.parent x = some c ∧ c.xType = .clus
  clus : ∀ x, t.Held x → x.xType = .clus → t.parent x = some (t.xAll 0)
  serv : ∀ x, t.Held x → x.xType = .serv → ∃ f, t.parent x = some f ∧ f.xType = .fs
  fs : ∀ x, t.Held x → x.xType = .fs → t.parent x = some (t.xAll 1)
  roots : ∀ i, t.parent (t.xAll i) = none
  held_parent : ∀ {x p}, t.parent x = some p → t.Held p
  /-- The loop of `x_update` runs off the end at a root. -/
  chain : ∀ x, t.Held x →
    (t.xChain nrXTypes (some x)).getLast? = some (t.xAll x.which)

namespace TreeOk

variable {t : XTree} (h : t.TreeOk) {x y : XNode}

include h

theorem held_iff : t.Held x ↔ t.Live x := by
  constructor
  · rintro (⟨i, rfl⟩ | hparent)
    · exact h.all_live i
    · obtain ⟨p, hp⟩ := Option.ne_none_iff_exists'.1 hparent
      exact h.live_of_parent hp
  · intro hx
    cases hup : x.xType.up with
    | none => exact .inl ⟨x.which, h.root hx hup⟩
    | some type =>
        obtain ⟨p, hp, -⟩ := h.exists_parent hx hup
        exact .inr (hp ▸ Option.some_ne_none p)

theorem up_xAll (i : Fin 2) : (t.xAll i).xType.up = none := by
  rw [h.all_type]
  split <;> rfl

/-- A node whose parent has the type of a root is below that root. -/
theorem parent_xAll {i : Fin 2} {p : XNode} (hp : t.parent x = some p)
    (htype : p.xType = (t.xAll i).xType) : t.parent x = some (t.xAll i) := by
  have hroot : p.xType.up = none := htype ▸ h.up_xAll i
  have hwhich : p.which = i := by
    rw [XNode.which, htype, h.all_type]
    fin_cases i <;> rfl
  rw [hp, h.root (h.parent_live hp) hroot, hwhich]

/-- The walk visits the root last. -/
theorem getLast?_xChain {fuel : ℕ} (hx : t.Live x) (hfuel : 3 < fuel + x.xType.rank) :
    (t.xChain fuel (some x)).getLast? = some (t.xAll x.which) := by
  induction fuel generalizing x with
  | zero =>
      have hrank : x.xType.rank ≤ 3 := by cases x.xType <;> decide
      omega
  | succ fuel ih =>
      rw [xChain]
      cases hp : t.parent x with
      | none =>
          have hnil : t.xChain fuel none = [] := by cases fuel <;> rfl
          have hup : x.xType.up = none := by
            rw [← h.parent_type hx, hp]
            rfl
          rw [hnil, List.getLast?_singleton, ← h.root hx hup]
      | some p =>
          have hrank := h.rank_of_parent hp
          have hlast := ih (h.parent_live hp) (by omega)
          rw [List.getLast?_cons, hlast, Option.getD_some, h.which_of_parent hp]

theorem shape : t.Shape where
  hashed type x := by rw [h.mem_nodes, h.held_iff]
  count_children p x := by
    rw [(h.linked.nodup_children p).count]
    exact if_congr (h.linked.mem_children p x) rfl rfl
  nr_child := h.linked.nr_child
  host x hx htype := h.exists_parent (h.held_iff.1 hx) (by rw [htype]; rfl)
  job x hx htype := h.exists_parent (h.held_iff.1 hx) (by rw [htype]; rfl)
  clus x hx htype := by
    obtain ⟨p, hp, hu⟩ := h.exists_parent (h.held_iff.1 hx)
      (by rw [htype]; rfl : x.xType.up = some .u)
    apply h.parent_xAll hp
    rw [hu, h.all_type, if_pos rfl]
  serv x hx htype := h.exists_parent (h.held_iff.1 hx) (by rw [htype]; rfl)
  fs x hx htype := by
    obtain ⟨p, hp, hv⟩ := h.exists_parent (h.held_iff.1 hx)
      (by rw [htype]; rfl : x.xType.up = some .v)
    apply h.parent_xAll hp
    rw [hv, h.all_type, if_neg one_ne_zero]
  roots i := h.parent_eq_none (h.all_live i) (h.up_xAll i)
  held_parent hp := h.held_iff.2 (h.parent_live hp)
  chain x hx := h.getLast?_xChain (h.held_iff.1 hx) (Nat.lt_add_right _ (by decide))

end TreeOk

end XTree

/-! ## The tables -/

/-- The hash tables find what is in memory, count it, and hold nothing else. -/
structure Indexed {R : Type*} (σ : XState R) : Prop where
  /-- A type hashes exactly the nodes in memory of that type. -/
  mem_nodes : ∀ type x, x ∈ σ.nodes type ↔ σ.Held x ∧ x.xType = type
  names : ∀ type, ((σ.nodes type).map XNode.xName).Nodup
  chain : ∀ x, σ.Held x → x ∈
    (σ.xTypes x.xType).xHashTable.tTable ((σ.xTypes x.xType).xHashTable.slot x.xHash)
  lookup : ∀ x, σ.Held x → σ.xLookup x.xType x.xName = some x
  nr : ∀ type, (σ.xTypes type).xNr = (σ.nodes type).length
  pairs : (σ.kHashTable.toList.map kPair).Nodup
  kChain : ∀ k ∈ σ.kHashTable.toList, k ∈
    σ.kHashTable.tTable (σ.kHashTable.slot (kHash σ.kHashTable.tShift (kPair k)))
  kLookup : ∀ k ∈ σ.kHashTable.toList, σ.kLookup k.kX0 k.kX1 = some k
  sides : ∀ k ∈ σ.kHashTable.toList, k.kX0.which = 0 ∧ k.kX1.which = 1
  nr_k : σ.nrK = σ.kHashTable.toList.length

theorem StateOk.indexed {R : Type*} {σ : XState R} (h : StateOk σ) : Indexed σ where
  mem_nodes := h.tree.shape.hashed
  names type := (h.tree.keyed type).nodup_map_key
  chain x hx := by
    have hlive := h.tree.held_iff.1 hx
    rw [h.tree.hashed hlive]
    exact (h.tree.keyed x.xType).mem_chain hlive
  lookup x hx := h.tree.xLookup_eq_some.2 ⟨h.tree.held_iff.1 hx, rfl, rfl⟩
  nr := h.tree.nr
  pairs := h.pairs.keyed.nodup_map_key
  kChain _ hk := h.pairs.keyed.mem_chain hk
  kLookup _ hk := h.pairs.keyed.mem_toList.1 hk
  sides _ hk :=
    have hlookup := h.pairs.keyed.mem_toList.1 hk
    ⟨(h.pairs.consumer hlookup).2, (h.pairs.provider hlookup).2⟩
  nr_k := h.pairs.nr_k

/-! ## Reached states -/

section Reached

variable {R : Type*} [Field R] [LinearOrder R] [FloorRing R]
  {env : Env R} {cfg : Config R} {m₀ : Daemon R}

theorem reached_ok (hboot : Daemon.boot env cfg = some m₀) (events : List (Event R)) :
    DaemonOk (m₀.run env events) :=
  (run_steps (boot_grown hboot).ok events).2

/-- In every state the daemon reaches, the two trees have their shape. -/
theorem tree_shape (hboot : Daemon.boot env cfg = some m₀) (events : List (Event R)) :
    (m₀.run env events).toXTree.Shape :=
  (reached_ok hboot events).state.tree.shape

theorem tree_shape_sample :
    (sampleDaemon.run sampleEnv [sampleServMsg]).toXTree.Shape :=
  tree_shape boot_sample [sampleServMsg]

/-- In every state the daemon reaches, its tables are maps and their counters
are right. -/
theorem tables_indexed (hboot : Daemon.boot env cfg = some m₀)
    (events : List (Event R)) : Indexed (m₀.run env events).toXState :=
  (reached_ok hboot events).state.indexed

theorem tables_indexed_sample :
    Indexed (sampleDaemon.run sampleEnv [sampleServMsg]).toXState :=
  tables_indexed boot_sample [sampleServMsg]

end Reached

end Xltop.Master
