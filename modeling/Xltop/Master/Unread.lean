import Xltop.Library.Alike
import Xltop.Master.Grace
import Xltop.Rate.Unread

/-!
# The node state with and without reads

Two node states have the same trees and the same pairs, and each `k_node` of the
second is the copy that is not read of the `k_node` of the first.  Everything
that `x_node.c` does goes the same way in both of them, and what a walk brings up
to date in the first one makes no difference.
-/

namespace Xltop.Hash

open Xltop.Chains (Alike)

variable {α κ : Type*}

namespace HashTable

/-- Two tables with related elements in the same places. -/
structure Alike (r : α → α → Prop) (t t' : HashTable α) : Prop where
  tShift : t'.tShift = t.tShift
  chains : Chains.Alike r t.tTable t'.tTable

namespace Alike

variable {r s : α → α → Prop} {t t' : HashTable α}

theorem mono (h : t.Alike r t') (hmono : ∀ a b, r a b → s a b) : t.Alike s t' :=
  ⟨h.tShift, h.chains.mono hmono⟩

theorem slot_eq (h : t.Alike r t') : t'.slot = t.slot := by
  funext hash
  rw [HashTable.slot, HashTable.slot, h.tShift]

theorem addHead (h : t.Alike r t') (hash : UInt64) {a b : α} (hab : r a b) :
    (t.addHead hash a).Alike r (t'.addHead hash b) where
  tShift := h.tShift
  chains := by
    rw [HashTable.addHead, HashTable.addHead, h.slot_eq]
    exact h.chains.addHead _ hab

variable [DecidableEq κ] {key : α → κ} (hkey : ∀ a b, r a b → key a = key b) (hash : κ → UInt64)

include hkey

theorem lookup (h : t.Alike r t') (k : κ) :
    Option.Rel r (t.lookup key hash k) (t'.lookup key hash k) := by
  rw [HashTable.lookup, HashTable.lookup, h.slot_eq]
  exact h.chains.lookup hkey (fun k => t.slot (hash k)) k

theorem modify (h : t.Alike r t') (hmono : ∀ a b, r a b → s a b) (k : κ) {f g : α → α}
    (hfirst : ∀ a b, r a b → key a = k → s (f a) (g b)) :
    (t.modify key hash k f).Alike s (t'.modify key hash k g) where
  tShift := h.tShift
  chains := by
    rw [HashTable.modify, HashTable.modify, h.slot_eq]
    exact h.chains.modify hkey (fun k => t.slot (hash k)) hmono k hfirst

theorem erase (h : t.Alike r t') (k : κ) :
    (t.erase key hash k).Alike r (t'.erase key hash k) where
  tShift := h.tShift
  chains := by
    rw [HashTable.erase, HashTable.erase, h.slot_eq]
    exact h.chains.erase hkey (fun k => t.slot (hash k)) k

end Alike

theorem modify_addHead [DecidableEq κ] (key : α → κ) (hash : κ → UInt64) (t : HashTable α) (a : α)
    (f : α → α) : (t.addHead (hash (key a)) a).modify key hash (key a) f =
      t.addHead (hash (key a)) (f a) :=
  congrArg (HashTable.mk t.tShift)
    (Chains.modify_addHead key (fun k => t.slot (hash k)) t.tTable a f)

theorem modify_id [DecidableEq κ] (key : α → κ) (hash : κ → UInt64) (t : HashTable α) (k : κ) :
    t.modify key hash k id = t :=
  congrArg (HashTable.mk t.tShift) (Chains.modify_id key _ t.tTable k)

end HashTable

end Xltop.Hash

namespace Xltop.Master

open Xltop.Hash
open Xltop.Heap
open Xltop.Rate

variable {R : Type*} [Field R] [LinearOrder R] [FloorRing R]

namespace XState

/-- A node state, and its copy that is not read, as they stand at `now`. -/
structure Unread (c : KConf R) (kept : Fin nrStats → Prop) (now : R) (σ σ' : XState R) :
    Prop where
  tree : σ'.toXTree = σ.toXTree
  nr_k : σ'.nrK = σ.nrK
  table : σ.kHashTable.Alike (Rate.Unread c kept now) σ'.kHashTable

namespace Unread

variable {c : KConf R} {kept : Fin nrStats → Prop} {a now later : R} {σ σ' : XState R}

theorem pair_eq (k k' : KNode XNode R) (h : Rate.Unread c kept now k k') : kPair k = kPair k' :=
  Prod.ext h.kX0_eq h.kX1_eq

theorem mono (h : σ.Unread c kept now σ') (hlater : now ≤ later) :
    σ.Unread c kept later σ' :=
  ⟨h.tree, h.nr_k, h.table.mono fun _ _ hk => hk.mono hlater⟩

theorem kLookup (h : σ.Unread c kept now σ') (x0 x1 : XNode) :
    Option.Rel (Rate.Unread c kept now) (σ.kLookup x0 x1) (σ'.kLookup x0 x1) := by
  rw [XState.kLookup, XState.kLookup, h.table.tShift]
  exact h.table.lookup pair_eq _ (x0, x1)

/-- The trees change in both states. -/
theorem of_tree (h : σ.Unread c kept now σ') (t : XTree) :
    { σ with toXTree := t }.Unread c kept now { σ' with toXTree := t } :=
  ⟨rfl, h.nr_k, h.table⟩

theorem kModify (h : σ.Unread c kept now σ') (x0 x1 : XNode)
    {f g : KNode XNode R → KNode XNode R}
    (hfirst : ∀ k k', Rate.Unread c kept now k k' → Rate.Unread c kept now (f k) (g k')) :
    (σ.kModify x0 x1 f).Unread c kept now (σ'.kModify x0 x1 g) where
  tree := h.tree
  nr_k := h.nr_k
  table := by
    rw [XState.kModify, XState.kModify, h.table.tShift]
    exact h.table.modify pair_eq _ (fun _ _ => id) _ fun k k' hk _ => hfirst k k' hk

theorem kRemove (h : σ.Unread c kept now σ') (x0 x1 : XNode) :
    (σ.kRemove x0 x1).Unread c kept now (σ'.kRemove x0 x1) where
  tree := h.tree
  nr_k := congrArg (· - 1) h.nr_k
  table := by
    rw [XState.kRemove, XState.kRemove, h.table.tShift]
    exact h.table.erase pair_eq _ _

/-- A read of the first state only. -/
theorem freshen_left [IsStrictOrderedRing R] (h : σ.Unread c kept now σ') (hc : c.Decays a)
    (x0 x1 : XNode) :
    (σ.kModify x0 x1 fun k => kFreshen c k now).Unread c kept now σ' := by
  have hboth := h.kModify x0 x1 (f := fun k => kFreshen c k now) (g := id)
    fun k k' hk => hk.freshen_left hc
  rwa [XState.kModify.eq_def σ', HashTable.modify_id] at hboth

/-! ## x_update -/

theorem kTouch [IsStrictOrderedRing R] (h : σ.Unread c kept now σ') (hc : c.Decays a)
    (hpos : 0 < now) {d : Stats R} (hd : ∀ i, kept i → 0 ≤ d i) (i0 i1 : XNode) :
    (XState.kTouch c d now σ i0 i1).Unread c kept now (XState.kTouch c d now σ' i0 i1) := by
  have hold := h.kLookup i0 i1
  rw [XState.kTouch, XState.kTouch, kLookupCreate, kLookupCreate]
  cases hk : σ.kLookup i0 i1 with
  | some k =>
      cases hk' : σ'.kLookup i0 i1 with
      | none =>
          rw [hk, hk'] at hold
          cases hold
      | some k' => exact h.kModify i0 i1 fun k k' hk => hk.update hc hd
  | none =>
      cases hk' : σ'.kLookup i0 i1 with
      | some k' =>
          rw [hk, hk'] at hold
          cases hold
      | none =>
          by_cases hwhich : i0.which ≠ 0 ∨ i1.which ≠ 1
          · simp only [if_pos hwhich]
            exact h
          · have hnew : ∀ σ : XState R, (σ.kInsert i0 i1).kModify i0 i1
                (fun k => kUpdate c k d now) = { σ with
                  kHashTable := σ.kHashTable.addHead (kHash σ.kHashTable.tShift (i0, i1))
                    (kUpdate c (kInit i0 i1) d now)
                  nrK := σ.nrK + 1 } := fun σ =>
              congrArg (fun table => { σ with kHashTable := table, nrK := σ.nrK + 1 })
                (HashTable.modify_addHead kPair (kHash σ.kHashTable.tShift)
                  σ.kHashTable (kInit i0 i1) fun k => kUpdate c k d now)
            simp only [if_neg hwhich, hnew]
            refine ⟨h.tree, congrArg (· + 1) h.nr_k, ?_⟩
            rw [h.table.tShift]
            exact h.table.addHead _ (Rate.Unread.first i0 i1 hpos hd)

/-- The same loop in both states. -/
theorem foldl {β : Type*} {body : XState R → β → XState R}
    (hbody : ∀ σ σ' b, σ.Unread c kept now σ' → (body σ b).Unread c kept now (body σ' b))
    (l : List β) (h : σ.Unread c kept now σ') :
    (l.foldl body σ).Unread c kept now (l.foldl body σ') := by
  induction l generalizing σ σ' with
  | nil => exact h
  | cons b l ih => exact ih (hbody σ σ' b h)

theorem xUpdate [IsStrictOrderedRing R] (h : σ.Unread c kept now σ') (hc : c.Decays a)
    (hpos : 0 < now) {d : Stats R} (hd : ∀ i, kept i → 0 ≤ d i) (x0 x1 : XNode) :
    (σ.xUpdate c x0 x1 d now).Unread c kept now (σ'.xUpdate c x0 x1 d now) := by
  rw [xUpdate_eq, xUpdate_eq, h.tree]
  exact foldl (fun σ σ' i hi => hi.kTouch hc hpos hd i.1 i.2) _ h

/-! ## x_destroy -/

theorem kDestroy (h : σ.Unread c kept now σ') (fuel : ℕ) (x0 x1 : XNode) (which : Fin 2) :
    (kDestroy fuel σ x0 x1 which).Unread c kept now (XState.kDestroy fuel σ' x0 x1 which) := by
  induction fuel generalizing σ σ' x0 x1 with
  | zero => exact h
  | succ fuel ih =>
      have hold := h.kLookup x0 x1
      rw [XState.kDestroy, XState.kDestroy]
      cases hk : σ.kLookup x0 x1 with
      | none =>
          cases hk' : σ'.kLookup x0 x1 with
          | none => exact h
          | some k' =>
              rw [hk, hk'] at hold
              cases hold
      | some k =>
          cases hk' : σ'.kLookup x0 x1 with
          | none =>
              rw [hk, hk'] at hold
              cases hold
          | some k' =>
              have hremoved := h.kRemove x0 x1
              simp only
              rw [hremoved.tree]
              split
              · exact foldl (fun σ σ' child hs => ih hs x0 child) _ hremoved
              · exact foldl (fun σ σ' child hs => ih hs child x1) _ hremoved

theorem xDestroy (h : σ.Unread c kept now σ') (x : XNode) :
    (σ.xDestroy x).Unread c kept now (σ'.xDestroy x) := by
  rw [XState.xDestroy, XState.xDestroy, h.tree]
  split
  all_goals
    refine ⟨?_, (h.kDestroy nrXTypes _ _ _).nr_k, (h.kDestroy nrXTypes _ _ _).table⟩
    exact congrArg (fun t : XTree => t.xRemove x) (h.kDestroy nrXTypes _ _ _).tree

end Unread

end XState

end Xltop.Master
