import Xltop.Master.Ancestors
import Xltop.Rate.KNode
import Mathlib.Data.List.ProdSigma

/-!
# Statistics by pair of nodes

`k_hash_table` holds a `k_node` for pairs of a consumer and a provider.  One
message creates or updates the statistics of every pair of ancestors.  A node
that goes takes its statistics along, which `k_destroy` finds by walking down
the other tree.  No subscription is ever created, so the lists of `sub_node`
are left out.
-/

namespace Xltop.Master

open Function
open Xltop.Hash
open Xltop.Rate

/-- `k_x`, which identifies a `k_node`. -/
def kPair {R : Type*} (k : KNode XNode R) : XNode × XNode := (k.kX0, k.kX1)

def kHash (nrBits : ℕ) (pair : XNode × XNode) : UInt64 :=
  pairHash pair.1.xHash pair.2.xHash nrBits

/-- The state of `x_node.c`. -/
structure XState (R : Type*) extends XTree where
  kHashTable : HashTable (KNode XNode R)
  nrK : ℕ

namespace XState

variable {R : Type*} [Field R] [LinearOrder R] [FloorRing R]

omit [Field R] [LinearOrder R] [FloorRing R] in
/-- `k_lookup` without `L_CREATE`. -/
def kLookup (σ : XState R) (x0 x1 : XNode) : Option (KNode XNode R) :=
  σ.kHashTable.lookup kPair (kHash σ.kHashTable.tShift) (x0, x1)

/-- The end of `k_lookup`: a new node at the head of its chain. -/
def kInsert (σ : XState R) (x0 x1 : XNode) : XState R :=
  { σ with
    kHashTable := σ.kHashTable.addHead
      (kHash σ.kHashTable.tShift (x0, x1)) (kInit x0 x1)
    nrK := σ.nrK + 1 }

/-- `k_lookup` with `L_CREATE`; it returns NULL for a pair the wrong way
round. -/
def kLookupCreate (σ : XState R) (x0 x1 : XNode) :
    Option (KNode XNode R) × XState R :=
  match σ.kLookup x0 x1 with
  | some k => (some k, σ)
  | none =>
      if x0.which ≠ 0 ∨ x1.which ≠ 1 then (none, σ)
      else (some (kInit x0 x1), σ.kInsert x0 x1)

omit [Field R] [LinearOrder R] [FloorRing R] in
/-- A write through the pointer that `k_lookup(x0, x1)` returned. -/
def kModify (σ : XState R) (x0 x1 : XNode) (f : KNode XNode R → KNode XNode R) :
    XState R :=
  { σ with
    kHashTable :=
      σ.kHashTable.modify kPair (kHash σ.kHashTable.tShift) (x0, x1) f }

omit [Field R] [LinearOrder R] [FloorRing R] in
/-- `hlist_del(&k->k_hash_node)`, `free(k)` and `nr_k--`. -/
def kRemove (σ : XState R) (x0 x1 : XNode) : XState R :=
  { σ with
    kHashTable := σ.kHashTable.erase kPair (kHash σ.kHashTable.tShift) (x0, x1)
    nrK := σ.nrK - 1 }

/-- The body of the loops of `x_update`. -/
def kTouch (c : KConf R) (d : Stats R) (now : R) (σ : XState R) (i0 i1 : XNode) :
    XState R :=
  match σ.kLookupCreate i0 i1 with
  | (none, σ) => σ
  | (some _, σ) => σ.kModify i0 i1 fun k => kUpdate c k d now

def xUpdate (c : KConf R) (σ : XState R) (x0 x1 : XNode) (d : Stats R) (now : R) :
    XState R :=
  (σ.xChain nrXTypes (some x0)).foldl (fun σ i0 =>
    (σ.xChain nrXTypes (some x1)).foldl (fun σ i1 => kTouch c d now σ i0 i1) σ) σ

omit [Field R] [LinearOrder R] [FloorRing R] in
/-- `k_destroy`, to a depth of `fuel` calls. -/
def kDestroy : ℕ → XState R → XNode → XNode → Fin 2 → XState R
  | 0, σ, _, _, _ => σ
  | fuel + 1, σ, x0, x1, which =>
      match σ.kLookup x0 x1 with
      | none => σ
      | some _ =>
          let σ := σ.kRemove x0 x1
          if which = 0 then
            (σ.children x1).foldl (fun σ c => kDestroy fuel σ x0 c which) σ
          else
            (σ.children x0).foldl (fun σ c => kDestroy fuel σ c x1 which) σ

omit [Field R] [LinearOrder R] [FloorRing R] in
def xDestroy (σ : XState R) (x : XNode) : XState R :=
  let σ :=
    if x.which = 0 then kDestroy nrXTypes σ x (σ.xAll 1) 0
    else kDestroy nrXTypes σ (σ.xAll 0) x 1
  { σ with toXTree := σ.xRemove x }

/-! ## The table as a map -/

section Map

omit [Field R] [LinearOrder R] [FloorRing R]

/-- The table finds its nodes, and counts them. -/
structure TableOk (σ : XState R) : Prop where
  keyed : σ.kHashTable.Keyed kPair (kHash σ.kHashTable.tShift)
  nr_k : σ.nrK = σ.kHashTable.toList.length

variable {σ : XState R}

theorem kLookup_congr {σ' : XState R} (h : σ'.kHashTable = σ.kHashTable)
    (x0 x1 : XNode) : σ'.kLookup x0 x1 = σ.kLookup x0 x1 := by
  rw [kLookup, kLookup, h]

theorem kLookup_kModify {f : KNode XNode R → KNode XNode R}
    (hf : ∀ k, kPair (f k) = kPair k) (x0 x1 y0 y1 : XNode) :
    (σ.kModify x0 x1 f).kLookup y0 y1 =
      if y0 = x0 ∧ y1 = x1 then (σ.kLookup x0 x1).map f
      else σ.kLookup y0 y1 := by
  have hlookup := HashTable.lookup_modify kPair (kHash σ.kHashTable.tShift)
    σ.kHashTable hf (x0, x1) (y0, y1)
  simp only [Prod.mk.injEq] at hlookup
  exact hlookup

theorem TableOk.kModify (h : σ.TableOk) {f : KNode XNode R → KNode XNode R}
    (hf : ∀ k, kPair (f k) = kPair k) (x0 x1 : XNode) :
    (σ.kModify x0 x1 f).TableOk where
  keyed := h.keyed.modify hf (x0, x1)
  nr_k := h.nr_k.trans (HashTable.length_toList_modify ..).symm

theorem TableOk.kLookup_kRemove (h : σ.TableOk) (x0 x1 y0 y1 : XNode) :
    (σ.kRemove x0 x1).kLookup y0 y1 =
      if y0 = x0 ∧ y1 = x1 then none else σ.kLookup y0 y1 := by
  have hlookup := h.keyed.lookup_erase (x0, x1) (y0, y1)
  simp only [Prod.mk.injEq] at hlookup
  exact hlookup

theorem TableOk.kRemove (h : σ.TableOk) {x0 x1 : XNode} {k : KNode XNode R}
    (hk : σ.kLookup x0 x1 = some k) : (σ.kRemove x0 x1).TableOk where
  keyed := h.keyed.erase (x0, x1)
  nr_k := by
    have hperm := HashTable.toList_erase hk
    have hlength := hperm.length_eq
    rw [List.length_cons, ← h.nr_k] at hlength
    exact Nat.sub_eq_of_eq_add hlength

end Map

omit [LinearOrder R] [FloorRing R] in
theorem kLookup_kInsert (σ : XState R) (x0 x1 y0 y1 : XNode) :
    (σ.kInsert x0 x1).kLookup y0 y1 =
      if y0 = x0 ∧ y1 = x1 then some (kInit x0 x1) else σ.kLookup y0 y1 := by
  have hlookup := HashTable.lookup_addHead kPair (kHash σ.kHashTable.tShift)
    σ.kHashTable (kInit x0 x1) (y0, y1)
  simp only [kPair, Prod.mk.injEq] at hlookup
  exact hlookup

omit [LinearOrder R] [FloorRing R] in
theorem TableOk.kInsert {σ : XState R} (h : σ.TableOk) {x0 x1 : XNode}
    (hnone : σ.kLookup x0 x1 = none) : (σ.kInsert x0 x1).TableOk where
  keyed := h.keyed.addHead (a := kInit x0 x1) hnone
  nr_k := by
    have hlength := (HashTable.toList_addHead σ.kHashTable
      (kInit x0 x1 : KNode XNode R)
      (kHash σ.kHashTable.tShift (x0, x1))).length_eq
    rw [List.length_cons, ← h.nr_k] at hlength
    exact hlength.symm

end XState

end Xltop.Master
