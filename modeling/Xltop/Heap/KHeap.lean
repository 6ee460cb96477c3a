import Xltop.Core.Text
import Xltop.Library.BinaryHeap
import Xltop.Rate.KNode

/-!
# The heap of a top query

`k_heap_add` keeps the greatest nodes seen so far in a binary min-heap of at
most `h_limit` entries, and `k_heap_order` turns the heap into an array that
does not increase.  The order is `k_top_cmp`: the fields of `t_spec` one after
the other, up to the first entry that is no offset into a `k_node`.
-/

namespace Xltop.Heap

open Function
open Xltop.BinaryHeap
open Xltop.Text
open Xltop.Rate

/-- A `struct k_heap`; `hK` is the array `h_k`, of which the first `hCount`
entries are in use. -/
structure KHeap (α : Type*) where
  hK : ℕ → α
  hCount : ℕ
  hLimit : ℕ

variable {α : Type*} (cmp : α → α → ℤ)

def kHeapInit [Inhabited α] (limit : ℕ) : KHeap α where
  hK := fun _ => default
  hCount := 0
  hLimit := limit

def kHeapAddFull (h : KHeap α) (k : α) : KHeap α :=
  if cmp k (h.hK 0) ≤ 0 then h
  else { h with hK := siftDown cmp h.hCount k h.hK 0 }

def kHeapAdd (h : KHeap α) (k : α) : KHeap α :=
  if h.hLimit = 0 then h
  else if h.hCount = h.hLimit then kHeapAddFull cmp h k
  else { h with
    hK := siftUp cmp k h.hK h.hCount
    hCount := h.hCount + 1 }

/-- The `while (n > 0)` loop of `k_heap_order`: the root goes to the end and
the last entry is sifted down in what is left. -/
def kHeapOrderLoop : ℕ → (ℕ → α) → (ℕ → α)
  | 0, slots => slots
  | n + 1, slots =>
      kHeapOrderLoop n (siftDown cmp n (slots n) (update slots n (slots 0)) 0)

def kHeapOrder (h : KHeap α) : KHeap α :=
  { h with hK := kHeapOrderLoop cmp h.hCount h.hK }

/-- `h_k[0]` to `h_k[h_count - 1]`. -/
def kHeapArray (h : KHeap α) : List α :=
  (List.range h.hCount).map h.hK

/-! ## The sort specification -/

/-- The fields of a `k_node` that an entry of `t_spec` can be the offset of. -/
inductive KField where
  | pending (i : Fin nrStats)
  | rate (i : Fin nrStats)
  | sum (i : Fin nrStats)
  | t
  deriving DecidableEq, Repr

/-- The `double` at that offset. -/
def KField.read {X R : Type*} (k : KNode X R) : KField → R
  | pending i => k.kPending i
  | rate i => k.kRate i
  | sum i => k.kSum i
  | t => k.kT

/-- `T_SPEC_LEN`. -/
abbrev tSpecLen : ℕ := 3 * nrStats + 1

/-- `t_spec`; `none` stands for the offset `-1`. -/
abbrev TSpec := Fin tSpecLen → Option KField

/-- `k_top_spec_init`: rates, sums, pending amounts, then the time stamp. -/
def kTopSpecInit : TSpec := fun i =>
  ((List.finRange nrStats).map KField.rate ++
    (List.finRange nrStats).map KField.sum ++
    (List.finRange nrStats).map KField.pending ++ [KField.t])[i]?

/-- One sort key of `q_k_top_parse`, a letter and an index.  On an empty key
the source calls `atoi` past the NUL, but fails on the letter whatever that
returns. -/
def sortKey (u : CString) : Option KField :=
  if h : atoiSize u.tail < nrStats then
    match u.head? with
    | some 112 => some (.pending ⟨atoiSize u.tail, h⟩)
    | some 114 => some (.rate ⟨atoiSize u.tail, h⟩)
    | some 115 => some (.sum ⟨atoiSize u.tail, h⟩)
    | some 116 => some .t
    | _ => none
  else none

/-- The `while (n < T_SPEC_LEN && s != NULL)` loop, with `left` entries left. -/
def sortKeys : ℕ → Option CString → Option (List KField × Option CString)
  | 0, s => some ([], s)
  | _, none => some ([], none)
  | left + 1, some s =>
      match strsep (· == 44) (some s) with
      | (none, _) => none
      | (some u, rest) =>
          match sortKey u, sortKeys left rest with
          | some field, some (fields, s') => some (field :: fields, s')
          | _, _ => none

/-- `q_k_top_parse`; `none` when it returns `-1`. -/
def qKTopParse (s : CString) : Option TSpec :=
  match sortKeys tSpecLen (some s) with
  | some (fields, none) => some fun i => fields[i]?
  | _ => none

variable {X R : Type*} [LinearOrder R]

/-- The loop of `k_top_cmp` over the entries of `t_spec` from some index on. -/
def kTopCmpFrom (k0 k1 : KNode X R) : List (Option KField) → ℤ
  | [] => 0
  | none :: _ => 0
  | some field :: rest =>
      if field.read k0 < field.read k1 then -1
      else if field.read k1 < field.read k0 then 1
      else kTopCmpFrom k0 k1 rest

def kTopCmp (spec : TSpec) (k0 k1 : KNode X R) : ℤ :=
  kTopCmpFrom k0 k1 (List.ofFn spec)

example : (qKTopParse (lit "s1,r0")).map List.ofFn =
    some ([some (.sum 1), some (.rate 0)] ++ List.replicate 8 none) := by
  decide +kernel

/-- `k_top_cmp` compares lexicographically, so it is a total preorder for any
sort specification. -/
theorem kTopCmpFrom_comparison (fields : List (Option KField)) :
    Comparison fun k0 k1 : KNode X R => kTopCmpFrom k0 k1 fields := by
  induction fields with
  | nil => exact ⟨fun _ _ => by simp [kTopCmpFrom], fun _ _ => by simp [kTopCmpFrom]⟩
  | cons entry rest ih =>
      cases entry with
      | none =>
          exact ⟨fun _ _ => by simp [kTopCmpFrom], fun _ _ => by simp [kTopCmpFrom]⟩
      | some field =>
          constructor
          · intro k0 k1
            have hrest := ih.neg_iff k0 k1
            rcases lt_trichotomy (field.read k0) (field.read k1) with h | h | h
            · simp [kTopCmpFrom, h, h.not_gt]
            · simpa [kTopCmpFrom, h] using hrest
            · simp [kTopCmpFrom, h, h.not_gt]
          · intro k0 k1 k2 h01 h12
            have hle : ∀ {a b : KNode X R},
                kTopCmpFrom a b (some field :: rest) ≤ 0 →
                  field.read a < field.read b ∨
                    field.read a = field.read b ∧ kTopCmpFrom a b rest ≤ 0 := by
              intro a b hab
              rcases lt_trichotomy (field.read a) (field.read b) with h | h | h
              · exact .inl h
              · exact .inr ⟨h, by simpa [kTopCmpFrom, h] using hab⟩
              · simp [kTopCmpFrom, h, h.not_gt] at hab
            have hresult : field.read k0 < field.read k2 ∨
                field.read k0 = field.read k2 ∧ kTopCmpFrom k0 k2 rest ≤ 0 := by
              rcases hle h01 with hlt | ⟨heq, hrest⟩
              · rcases hle h12 with hlt' | ⟨heq', -⟩
                · exact .inl (hlt.trans hlt')
                · exact .inl (heq' ▸ hlt)
              · rcases hle h12 with hlt' | ⟨heq', hrest'⟩
                · exact .inl (heq ▸ hlt')
                · exact .inr ⟨heq.trans heq', ih.trans hrest hrest'⟩
            rcases hresult with hlt | ⟨heq, hrest⟩
            · simp [kTopCmpFrom, hlt]
            · simpa [kTopCmpFrom, heq] using hrest

theorem kTopCmp_comparison (spec : TSpec) :
    Comparison (kTopCmp spec : KNode X R → KNode X R → ℤ) :=
  kTopCmpFrom_comparison (List.ofFn spec)

end Xltop.Heap
