import Xltop.Core.Text
import Xltop.Library.Chains
import Mathlib.Data.Nat.Bitwise

/-!
# Hash tables

A `struct hash_table` has `2 ^ t_shift` chains, and `hash & t_mask` selects
one.  The same tables hold the nodes of each type by name, the statistics by
pair of nodes, and the entries of a string table by key.
-/

namespace Xltop.Hash

open Function
open Xltop.Text
open Xltop.Chains (Table)

/-- `struct hash_table`; `t_mask` is determined by `t_shift`. -/
structure HashTable (α : Type*) where
  tShift : ℕ
  tTable : Table α

variable {α κ : Type*}

/-- `HASH_SHIFT_MIN` and `HASH_SHIFT_MAX`. -/
abbrev hashShiftMin : ℕ := 4
abbrev hashShiftMax : ℕ := 56

/-- The `while` loop of `hash_table_init`, at most `left` times. -/
def growShift (hint : UInt64) : ℕ → ℕ → ℕ
  | 0, shift => shift
  | left + 1, shift =>
      if 2 ^ shift < (2 * hint).toNat then growShift hint left (shift + 1)
      else shift

def hashTableInit (hint : UInt64) : HashTable α where
  tShift := growShift hint (hashShiftMax - hashShiftMin) hashShiftMin
  tTable := fun _ => []

/-- `str_hash`, which ignores its second argument. -/
def strHash (s : CString) : UInt64 :=
  s.foldl (fun (h : UInt64) c =>
    (h + (c.toUInt64 <<< (8 : UInt64)) + c.toUInt64) * 11) 0

def pairHash (h0 h1 : UInt64) (nrBits : ℕ) : UInt64 :=
  let golden : UInt64 := 0x9e37fffffffc0001
  let h := h0 + (h1 ^^^ golden)
  h ^^^ ((h ^^^ golden) >>> UInt64.ofNat nrBits)

namespace HashTable

/-- `hash & t_mask`. -/
def slot (t : HashTable α) (hash : UInt64) : ℕ :=
  hash.toNat &&& (2 ^ t.tShift - 1)

theorem slot_lt (t : HashTable α) (hash : UInt64) :
    t.slot hash < 2 ^ t.tShift := by
  rw [slot, Nat.and_two_pow_sub_one_eq_mod]
  exact Nat.mod_lt _ (Nat.two_pow_pos _)

/-- All elements of the table, chain by chain. -/
def toList (t : HashTable α) : List α :=
  Chains.entries (2 ^ t.tShift) t.tTable

def addHead (t : HashTable α) (hash : UInt64) (a : α) : HashTable α :=
  { t with tTable := Chains.addHead t.tTable (t.slot hash) a }

/-- `hlist_del` of the elements that satisfy `p`. -/
def remove (t : HashTable α) (p : α → Bool) : HashTable α :=
  { t with tTable := Chains.remove t.tTable p }

variable [DecidableEq κ] (key : α → κ) (hash : κ → UInt64)

/-- The first element of the chain of `k` that has key `k`. -/
def lookup (t : HashTable α) (k : κ) : Option α :=
  Chains.lookup key (fun k => t.slot (hash k)) t.tTable k

def modify (t : HashTable α) (k : κ) (f : α → α) : HashTable α :=
  { t with tTable := Chains.modify key (fun k => t.slot (hash k)) t.tTable k f }

/-- `hlist_del` of the element with key `k`. -/
def erase (t : HashTable α) (k : κ) : HashTable α :=
  { t with tTable := Chains.erase key (fun k => t.slot (hash k)) t.tTable k }

/-- `next` of the element with key `k`: the element behind it in its chain. -/
def next (t : HashTable α) (k : κ) : Option α :=
  ((t.tTable (t.slot (hash k))).dropWhile fun a => key a ≠ k).tail.head?

omit [DecidableEq κ] in
/-- The table is a map: its elements are where look-up searches for them, and
no two have the same key. -/
structure Keyed (t : HashTable α) : Prop where
  chains : Chains.Keyed key (fun k => t.slot (hash k)) t.tTable
  bounded : ∀ {i a}, a ∈ t.tTable i → i < 2 ^ t.tShift

variable {key hash} {t : HashTable α}

theorem lookup_key {k : κ} {a : α} (h : t.lookup key hash k = some a) :
    key a = k :=
  Chains.lookup_key h

theorem lookup_mem (t : HashTable α) {k : κ} {a : α}
    (h : t.lookup key hash k = some a) : a ∈ t.tTable (t.slot (hash k)) :=
  Chains.lookup_mem (fun k => t.slot (hash k)) h

theorem mem_toList_of_lookup {k : κ} {a : α} (h : t.lookup key hash k = some a) :
    a ∈ t.toList :=
  Chains.mem_entries.2 ⟨_, t.slot_lt _, t.lookup_mem h⟩

variable (key hash) in
theorem lookup_addHead (t : HashTable α) (a : α) (k : κ) :
    (t.addHead (hash (key a)) a).lookup key hash k =
      if k = key a then some a else t.lookup key hash k :=
  Chains.lookup_addHead key (fun k => t.slot (hash k)) t.tTable a k

variable (key hash) in
theorem lookup_modify (t : HashTable α) {f : α → α}
    (hf : ∀ a, key (f a) = key a) (k k' : κ) :
    (t.modify key hash k f).lookup key hash k' =
      if k' = k then (t.lookup key hash k).map f else t.lookup key hash k' :=
  Chains.lookup_modify key (fun k => t.slot (hash k)) t.tTable hf k k'

theorem toList_addHead (t : HashTable α) (a : α) (h : UInt64) :
    (t.addHead h a).toList.Perm (a :: t.toList) :=
  Chains.entries_addHead (t.slot_lt h) t.tTable a

variable (key hash) in
theorem length_toList_modify (t : HashTable α) (k : κ) (f : α → α) :
    (t.modify key hash k f).toList.length = t.toList.length :=
  Chains.length_entries_modify key (fun k => t.slot (hash k)) (t.slot_lt _)
    t.tTable f

variable (key hash) in
theorem map_toList_modify {β : Type*} (t : HashTable α) (k : κ) {f : α → α} {g : α → β}
    (hg : ∀ a, g (f a) = g a) :
    (t.modify key hash k f).toList.map g = t.toList.map g :=
  Chains.map_entries_modify key (fun k => t.slot (hash k)) _ t.tTable k hg

theorem toList_remove (t : HashTable α) (p : α → Bool) :
    (t.remove p).toList = t.toList.filter fun a => !p a :=
  Chains.entries_remove _ t.tTable p

variable (hash) in
/-- Behind a new element stands what was first in its chain. -/
theorem next_addHead (t : HashTable α) (a : α) :
    (t.addHead (hash (key a)) a).next key hash (key a) =
      (t.tTable (t.slot (hash (key a)))).head? := by
  have hchain : (t.addHead (hash (key a)) a).tTable (t.slot (hash (key a))) =
      a :: t.tTable (t.slot (hash (key a))) := update_self ..
  have hslot : (t.addHead (hash (key a)) a).slot (hash (key a)) =
      t.slot (hash (key a)) := rfl
  rw [next, hslot, hchain, List.dropWhile_cons_of_neg (by simp), List.tail_cons]

theorem mem_modify {k : κ} {f : α → α} {i : ℕ} {a : α}
    (h : a ∈ (t.modify key hash k f).tTable i) :
    a ∈ t.tTable i ∨ ∃ b ∈ t.tTable i, a = f b :=
  Chains.mem_modify key (fun k => t.slot (hash k)) h

theorem mem_of_mem_erase {k : κ} {i : ℕ} {a : α}
    (h : a ∈ (t.erase key hash k).tTable i) : a ∈ t.tTable i :=
  (Chains.erase_sublist key (fun k => t.slot (hash k)) t.tTable k i).subset h

@[simp]
theorem toList_init (hint : UInt64) : (hashTableInit hint : HashTable α).toList = [] := by
  rw [toList, List.eq_nil_iff_forall_not_mem]
  intro a ha
  obtain ⟨i, -, hmem⟩ := Chains.mem_entries.1 ha
  exact List.not_mem_nil hmem

theorem toList_erase {k : κ} {a : α}
    (ha : t.lookup key hash k = some a) :
    t.toList.Perm (a :: (t.erase key hash k).toList) :=
  Chains.entries_erase (fun k => t.slot (hash k)) (t.slot_lt _) ha

omit [DecidableEq κ] in
theorem keyed_init (hint : UInt64) :
    (hashTableInit hint : HashTable α).Keyed key hash where
  chains := Chains.keyed_empty
  bounded h := absurd h List.not_mem_nil

namespace Keyed

theorem mem_toList (h : t.Keyed key hash) {a : α} :
    a ∈ t.toList ↔ t.lookup key hash (key a) = some a := by
  rw [toList, Chains.mem_entries]
  constructor
  · rintro ⟨i, -, ha⟩
    exact h.chains.lookup_of_mem ha
  · intro ha
    exact ⟨_, t.slot_lt _, t.lookup_mem ha⟩

theorem lookup_mem (h : t.Keyed key hash) {k : κ} {a : α}
    (ha : t.lookup key hash k = some a) : a ∈ t.toList := by
  rw [h.mem_toList, lookup_key ha, ha]

omit [DecidableEq κ] in
theorem nodup_toList (h : t.Keyed key hash) : t.toList.Nodup :=
  h.chains.entries_nodup _

omit [DecidableEq κ] in
/-- An element is in the chain that its key selects. -/
theorem mem_chain (h : t.Keyed key hash) {a : α} (ha : a ∈ t.toList) :
    a ∈ t.tTable (t.slot (hash (key a))) := by
  obtain ⟨i, -, hmem⟩ := Chains.mem_entries.1 ha
  rwa [h.chains.placed hmem]

/-- No key is in an empty chain, and only then it is empty. -/
theorem head?_eq_none (h : t.Keyed key hash) (i : ℕ) :
    (t.tTable i).head? = none ↔ ∀ k, t.slot (hash k) = i → t.lookup key hash k = none := by
  rw [List.head?_eq_none_iff]
  constructor
  · rintro hempty k rfl
    exact List.find?_eq_none.2 fun a ha => absurd (hempty ▸ ha) List.not_mem_nil
  · intro hnone
    rw [List.eq_nil_iff_forall_not_mem]
    intro a ha
    have hfound := hnone (key a) (h.chains.placed ha)
    rw [lookup, h.chains.lookup_of_mem ha] at hfound
    cases hfound

theorem nodup_map_key (h : t.Keyed key hash) : (t.toList.map key).Nodup := by
  apply h.nodup_toList.map_on
  intro a ha b hb heq
  have hfound := h.mem_toList.1 ha
  rw [heq, h.mem_toList.1 hb] at hfound
  exact (Option.some.inj hfound).symm

/-- The elements with one key are the one that look-up finds. -/
theorem filter_key (h : t.Keyed key hash) (k : κ) :
    t.toList.filter (fun a => key a = k) = (t.lookup key hash k).toList := by
  cases ha : t.lookup key hash k with
  | none =>
      rw [Option.toList_none, List.filter_eq_nil_iff]
      intro a hmem hk
      rw [h.mem_toList, of_decide_eq_true hk, ha] at hmem
      cases hmem
  | some a =>
      rw [Option.toList_some, ← List.perm_singleton]
      apply (List.perm_ext_iff_of_nodup (h.nodup_toList.filter _) (List.nodup_singleton a)).2
      intro b
      rw [List.mem_filter, List.mem_singleton, decide_eq_true_iff, h.mem_toList]
      constructor
      · rintro ⟨hb, rfl⟩
        exact Option.some.inj (hb.symm.trans ha)
      · rintro rfl
        rw [lookup_key ha]
        exact ⟨ha, rfl⟩

/-- Look-up finds what a search through all elements finds. -/
theorem find?_toList (h : t.Keyed key hash) (k : κ) :
    (t.toList.find? fun a => key a = k) = t.lookup key hash k := by
  rw [← List.head?_filter, h.filter_key, Option.head?_toList]

omit [DecidableEq κ] in
/-- Only the keys of the elements matter. -/
theorem congr (h : t.Keyed key hash) {key' : α → κ}
    (hkey : ∀ a ∈ t.toList, key' a = key a) : t.Keyed key' hash where
  chains := h.chains.congr fun _ a ha =>
    hkey a (Chains.mem_entries.2 ⟨_, h.bounded ha, ha⟩)
  bounded := h.bounded

theorem lookup_erase (h : t.Keyed key hash) (k k' : κ) :
    (t.erase key hash k).lookup key hash k' =
      if k' = k then none else t.lookup key hash k' :=
  h.chains.lookup_erase k k'

theorem addHead (h : t.Keyed key hash) {a : α}
    (hfresh : t.lookup key hash (key a) = none) :
    (t.addHead (hash (key a)) a).Keyed key hash where
  chains := h.chains.addHead hfresh
  bounded hb := by
    rcases Chains.mem_addHead.1 hb with ⟨rfl, -⟩ | hb
    · exact t.slot_lt _
    · exact h.bounded hb

theorem modify (h : t.Keyed key hash) {f : α → α}
    (hf : ∀ a, key (f a) = key a) (k : κ) :
    (t.modify key hash k f).Keyed key hash := by
  have hchains := h.chains.modify hf k
  refine ⟨hchains, fun {i a} ha => ?_⟩
  rw [← hchains.placed ha]
  exact t.slot_lt _

theorem erase (h : t.Keyed key hash) (k : κ) :
    (t.erase key hash k).Keyed key hash := by
  have hchains := h.chains.erase k
  refine ⟨hchains, fun {i a} ha => ?_⟩
  rw [← hchains.placed ha]
  exact t.slot_lt _

theorem lookup_remove (h : t.Keyed key hash) (p : α → Bool) (k : κ) :
    (t.remove p).lookup key hash k = (t.lookup key hash k).filter fun a => !p a :=
  h.chains.lookup_remove p k

omit [DecidableEq κ] in
theorem remove (h : t.Keyed key hash) (p : α → Bool) : (t.remove p).Keyed key hash where
  chains := h.chains.remove p
  bounded ha := h.bounded (List.mem_of_mem_filter ha)

end Keyed

end HashTable

/-! ## String tables -/

/-- A `struct str_table_entry`; `eValue` is `none` for NULL. -/
structure StrTableEntry (V : Type*) where
  eKey : CString
  eValue : Option V

abbrev StrTable (V : Type*) := HashTable (StrTableEntry V)

variable {V : Type*}

def strTableLookup (t : StrTable V) (key : CString) : Option (StrTableEntry V) :=
  t.lookup StrTableEntry.eKey strHash key

/-- `str_table_lookup` with `L_CREATE`, as far as the table goes. -/
def strTableCreate (t : StrTable V) (key : CString) : StrTable V :=
  match strTableLookup t key with
  | some _ => t
  | none => t.addHead (strHash key) ⟨key, none⟩

/-- The assignment `e->e_value = value` to the entry of `key`. -/
def strTableAssign (t : StrTable V) (key : CString) (value : V) : StrTable V :=
  t.modify StrTableEntry.eKey strHash key fun e => { e with eValue := some value }

def strTableSet (t : StrTable V) (key : CString) (value : V) : StrTable V :=
  strTableAssign (strTableCreate t key) key value

/-- `str_table_set` with a value that may be NULL. -/
def strTableStore (t : StrTable V) (key : CString) (value : Option V) : StrTable V :=
  (strTableCreate t key).modify StrTableEntry.eKey strHash key fun e =>
    { e with eValue := value }

theorem strTableStore_some (t : StrTable V) (key : CString) (value : V) :
    strTableStore t key (some value) = strTableSet t key value := rfl

def strTableRef (t : StrTable V) (key : CString) : Option V :=
  (strTableLookup t key).bind StrTableEntry.eValue

theorem strTableLookup_create (t : StrTable V) (key key' : CString) :
    strTableLookup (strTableCreate t key) key' =
      if key' = key then some ((strTableLookup t key).getD ⟨key, none⟩)
      else strTableLookup t key' := by
  rw [strTableCreate]
  split
  · next e hfound =>
      rw [hfound]
      split
      · next heq => rw [heq, hfound, Option.getD_some]
      · rfl
  · next hnone =>
      rw [hnone, Option.getD_none]
      exact HashTable.lookup_addHead StrTableEntry.eKey strHash t ⟨key, none⟩ key'

theorem strTableLookup_store (t : StrTable V) (key key' : CString) (value : Option V) :
    strTableLookup (strTableStore t key value) key' =
      if key' = key then some ⟨key, value⟩ else strTableLookup t key' := by
  have hmodify := HashTable.lookup_modify StrTableEntry.eKey strHash (strTableCreate t key)
    (f := fun e => { e with eValue := value }) (fun _ => rfl) key key'
  rw [strTableLookup, strTableStore, hmodify]
  split
  · have hcreate := strTableLookup_create t key key
    rw [if_pos rfl] at hcreate
    rw [← strTableLookup, hcreate, Option.map_some]
    cases hfound : strTableLookup t key with
    | none => rfl
    | some e =>
        have hkey : e.eKey = key := HashTable.lookup_key hfound
        rw [Option.getD_some, hkey]
  · next hne =>
      have hcreate := strTableLookup_create t key key'
      rw [if_neg hne] at hcreate
      exact hcreate

theorem strTableRef_set (t : StrTable V) (key key' : CString) (value : V) :
    strTableRef (strTableSet t key value) key' =
      if key' = key then some value else strTableRef t key' := by
  rw [strTableRef, ← strTableStore_some, strTableLookup_store]
  split
  · rfl
  · rfl

theorem strTableRef_erase {t : StrTable V} (h : t.Keyed StrTableEntry.eKey strHash)
    {key : CString} (hnone : strTableRef t key = none) (key' : CString) :
    strTableRef (t.erase StrTableEntry.eKey strHash key) key' = strTableRef t key' := by
  rw [strTableRef, strTableLookup, h.lookup_erase]
  split
  · next heq => rw [heq, hnone, Option.bind_none]
  · rfl

theorem keyed_strTableCreate {t : StrTable V} (h : t.Keyed StrTableEntry.eKey strHash)
    (key : CString) : (strTableCreate t key).Keyed StrTableEntry.eKey strHash := by
  rw [strTableCreate]
  split
  · exact h
  · next hnone => exact h.addHead (a := ⟨key, none⟩) hnone

theorem keyed_strTableStore {t : StrTable V} (h : t.Keyed StrTableEntry.eKey strHash)
    (key : CString) (value : Option V) :
    (strTableStore t key value).Keyed StrTableEntry.eKey strHash := by
  have hkey : ∀ e : StrTableEntry V,
      StrTableEntry.eKey { e with eValue := value } = e.eKey := fun _ => rfl
  exact (keyed_strTableCreate h key).modify hkey key

theorem keyed_strTableSet {t : StrTable V} (h : t.Keyed StrTableEntry.eKey strHash)
    (key : CString) (value : V) :
    (strTableSet t key value).Keyed StrTableEntry.eKey strHash :=
  keyed_strTableStore h key (some value)

/-- All values of the table satisfy `P`. -/
def StrTable.Forall (P : V → Prop) (t : StrTable V) : Prop :=
  ∀ ⦃i e v⦄, e ∈ t.tTable i → e.eValue = some v → P v

namespace StrTable.Forall

variable {P : V → Prop} {t : StrTable V}

theorem init (hint : UInt64) : StrTable.Forall P (hashTableInit hint) :=
  fun _ _ _ he => absurd he List.not_mem_nil

theorem mono {Q : V → Prop} (h : t.Forall P) (hPQ : ∀ v, P v → Q v) : t.Forall Q :=
  fun _ _ v he hv => hPQ v (h he hv)

theorem of_ref (h : t.Forall P) {key : CString} {v : V}
    (hv : strTableRef t key = some v) : P v := by
  obtain ⟨e, he, hev⟩ := Option.bind_eq_some_iff.1 hv
  exact h (t.lookup_mem he) hev

theorem create (h : t.Forall P) (key : CString) :
    StrTable.Forall P (strTableCreate t key) := by
  rw [strTableCreate]
  split
  · exact h
  · intro i e v he hv
    rcases Chains.mem_addHead.1 he with ⟨-, rfl⟩ | he
    · cases hv
    · exact h he hv

theorem assign (h : t.Forall P) (key : CString) {v : V} (hv : P v) :
    StrTable.Forall P (strTableAssign t key v) := by
  intro i e w he hw
  rcases HashTable.mem_modify he with he | ⟨e', -, rfl⟩
  · exact h he hw
  · exact Option.some.inj hw ▸ hv

theorem set (h : t.Forall P) (key : CString) {v : V} (hv : P v) :
    StrTable.Forall P (strTableSet t key v) :=
  (h.create key).assign key hv

theorem erase (h : t.Forall P) (key : CString) :
    StrTable.Forall P (t.erase StrTableEntry.eKey strHash key) :=
  fun _ _ _ he => h (HashTable.mem_of_mem_erase he)

end StrTable.Forall

end Xltop.Hash
