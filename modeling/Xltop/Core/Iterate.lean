import Xltop.Core.Hash
import Xltop.Library.Cursor

/-!
# Iterating over a string table

`str_table_for_each` returns one entry a call.  Between calls the caller keeps
the index of a chain and the entry where to go on in it, NULL for the head of
the chain; a chain that comes to its end is left for the next one before the
call returns.
-/

namespace Xltop.Hash

open Xltop.Cursor
open Xltop.Text

variable {V : Type*}

/-- `str_table_for_each` at `*i` and `*n`: the entry whose key and value it
returns, or none when it returns 0, and `*i` and `*n` after the call. -/
def strTableForEach (t : StrTable V) (i : ℕ) (n : Option (StrTableEntry V)) :
    Option (StrTableEntry V) × ℕ × Option (StrTableEntry V) :=
  if i < 2 ^ t.tShift then
    match n.or (t.tTable i).head? with
    | some e =>
        let n := t.next StrTableEntry.eKey strHash e.eKey
        (some e, if n.isNone then i + 1 else i, n)
    | none => strTableForEach t (i + 1) none
  else (none, i, n)
termination_by 2 ^ t.tShift - i

/-! ## Positions -/

section Positions

variable (t : StrTable V)

/-- The entries of the chains from `i` on. -/
def entriesFrom (i : ℕ) : List (StrTableEntry V) :=
  (List.range' i (2 ^ t.tShift - i)).flatMap t.tTable

/-- The entries that are left at `*i` and `*n`. -/
def leftAt (p : ℕ × Option (StrTableEntry V)) : List (StrTableEntry V) :=
  match p.2 with
  | none => entriesFrom t p.1
  | some e => (t.tTable p.1).dropWhile (fun a => a.eKey ≠ e.eKey) ++ entriesFrom t (p.1 + 1)

/-- `*n` is NULL or an entry of the chain `*i`. -/
def ValidAt (p : ℕ × Option (StrTableEntry V)) : Prop :=
  ∀ e, p.2 = some e → e ∈ t.tTable p.1

variable {t} {i : ℕ}

theorem entriesFrom_zero : entriesFrom t 0 = t.toList := by
  rw [entriesFrom, Nat.sub_zero, ← List.range_eq_range']
  rfl

theorem entriesFrom_succ (hi : i < 2 ^ t.tShift) :
    entriesFrom t i = t.tTable i ++ entriesFrom t (i + 1) := by
  have hcount : 2 ^ t.tShift - i = 2 ^ t.tShift - (i + 1) + 1 := by omega
  rw [entriesFrom, hcount, List.range'_succ, List.flatMap_cons, entriesFrom]

theorem entriesFrom_end (hi : ¬ i < 2 ^ t.tShift) : entriesFrom t i = [] := by
  rw [entriesFrom, Nat.sub_eq_zero_of_le (Nat.le_of_not_lt hi)]
  rfl

variable (h : t.Keyed StrTableEntry.eKey strHash)

include h

/-- An entry is found again in its chain by its key. -/
theorem dropWhile_key {before after : List (StrTableEntry V)} {e : StrTableEntry V}
    (hchain : t.tTable i = before ++ e :: after) :
    (t.tTable i).dropWhile (fun a => a.eKey ≠ e.eKey) = e :: after := by
  have hnodup := h.chains.nodup i
  rw [hchain, List.map_append, List.map_cons] at hnodup
  rw [hchain, List.dropWhile_append_of_pos, List.dropWhile_cons_of_neg (by simp)]
  intro a ha
  have hne : a.eKey ≠ e.eKey :=
    (List.nodup_append.1 hnodup).2.2 _ (List.mem_map_of_mem ha) _ List.mem_cons_self
  simpa using hne

/-- Where a call that finds `e` leaves the caller. -/
theorem leftAt_next {before after : List (StrTableEntry V)} {e : StrTableEntry V}
    (hchain : t.tTable i = before ++ e :: after) :
    let n := t.next StrTableEntry.eKey strHash e.eKey
    let p := (if n.isNone then i + 1 else i, n)
    leftAt t p = after ++ entriesFrom t (i + 1) ∧ ValidAt t p := by
  intro n p
  have hplaced : t.slot (strHash e.eKey) = i :=
    h.chains.placed (by rw [hchain]; exact List.mem_append_right _ List.mem_cons_self)
  have hn : n = after.head? := by
    change ((t.tTable (t.slot (strHash e.eKey))).dropWhile _).tail.head? = _
    rw [hplaced, dropWhile_key h hchain, List.tail_cons]
  cases after with
  | nil =>
      have hp : p = (i + 1, none) := by simp only [p, hn]; rfl
      rw [hp]
      exact ⟨rfl, fun e he => by cases he⟩
  | cons c after =>
      have hp : p = (i, some c) := by simp only [p, hn]; rfl
      have hsplit : t.tTable i = (before ++ [e]) ++ c :: after := by
        rw [hchain, List.append_assoc]
        rfl
      rw [hp]
      refine ⟨?_, fun e' he => ?_⟩
      · change (t.tTable i).dropWhile _ ++ _ = _
        rw [dropWhile_key h hsplit]
      · obtain rfl : c = e' := Option.some.inj he
        change c ∈ t.tTable i
        rw [hsplit]
        exact List.mem_append_right _ List.mem_cons_self

/-- A call that finds an entry finds the first one that is left. -/
theorem exists_chain {n : Option (StrTableEntry V)} (hvalid : ValidAt t (i, n))
    (hi : i < 2 ^ t.tShift) {e : StrTableEntry V} (hfound : n.or (t.tTable i).head? = some e) :
    ∃ before after, t.tTable i = before ++ e :: after ∧
      leftAt t (i, n) = e :: (after ++ entriesFrom t (i + 1)) := by
  cases n with
  | none =>
      rw [Option.none_or] at hfound
      obtain ⟨after, hchain⟩ := List.head?_eq_some_iff.1 hfound
      refine ⟨[], after, hchain, ?_⟩
      change entriesFrom t i = _
      rw [entriesFrom_succ hi, hchain]
      rfl
  | some e' =>
      obtain rfl : e' = e := Option.some.inj hfound
      obtain ⟨before, after, hchain⟩ := List.append_of_mem (hvalid e' rfl)
      refine ⟨before, after, hchain, ?_⟩
      change (t.tTable i).dropWhile _ ++ _ = _
      rw [dropWhile_key h hchain]
      rfl

/-- A call returns the first entry that is left, and leaves the others. -/
theorem strTableForEach_spec {n : Option (StrTableEntry V)} (hvalid : ValidAt t (i, n)) :
    (strTableForEach t i n).1 = (leftAt t (i, n)).head? ∧
      leftAt t (strTableForEach t i n).2 = (leftAt t (i, n)).tail ∧
      ValidAt t (strTableForEach t i n).2 := by
  fun_induction strTableForEach t i n with
  | case1 i n hi e hfound n' =>
      obtain ⟨before, after, hchain, hleft⟩ := exists_chain h hvalid hi hfound
      obtain ⟨hnext, hvalid'⟩ := leftAt_next h hchain
      exact ⟨by rw [hleft]; rfl, by rw [hleft]; exact hnext, hvalid'⟩
  | case2 i n hi hnone ih =>
      obtain ⟨rfl, hempty⟩ := Option.or_eq_none_iff.1 hnone
      have hleft : leftAt t (i, none) = leftAt t (i + 1, none) := by
        change entriesFrom t i = entriesFrom t (i + 1)
        rw [entriesFrom_succ hi, List.head?_eq_none_iff.1 hempty]
        rfl
      rw [hleft]
      exact ih fun e he => by cases he
  | case3 i n hi =>
      have hn : n = none := Option.eq_none_iff_forall_ne_some.2 fun e he =>
        hi (h.bounded (hvalid e he))
      subst hn
      have hleft : leftAt t (i, none) = [] := entriesFrom_end hi
      rw [hleft]
      exact ⟨rfl, rfl, hvalid⟩

/-- The calls walk over all entries. -/
theorem strTableForEach_walks :
    Walks (fun p => strTableForEach t p.1 p.2) (ValidAt t) (leftAt t) where
  item hvalid := (strTableForEach_spec h hvalid).1
  left_next hvalid := (strTableForEach_spec h hvalid).2.1
  valid_next hvalid := (strTableForEach_spec h hvalid).2.2

/-- A loop that may go on for long enough sees all entries. -/
theorem handOut_strTableForEach {fuel : ℕ} (hfuel : t.toList.length ≤ fuel) :
    handOut (fun p => strTableForEach t p.1 p.2) fuel (0, none) = t.toList := by
  have hvalid : ValidAt t (0, none) := fun e he => by cases he
  have hall : leftAt t (0, none) = t.toList := entriesFrom_zero
  rw [(strTableForEach_walks h).handOut_eq hvalid, hall, List.take_of_length_le hfuel]

end Positions

/-! ## The table after calls of `str_table_set` -/

/-- The value of the last call for a key, none if there is none. -/
def lastSet {W : Type*} (sets : List (CString × W)) (key : CString) : Option W :=
  ((sets.filter fun s => s.1 = key).getLast?).map Prod.snd

theorem lastSet_concat {W : Type*} (sets : List (CString × W)) (set : CString × W)
    (key : CString) :
    lastSet (sets ++ [set]) key = if key = set.1 then some set.2 else lastSet sets key := by
  rw [lastSet, List.filter_append]
  split
  · next heq =>
      rw [List.filter_cons_of_pos (by simpa using heq.symm), List.filter_nil,
        List.getLast?_concat]
      rfl
  · next hne =>
      have hne' : ¬ set.1 = key := fun heq => hne heq.symm
      rw [List.filter_cons_of_neg (by simpa using hne'), List.filter_nil, List.append_nil]
      rfl

theorem mem_of_lastSet {W : Type*} {sets : List (CString × W)} {key : CString} {value : W}
    (h : lastSet sets key = some value) : (key, value) ∈ sets := by
  obtain ⟨⟨key', value'⟩, hlast, rfl⟩ := Option.map_eq_some_iff.1 h
  obtain ⟨hmem, hkey⟩ := List.mem_filter.1 (List.mem_of_getLast? hlast)
  rwa [← of_decide_eq_true hkey]

/-- The table that `hash_table_init` and calls of `str_table_set` leave. -/
def strTableOf (hint : UInt64) (sets : List (CString × Option V)) : StrTable V :=
  sets.foldl (fun t set => strTableStore t set.1 set.2) (hashTableInit hint)

theorem strTableOf_concat (hint : UInt64) (sets : List (CString × Option V))
    (set : CString × Option V) :
    strTableOf hint (sets ++ [set]) = strTableStore (strTableOf hint sets) set.1 set.2 := by
  rw [strTableOf, List.foldl_concat, strTableOf]

theorem keyed_strTableOf (hint : UInt64) (sets : List (CString × Option V)) :
    (strTableOf hint sets).Keyed StrTableEntry.eKey strHash := by
  induction sets using List.reverseRecOn with
  | nil => exact HashTable.keyed_init hint
  | append_singleton sets set ih =>
      rw [strTableOf_concat]
      exact keyed_strTableStore ih set.1 set.2

theorem lastSet_map {W W' : Type*} (f : W → W') (sets : List (CString × W)) (key : CString) :
    lastSet (sets.map fun set => (set.1, f set.2)) key = (lastSet sets key).map f := by
  rw [lastSet, lastSet, List.filter_map, List.getLast?_map, Option.map_map, Option.map_map]
  rfl

theorem strTableLookup_strTableOf (hint : UInt64) (sets : List (CString × Option V))
    (key : CString) :
    strTableLookup (strTableOf hint sets) key =
      (lastSet sets key).map fun value => ⟨key, value⟩ := by
  induction sets using List.reverseRecOn with
  | nil => rfl
  | append_singleton sets set ih =>
      rw [strTableOf_concat, strTableLookup_store, lastSet_concat]
      split
      · next heq => rw [heq, Option.map_some]
      · exact ih

theorem strTableRef_strTableOf (hint : UInt64) (sets : List (CString × Option V))
    (key : CString) : strTableRef (strTableOf hint sets) key = (lastSet sets key).join := by
  rw [strTableRef, strTableLookup_strTableOf]
  cases lastSet sets key <;> rfl

theorem mem_strTableOf (hint : UInt64) (sets : List (CString × Option V)) (key : CString)
    (value : Option V) :
    ⟨key, value⟩ ∈ (strTableOf hint sets).toList ↔ lastSet sets key = some value := by
  rw [(keyed_strTableOf hint sets).mem_toList, ← strTableLookup, strTableLookup_strTableOf]
  cases lastSet sets key with
  | none => exact iff_of_false (by simp) (by simp)
  | some value' => simp

/-- A string table is a map: `str_table_ref` returns the value that was set
last, and NULL for a key that was never set.  From `*i == 0` and `*n == NULL`
on, the calls of `str_table_for_each` return every key that was set, once, with
this value, and then 0. -/
theorem str_table_map (hint : UInt64) (sets : List (CString × Option V)) :
    let t := strTableOf hint sets
    (∀ key, strTableRef t key = (lastSet sets key).join) ∧
      ∃ es : List (StrTableEntry V), (es.map StrTableEntry.eKey).Nodup ∧
        (∀ key value, ⟨key, value⟩ ∈ es ↔ lastSet sets key = some value) ∧
        ∀ n, (strTableForEach t (after (fun p => strTableForEach t p.1 p.2) (0, none) n).1
          (after (fun p => strTableForEach t p.1 p.2) (0, none) n).2).1 = es[n]? := by
  intro t
  have hkeyed := keyed_strTableOf hint sets
  refine ⟨strTableRef_strTableOf hint sets, t.toList, hkeyed.nodup_map_key,
    mem_strTableOf hint sets, fun n => ?_⟩
  have hvalid : ValidAt t (0, none) := fun e he => by cases he
  have hall : leftAt t (0, none) = t.toList := entriesFrom_zero
  rw [← hall]
  exact (strTableForEach_walks hkeyed).item_after hvalid n

end Xltop.Hash
