import Mathlib.Data.List.Nodup
import Mathlib.Data.List.Range
import Mathlib.Data.List.Perm.Basic
import Mathlib.Logic.Function.Basic

/-!
# Tables of chains

A table with chaining is a family of lists, the chains, and each element
belongs to the chain that its key selects.  New elements go to the head of
their chain; look-up, change and removal take the first element with the key.
This file says when such a table is a map from keys to elements, and how each
operation changes that map.
-/

namespace Xltop.Chains

open Function

variable {α κ : Type*}

/-- `f` applied to the first element that satisfies `p`. -/
def modifyFirst (p : α → Bool) (f : α → α) : List α → List α
  | [] => []
  | a :: rest => if p a then f a :: rest else a :: modifyFirst p f rest

theorem modifyFirst_map {β : Type*} {p : α → Bool} {f : α → α} {g : α → β}
    (hg : ∀ a, g (f a) = g a) (chain : List α) :
    (modifyFirst p f chain).map g = chain.map g := by
  induction chain with
  | nil => rfl
  | cons a rest ih =>
      simp only [modifyFirst]
      split
      · rw [List.map_cons, List.map_cons, hg]
      · rw [List.map_cons, List.map_cons, ih]

theorem length_modifyFirst (p : α → Bool) (f : α → α) (chain : List α) :
    (modifyFirst p f chain).length = chain.length := by
  induction chain with
  | nil => rfl
  | cons a rest ih =>
      simp only [modifyFirst]
      split
      · rfl
      · rw [List.length_cons, ih, List.length_cons]

theorem mem_modifyFirst {p : α → Bool} {f : α → α} {chain : List α} {a : α}
    (h : a ∈ modifyFirst p f chain) : a ∈ chain ∨ ∃ b ∈ chain, a = f b := by
  induction chain with
  | nil => exact .inl h
  | cons b rest ih =>
      simp only [modifyFirst] at h
      split at h
      · rcases List.mem_cons.1 h with rfl | h
        · exact .inr ⟨b, List.mem_cons_self, rfl⟩
        · exact .inl (List.mem_cons_of_mem _ h)
      · rcases List.mem_cons.1 h with rfl | h
        · exact .inl List.mem_cons_self
        · rcases ih h with h | ⟨c, hc, rfl⟩
          · exact .inl (List.mem_cons_of_mem _ h)
          · exact .inr ⟨c, List.mem_cons_of_mem _ hc, rfl⟩

/-- A chain for each index. -/
abbrev Table (α : Type*) := ℕ → List α

/-- The elements of the first `count` chains. -/
def entries (count : ℕ) (t : Table α) : List α :=
  (List.range count).flatMap t

theorem mem_entries {count : ℕ} {t : Table α} {a : α} :
    a ∈ entries count t ↔ ∃ i < count, a ∈ t i := by
  simp [entries]

def addHead (t : Table α) (i : ℕ) (a : α) : Table α :=
  update t i (a :: t i)

theorem mem_addHead {t : Table α} {i j : ℕ} {a b : α} :
    b ∈ addHead t i a j ↔ j = i ∧ b = a ∨ b ∈ t j := by
  rcases eq_or_ne j i with rfl | hj
  · simp [addHead]
  · simp [addHead, hj]

/-- Replacing one chain replaces its elements. -/
theorem entries_update {count i : ℕ} (hi : i < count) (t : Table α)
    (chain : List α) :
    ∃ others, (entries count t).Perm (t i ++ others) ∧
      (entries count (update t i chain)).Perm (chain ++ others) := by
  obtain ⟨before, after, hsplit⟩ := List.append_of_mem (List.mem_range.2 hi)
  have hnodup : (before ++ i :: after).Nodup := hsplit ▸ List.nodup_range
  have hbefore : ∀ j ∈ before, j ≠ i := fun j hj heq =>
    (List.nodup_append.1 hnodup).2.2 j hj i List.mem_cons_self heq
  have hafter : ∀ j ∈ after, j ≠ i := fun j hj heq =>
    (List.nodup_cons.1 (List.nodup_append.1 hnodup).2.1).1 (heq ▸ hj)
  have hsame : ∀ l : List ℕ, (∀ j ∈ l, j ≠ i) →
      l.flatMap (update t i chain) = l.flatMap t := fun l hl =>
    List.flatMap_congr fun j hj => update_of_ne (hl j hj) ..
  refine ⟨before.flatMap t ++ after.flatMap t, ?_, ?_⟩
  · rw [entries, hsplit, List.flatMap_append, List.flatMap_cons]
    exact List.perm_append_comm_assoc _ _ _
  · rw [entries, hsplit, List.flatMap_append, List.flatMap_cons,
      hsame before hbefore, hsame after hafter, update_self]
    exact List.perm_append_comm_assoc _ _ _

theorem entries_addHead {count i : ℕ} (hi : i < count) (t : Table α) (a : α) :
    (entries count (addHead t i a)).Perm (a :: entries count t) := by
  obtain ⟨others, hold, hnew⟩ := entries_update hi t (a :: t i)
  exact hnew.trans (hold.symm.cons a)

/-- Every element that satisfies `p` is taken out. -/
def remove (t : Table α) (p : α → Bool) : Table α :=
  fun i => (t i).filter fun a => !p a

theorem entries_remove (count : ℕ) (t : Table α) (p : α → Bool) :
    entries count (remove t p) = (entries count t).filter fun a => !p a :=
  List.filter_flatMap.symm

/-! ## Look-up by key -/

variable [DecidableEq κ] (key : α → κ) (index : κ → ℕ)

/-- The first element with key `k`. -/
def lookup (t : Table α) (k : κ) : Option α :=
  (t (index k)).find? fun a => key a = k

def modify (t : Table α) (k : κ) (f : α → α) : Table α :=
  update t (index k) (modifyFirst (fun a => key a = k) f (t (index k)))

def erase (t : Table α) (k : κ) : Table α :=
  update t (index k) ((t (index k)).eraseP fun a => key a = k)

theorem mem_modify {t : Table α} {k : κ} {f : α → α} {i : ℕ} {a : α}
    (h : a ∈ modify key index t k f i) : a ∈ t i ∨ ∃ b ∈ t i, a = f b := by
  rcases eq_or_ne i (index k) with rfl | hi
  · rw [modify, update_self] at h
    exact mem_modifyFirst h
  · rw [modify, update_of_ne hi] at h
    exact .inl h

theorem erase_sublist (t : Table α) (k : κ) (i : ℕ) :
    (erase key index t k i).Sublist (t i) := by
  rcases eq_or_ne i (index k) with rfl | hi
  · rw [erase, update_self]
    exact List.eraseP_sublist
  · rw [erase, update_of_ne hi]

variable {key index}

theorem lookup_key {t : Table α} {k : κ} {a : α}
    (h : lookup key index t k = some a) : key a = k := by
  have hfound : decide (key a = k) = true :=
    List.find?_some (p := fun b => decide (key b = k)) h
  exact of_decide_eq_true hfound

variable (index) in
theorem lookup_mem {t : Table α} {k : κ} {a : α}
    (h : lookup key index t k = some a) : a ∈ t (index k) :=
  List.mem_of_find?_eq_some h

theorem lookup_update_of_ne {t : Table α} {i : ℕ} {chain : List α} {k : κ}
    (h : index k ≠ i) :
    lookup key index (update t i chain) k = lookup key index t k := by
  rw [lookup, update_of_ne h, lookup]

variable (key index) in
theorem lookup_addHead (t : Table α) (a : α) (k : κ) :
    lookup key index (addHead t (index (key a)) a) k =
      if k = key a then some a else lookup key index t k := by
  by_cases hk : k = key a
  · subst hk
    simp [lookup, addHead]
  · rw [if_neg hk]
    by_cases hi : index k = index (key a)
    · have hne : ¬ key a = k := fun heq => hk heq.symm
      simp [lookup, addHead, hi, hne]
    · exact lookup_update_of_ne hi

theorem find?_modifyFirst {f : α → α} (hf : ∀ a, key (f a) = key a) (k k' : κ)
    (chain : List α) :
    (modifyFirst (fun a => key a = k) f chain).find? (fun a => key a = k') =
      if k' = k then (chain.find? fun a => key a = k).map f
      else chain.find? fun a => key a = k' := by
  induction chain with
  | nil => simp [modifyFirst]
  | cons a rest ih =>
      by_cases ha : key a = k
      · by_cases hk : k' = k
        · simp [modifyFirst, ha, hk, hf]
        · have hne : ¬ k = k' := fun heq => hk heq.symm
          simp [modifyFirst, ha, hk, hf, hne]
      · by_cases ha' : key a = k'
        · have hk : ¬ k' = k := fun heq => ha (ha'.trans heq)
          simp [modifyFirst, ha', hk]
        · simp only [modifyFirst, ha, decide_false, Bool.false_eq_true, if_false]
          rw [List.find?_cons_of_neg (by simpa using ha'), ih,
            List.find?_cons_of_neg (by simpa using ha),
            List.find?_cons_of_neg (by simpa using ha')]

variable (key index) in
theorem lookup_modify (t : Table α) {f : α → α} (hf : ∀ a, key (f a) = key a)
    (k k' : κ) :
    lookup key index (modify key index t k f) k' =
      if k' = k then (lookup key index t k).map f
      else lookup key index t k' := by
  by_cases hi : index k' = index k
  · rw [lookup, hi, modify, update_self, find?_modifyFirst hf]
    split
    · rfl
    · rw [lookup, hi]
  · have hk : k' ≠ k := fun heq => hi (heq ▸ rfl)
    rw [if_neg hk]
    exact lookup_update_of_ne hi

variable (index) in
/-- Removing a key removes its element and no other. -/
theorem entries_erase {count : ℕ} {k : κ} {a : α} (hi : index k < count)
    (ha : lookup key index t k = some a) :
    (entries count t).Perm (a :: entries count (Chains.erase key index t k)) := by
  obtain ⟨others, hold, hnew⟩ := entries_update hi t
    ((t (index k)).eraseP fun a => key a = k)
  obtain ⟨hkey, before, after, hsplit, hbefore⟩ := List.find?_eq_some_iff_append.1 ha
  have herase : (t (index k)).eraseP (fun a => key a = k) = before ++ after := by
    rw [hsplit, List.eraseP_append_right _ fun b hb => by simpa using hbefore b hb,
      List.eraseP_cons_of_pos (p := fun b => decide (key b = k)) hkey]
  have hmiddle : (t (index k)).Perm (a :: (before ++ after)) := by
    rw [hsplit]
    exact List.perm_middle
  refine hold.trans ((hmiddle.append_right others).trans ?_)
  rw [List.cons_append, ← herase]
  exact hnew.symm.cons a

variable (key index) in
theorem length_entries_modify {count : ℕ} {k : κ} (hi : index k < count)
    (t : Table α) (f : α → α) :
    (entries count (modify key index t k f)).length = (entries count t).length := by
  obtain ⟨others, hold, hnew⟩ := entries_update hi t
    (modifyFirst (fun a => key a = k) f (t (index k)))
  rw [modify, hnew.length_eq, hold.length_eq, List.length_append,
    List.length_append, length_modifyFirst]

variable (key index) in
/-- What a change leaves as it is can be read off the elements before it. -/
theorem map_entries_modify {β : Type*} (count : ℕ) (t : Table α) (k : κ) {f : α → α}
    {g : α → β} (hg : ∀ a, g (f a) = g a) :
    (entries count (modify key index t k f)).map g = (entries count t).map g := by
  simp only [entries, List.map_flatMap]
  apply List.flatMap_congr
  intro i _
  rcases eq_or_ne i (index k) with rfl | hi
  · rw [modify, update_self, modifyFirst_map hg]
  · rw [modify, update_of_ne hi]

/-! ## Tables that are maps -/

variable (key index)

/-- Every element is in the chain its key selects, and no key is there
twice. -/
structure Keyed (t : Table α) : Prop where
  placed : ∀ {i a}, a ∈ t i → index (key a) = i
  nodup : ∀ i, ((t i).map key).Nodup

variable {key index}

omit [DecidableEq κ] in
theorem keyed_empty : Keyed key index (fun _ => []) where
  placed h := absurd h List.not_mem_nil
  nodup _ := List.nodup_nil

theorem find?_eq_some_of_nodup {chain : List α} (h : (chain.map key).Nodup)
    {a : α} (ha : a ∈ chain) : (chain.find? fun b => key b = key a) = some a := by
  induction chain with
  | nil => exact absurd ha List.not_mem_nil
  | cons b rest ih =>
      obtain ⟨hfresh, hrest⟩ := List.nodup_cons.1 h
      rcases List.mem_cons.1 ha with rfl | ha
      · simp
      · have hne : ¬ key b = key a := fun heq =>
          hfresh (heq ▸ List.mem_map_of_mem ha)
        rw [List.find?_cons_of_neg (by simpa using hne)]
        exact ih hrest ha

theorem find?_eraseP {chain : List α} (h : (chain.map key).Nodup) (k k' : κ) :
    (chain.eraseP fun a => key a = k).find? (fun a => key a = k') =
      if k' = k then none else chain.find? fun a => key a = k' := by
  induction chain with
  | nil => simp
  | cons a rest ih =>
      obtain ⟨hfresh, hrest⟩ := List.nodup_cons.1 h
      by_cases ha : key a = k
      · rw [List.eraseP_cons_of_pos (by simpa using ha)]
        by_cases hk : k' = k
        · rw [if_pos hk, List.find?_eq_none]
          intro b hb
          have hne : key b ≠ k := fun heq =>
            hfresh (ha ▸ heq ▸ List.mem_map_of_mem hb)
          simpa [hk] using hne
        · have hne : ¬ key a = k' := fun heq => hk (heq.symm.trans ha)
          rw [if_neg hk, List.find?_cons_of_neg (by simpa using hne)]
      · rw [List.eraseP_cons_of_neg (by simpa using ha)]
        by_cases ha' : key a = k'
        · have hk : ¬ k' = k := fun heq => ha (ha'.trans heq)
          simp [ha', hk]
        · rw [List.find?_cons_of_neg (by simpa using ha'), ih hrest,
            List.find?_cons_of_neg (by simpa using ha')]

theorem find?_filter {chain : List α} (h : (chain.map key).Nodup) (p : α → Bool) (k : κ) :
    (chain.filter fun a => !p a).find? (fun a => key a = k) =
      (chain.find? fun a => key a = k).filter fun a => !p a := by
  induction chain with
  | nil => rfl
  | cons a rest ih =>
      obtain ⟨hfresh, hrest⟩ := List.nodup_cons.1 h
      by_cases ha : key a = k
      · rw [List.find?_cons_of_pos (by simpa using ha), Option.filter_some]
        by_cases hp : p a = true
        · rw [List.filter_cons_of_neg (by simp [hp]), hp, List.find?_eq_none.2]
          · rfl
          · intro b hb
            have hne : key b ≠ k := fun heq =>
              hfresh (ha ▸ heq ▸ List.mem_map_of_mem (List.mem_of_mem_filter hb))
            simpa using hne
        · rw [List.filter_cons_of_pos (by simp [hp]),
            List.find?_cons_of_pos (by simpa using ha), if_pos (by simp [hp])]
      · rw [List.find?_cons_of_neg (by simpa using ha), ← ih hrest, List.filter_cons]
        split
        · exact List.find?_cons_of_neg (by simpa using ha)
        · rfl

namespace Keyed

variable {t : Table α}

theorem lookup_of_mem (h : Keyed key index t) {i : ℕ} {a : α} (ha : a ∈ t i) :
    lookup key index t (key a) = some a := by
  rw [lookup, h.placed ha]
  exact find?_eq_some_of_nodup (h.nodup i) ha

theorem lookup_erase (h : Keyed key index t) (k k' : κ) :
    lookup key index (Chains.erase key index t k) k' =
      if k' = k then none else lookup key index t k' := by
  by_cases hi : index k' = index k
  · rw [lookup, hi, Chains.erase, update_self, find?_eraseP (h.nodup _)]
    split
    · rfl
    · rw [lookup, hi]
  · have hk : k' ≠ k := fun heq => hi (heq ▸ rfl)
    rw [if_neg hk]
    exact lookup_update_of_ne hi

theorem addHead (h : Keyed key index t) {a : α}
    (hfresh : lookup key index t (key a) = none) :
    Keyed key index (Chains.addHead t (index (key a)) a) where
  placed hb := by
    rcases mem_addHead.1 hb with ⟨rfl, rfl⟩ | hb
    · rfl
    · exact h.placed hb
  nodup i := by
    rcases eq_or_ne i (index (key a)) with rfl | hi
    · rw [Chains.addHead, update_self, List.map_cons, List.nodup_cons]
      refine ⟨fun hmem => ?_, h.nodup _⟩
      obtain ⟨b, hb, hkey⟩ := List.mem_map.1 hmem
      have hfound := h.lookup_of_mem hb
      rw [hkey, hfresh] at hfound
      cases hfound
    · rw [Chains.addHead, update_of_ne hi]
      exact h.nodup i

theorem modify (h : Keyed key index t) {f : α → α}
    (hf : ∀ a, key (f a) = key a) (k : κ) :
    Keyed key index (Chains.modify key index t k f) := by
  have hkeys : ∀ i, (Chains.modify key index t k f i).map key = (t i).map key := by
    intro i
    rcases eq_or_ne i (index k) with rfl | hi
    · rw [Chains.modify, update_self, modifyFirst_map hf]
    · rw [Chains.modify, update_of_ne hi]
  refine ⟨fun {i a} ha => ?_, fun i => hkeys i ▸ h.nodup i⟩
  obtain ⟨b, hb, hkey⟩ := List.mem_map.1 (hkeys i ▸ List.mem_map_of_mem (f := key) ha)
  rw [← hkey]
  exact h.placed hb

theorem erase (h : Keyed key index t) (k : κ) :
    Keyed key index (Chains.erase key index t k) := by
  have hsub := erase_sublist key index t k
  exact ⟨fun ha => h.placed ((hsub _).subset ha),
    fun i => (h.nodup i).sublist ((hsub i).map key)⟩

/-- What is found after a removal is what was found before, unless it is taken
out. -/
theorem lookup_remove (h : Keyed key index t) (p : α → Bool) (k : κ) :
    lookup key index (Chains.remove t p) k =
      (lookup key index t k).filter fun a => !p a :=
  find?_filter (h.nodup _) p k

omit [DecidableEq κ] in
theorem remove (h : Keyed key index t) (p : α → Bool) :
    Keyed key index (Chains.remove t p) where
  placed ha := h.placed (List.mem_of_mem_filter ha)
  nodup i := (h.nodup i).sublist (List.filter_sublist.map key)

omit [DecidableEq κ] in
/-- Only the keys of the elements matter. -/
theorem congr (h : Keyed key index t) {key' : α → κ}
    (hkey : ∀ i, ∀ a ∈ t i, key' a = key a) : Keyed key' index t where
  placed {i a} ha := by rw [hkey i a ha, h.placed ha]
  nodup i := by rw [List.map_congr_left (hkey i)]; exact h.nodup i

omit [DecidableEq κ] in
theorem entries_nodup (h : Keyed key index t) (count : ℕ) :
    (entries count t).Nodup := by
  refine List.nodup_flatMap.2 ⟨fun i _ => (h.nodup i).of_map key, ?_⟩
  refine List.nodup_range.imp fun {i j} hij => ?_
  intro a hi hj
  exact hij ((h.placed hi).symm.trans (h.placed hj))

end Keyed

end Xltop.Chains
