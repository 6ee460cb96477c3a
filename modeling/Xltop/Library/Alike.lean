import Xltop.Library.Chains
import Mathlib.Data.List.Forall2

/-!
# Two tables side by side

Two tables are alike when their chains hold related elements in the same order.
Related elements have the same key, so a look-up finds related elements in both,
and the tables stay alike as long as the same is done to both of them.
-/

namespace Xltop.Chains

open Function

variable {α β κ : Type*}

/-- Chain by chain, the elements of two tables are related. -/
def Alike (r : α → β → Prop) (t : Table α) (t' : Table β) : Prop :=
  ∀ i, List.Forall₂ r (t i) (t' i)

theorem forall₂_modifyFirst {r s : α → β → Prop} (hmono : ∀ a b, r a b → s a b)
    {p : α → Bool} {p' : β → Bool} (hp : ∀ a b, r a b → p a = p' b) {f : α → α} {g : β → β}
    (hfirst : ∀ a b, r a b → p a → s (f a) (g b)) {chain : List α} {chain' : List β}
    (h : List.Forall₂ r chain chain') :
    List.Forall₂ s (modifyFirst p f chain) (modifyFirst p' g chain') := by
  induction h with
  | nil => exact .nil
  | @cons a b rest rest' hab hrest ih =>
      rw [modifyFirst, modifyFirst, ← hp a b hab]
      split
      · next ha => exact .cons (hfirst a b hab ha) (hrest.imp hmono)
      · exact .cons (hmono a b hab) ih

theorem forall₂_eraseP {r : α → β → Prop} {p : α → Bool} {p' : β → Bool}
    (hp : ∀ a b, r a b → p a = p' b) {chain : List α} {chain' : List β}
    (h : List.Forall₂ r chain chain') :
    List.Forall₂ r (chain.eraseP p) (chain'.eraseP p') := by
  induction h with
  | nil => exact .nil
  | @cons a b rest rest' hab hrest ih =>
      rw [List.eraseP_cons, List.eraseP_cons, ← hp a b hab]
      cases p a with
      | true => exact hrest
      | false => exact .cons hab ih

theorem rel_find? {r : α → β → Prop} {p : α → Bool} {p' : β → Bool}
    (hp : ∀ a b, r a b → p a = p' b) {chain : List α} {chain' : List β}
    (h : List.Forall₂ r chain chain') :
    Option.Rel r (chain.find? p) (chain'.find? p') := by
  induction h with
  | nil => exact .none
  | @cons a b rest rest' hab hrest ih =>
      rw [List.find?_cons, List.find?_cons, ← hp a b hab]
      cases p a with
      | true => exact .some hab
      | false => exact ih

namespace Alike

variable {r s : α → β → Prop} {t : Table α} {t' : Table β}

theorem mono (h : Alike r t t') (hmono : ∀ a b, r a b → s a b) : Alike s t t' :=
  fun i => (h i).imp hmono

/-- One chain is replaced in both tables. -/
theorem update (h : Alike r t t') {i : ℕ} {chain : List α} {chain' : List β}
    (hchain : List.Forall₂ r chain chain') :
    Alike r (update t i chain) (Function.update t' i chain') := by
  intro j
  rcases eq_or_ne j i with rfl | hj
  · rw [update_self, update_self]
    exact hchain
  · rw [update_of_ne hj, update_of_ne hj]
    exact h j

theorem addHead (h : Alike r t t') (i : ℕ) {a : α} {b : β} (hab : r a b) :
    Alike r (addHead t i a) (Chains.addHead t' i b) :=
  h.update (.cons hab (h i))

variable [DecidableEq κ] {key : α → κ} {key' : β → κ} (hkey : ∀ a b, r a b → key a = key' b)
  (index : κ → ℕ)

include hkey

theorem lookup (h : Alike r t t') (k : κ) :
    Option.Rel r (lookup key index t k) (Chains.lookup key' index t' k) :=
  rel_find? (fun a b hab => by rw [hkey a b hab]) (h (index k))

/-- The element of one key changes in both tables. -/
theorem modify (h : Alike r t t') (hmono : ∀ a b, r a b → s a b) (k : κ) {f : α → α}
    {g : β → β} (hfirst : ∀ a b, r a b → key a = k → s (f a) (g b)) :
    Alike s (modify key index t k f) (Chains.modify key' index t' k g) :=
  (h.mono hmono).update (forall₂_modifyFirst hmono (fun a b hab => by rw [hkey a b hab])
    (fun a b hab ha => hfirst a b hab (of_decide_eq_true ha)) (h (index k)))

theorem erase (h : Alike r t t') (k : κ) :
    Alike r (erase key index t k) (Chains.erase key' index t' k) :=
  h.update (forall₂_eraseP (fun a b hab => by rw [hkey a b hab]) (h (index k)))

end Alike

/-- A new element is changed at once. -/
theorem modify_addHead [DecidableEq κ] (key : α → κ) (index : κ → ℕ) (t : Table α) (a : α)
    (f : α → α) :
    modify key index (addHead t (index (key a)) a) (key a) f =
      addHead t (index (key a)) (f a) := by
  rw [modify, addHead, addHead, update_idem, update_self, modifyFirst,
    if_pos (decide_eq_true rfl)]

theorem modify_id [DecidableEq κ] (key : α → κ) (index : κ → ℕ) (t : Table α) (k : κ) :
    modify key index t k id = t := by
  have hsame : ∀ (p : α → Bool) (chain : List α), modifyFirst p id chain = chain := by
    intro p chain
    induction chain with
    | nil => rfl
    | cons a rest ih =>
        rw [modifyFirst, ih]
        exact ite_self _
  rw [modify, hsame, update_eq_self]

end Xltop.Chains
