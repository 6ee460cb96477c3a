import Xltop.Master.KTable

/-!
# What `x_update` and `x_destroy` do to the table

`x_update` touches exactly the pairs of ancestors.  `k_destroy` walks down the
provider tree and stops at a missing pair, so it removes all statistics of a
consumer as long as a pair is never there without the pair one provider up.
-/

namespace Xltop.Master

open Xltop.Rate

variable {R : Type*} [Field R] [LinearOrder R] [FloorRing R]

theorem kPair_kUpdate (c : KConf R) (d : Stats R) (now : R) (k : KNode XNode R) :
    kPair (kUpdate c k d now) = kPair k := rfl

theorem kPair_kFreshen (c : KConf R) (now : R) (k : KNode XNode R) :
    kPair (kFreshen c k now) = kPair k := rfl

namespace XState

/-! ## x_update -/

section Update

variable (c : KConf R) (d : Stats R) (now : R) {σ : XState R}

@[simp]
theorem kTouch_toXTree (σ : XState R) (i0 i1 : XNode) :
    (kTouch c d now σ i0 i1).toXTree = σ.toXTree := by
  rw [kTouch, kLookupCreate]
  cases σ.kLookup i0 i1 with
  | some k => rfl
  | none =>
      simp only
      split_ifs <;> rfl

variable {i0 i1 : XNode} (h0 : i0.which = 0) (h1 : i1.which = 1)

include h0 h1

theorem kLookup_kTouch (y0 y1 : XNode) :
    (kTouch c d now σ i0 i1).kLookup y0 y1 =
      if y0 = i0 ∧ y1 = i1 then
        some (kUpdate c ((σ.kLookup y0 y1).getD (kInit y0 y1)) d now)
      else σ.kLookup y0 y1 := by
  rw [kTouch, kLookupCreate]
  cases hk : σ.kLookup i0 i1 with
  | some k =>
      change (σ.kModify i0 i1 _).kLookup y0 y1 = _
      rw [kLookup_kModify (kPair_kUpdate c d now)]
      split
      · next heq => rw [heq.1, heq.2, hk]; rfl
      · rfl
  | none =>
      simp only [h0, h1, ne_eq, not_true, or_self, if_false]
      rw [kLookup_kModify (kPair_kUpdate c d now), kLookup_kInsert,
        if_pos (And.intro rfl rfl), kLookup_kInsert]
      split
      · next heq => rw [heq.1, heq.2, hk]; rfl
      · rfl

theorem TableOk.kTouch (h : σ.TableOk) : (kTouch c d now σ i0 i1).TableOk := by
  rw [XState.kTouch, kLookupCreate]
  cases hk : σ.kLookup i0 i1 with
  | some k => exact h.kModify (kPair_kUpdate c d now) i0 i1
  | none =>
      simp only [h0, h1, ne_eq, not_true, or_self, if_false]
      exact (h.kInsert hk).kModify (kPair_kUpdate c d now) i0 i1

omit h0 h1

/-- The nested loops of `x_update` as one loop over pairs. -/
theorem xUpdate_eq (σ : XState R) (x0 x1 : XNode) :
    xUpdate c σ x0 x1 d now =
      (σ.xChain nrXTypes (some x0) ×ˢ σ.xChain nrXTypes (some x1)).foldl
        (fun σ i => kTouch c d now σ i.1 i.2) σ := by
  have htree : ∀ (l : List XNode) (i0 : XNode) (σ : XState R),
      (l.foldl (fun σ i1 => kTouch c d now σ i0 i1) σ).toXTree = σ.toXTree := by
    intro l i0
    induction l with
    | nil => exact fun _ => rfl
    | cons i1 l ih => exact fun σ => (ih _).trans (kTouch_toXTree c d now σ i0 i1)
  have hloops : ∀ (l : List XNode) (τ : XState R), τ.toXTree = σ.toXTree →
      l.foldl (fun σ i0 => (σ.xChain nrXTypes (some x1)).foldl
        (fun σ i1 => kTouch c d now σ i0 i1) σ) τ =
      (l ×ˢ σ.xChain nrXTypes (some x1)).foldl
        (fun σ i => kTouch c d now σ i.1 i.2) τ := by
    intro l
    induction l with
    | nil => exact fun _ _ => rfl
    | cons i0 l ih =>
        intro τ hτ
        rw [List.foldl_cons, List.product_cons, List.foldl_append, List.foldl_map,
          ← ih _ ((htree _ i0 τ).trans hτ), hτ]
  exact hloops _ σ rfl

theorem foldl_kTouch_toXTree (pairs : List (XNode × XNode)) (σ : XState R) :
    (pairs.foldl (fun σ i => kTouch c d now σ i.1 i.2) σ).toXTree = σ.toXTree := by
  induction pairs generalizing σ with
  | nil => rfl
  | cons i pairs ih => exact (ih _).trans (kTouch_toXTree c d now σ i.1 i.2)

theorem TableOk.foldl_kTouch {pairs : List (XNode × XNode)}
    (hwhich : ∀ i ∈ pairs, i.1.which = 0 ∧ i.2.which = 1) (h : σ.TableOk) :
    (pairs.foldl (fun σ i => XState.kTouch c d now σ i.1 i.2) σ).TableOk := by
  induction pairs generalizing σ with
  | nil => exact h
  | cons i pairs ih =>
      rw [List.forall_mem_cons] at hwhich
      exact ih hwhich.2 (h.kTouch c d now hwhich.1.1 hwhich.1.2)

theorem kLookup_foldl_kTouch {pairs : List (XNode × XNode)}
    (hwhich : ∀ i ∈ pairs, i.1.which = 0 ∧ i.2.which = 1) (hnodup : pairs.Nodup)
    (y0 y1 : XNode) :
    (pairs.foldl (fun σ i => kTouch c d now σ i.1 i.2) σ).kLookup y0 y1 =
      if (y0, y1) ∈ pairs then
        some (kUpdate c ((σ.kLookup y0 y1).getD (kInit y0 y1)) d now)
      else σ.kLookup y0 y1 := by
  induction pairs generalizing σ with
  | nil => rfl
  | cons i pairs ih =>
      rw [List.forall_mem_cons] at hwhich
      rw [List.nodup_cons] at hnodup
      rw [List.foldl_cons, ih hwhich.2 hnodup.2,
        kLookup_kTouch c d now hwhich.1.1 hwhich.1.2]
      by_cases hi : (y0, y1) = i
      · subst hi
        simp [hnodup.1]
      · have hne : ¬ (y0 = i.1 ∧ y1 = i.2) := fun heq => hi (Prod.ext heq.1 heq.2)
        simp [hi, hne]

end Update

/-- What `x_update` leaves in the table. -/
structure Updated (c : KConf R) (σ : XState R) (x0 x1 : XNode) (d : Stats R)
    (now : R) (σ' : XState R) : Prop where
  tree : σ'.toXTree = σ.toXTree
  table : σ'.TableOk
  above : ∀ {y0 y1}, σ.Above x0 y0 → σ.Above x1 y1 → σ'.kLookup y0 y1 =
    some (kUpdate c ((σ.kLookup y0 y1).getD (kInit y0 y1)) d now)
  other : ∀ {y0 y1}, ¬ (σ.Above x0 y0 ∧ σ.Above x1 y1) →
    σ'.kLookup y0 y1 = σ.kLookup y0 y1

theorem xUpdate_updated (c : KConf R) {σ : XState R} (htree : σ.toXTree.TreeOk)
    (htable : σ.TableOk) {x0 x1 : XNode} (hx0 : σ.Live x0) (hx1 : σ.Live x1)
    (h0 : x0.which = 0) (h1 : x1.which = 1) (d : Stats R) (now : R) :
    Updated c σ x0 x1 d now (xUpdate c σ x0 x1 d now) := by
  have hmem : ∀ y0 y1, (y0, y1) ∈
      σ.xChain nrXTypes (some x0) ×ˢ σ.xChain nrXTypes (some x1) ↔
        σ.Above x0 y0 ∧ σ.Above x1 y1 := fun y0 y1 => by
    rw [List.mem_product, htree.mem_xChain hx0, htree.mem_xChain hx1]
  have hwhich : ∀ i ∈ σ.xChain nrXTypes (some x0) ×ˢ σ.xChain nrXTypes (some x1),
      i.1.which = 0 ∧ i.2.which = 1 := fun i hi => by
    obtain ⟨hi0, hi1⟩ := (hmem i.1 i.2).1 hi
    exact ⟨(htree.which_of_above hi0).trans h0, (htree.which_of_above hi1).trans h1⟩
  have hnodup : (σ.xChain nrXTypes (some x0) ×ˢ
      σ.xChain nrXTypes (some x1)).Nodup :=
    (htree.xChain_nodup _ hx0).1.product (htree.xChain_nodup _ hx1).1
  rw [xUpdate_eq]
  refine ⟨foldl_kTouch_toXTree c d now _ σ, htable.foldl_kTouch c d now hwhich, ?_, ?_⟩
  · intro y0 y1 hy0 hy1
    rw [kLookup_foldl_kTouch c d now hwhich hnodup, if_pos ((hmem y0 y1).2 ⟨hy0, hy1⟩)]
  · intro y0 y1 hy
    rw [kLookup_foldl_kTouch c d now hwhich hnodup, if_neg (mt (hmem y0 y1).1 hy)]

/-! ## k_destroy -/

section Destroy

omit [Field R] [LinearOrder R] [FloorRing R]

/-- Statistics of `x0` may have gone, and nothing else has happened. -/
structure Shrunk (x0 : XNode) (σ σ' : XState R) : Prop where
  tree : σ'.toXTree = σ.toXTree
  table : σ'.TableOk
  other : ∀ {y0} y1, y0 ≠ x0 → σ'.kLookup y0 y1 = σ.kLookup y0 y1
  gone : ∀ {y1}, σ.kLookup x0 y1 = none → σ'.kLookup x0 y1 = none

theorem Shrunk.refl {x0 : XNode} {σ : XState R} (h : σ.TableOk) : Shrunk x0 σ σ :=
  ⟨rfl, h, fun _ _ => rfl, id⟩

theorem Shrunk.trans {x0 : XNode} {σ σ' σ'' : XState R} (h : Shrunk x0 σ σ')
    (h' : Shrunk x0 σ' σ'') : Shrunk x0 σ σ'' :=
  ⟨h'.tree.trans h.tree, h'.table, fun y1 hy => (h'.other y1 hy).trans (h.other y1 hy),
    fun hy => h'.gone (h.gone hy)⟩

theorem shrunk_kRemove {x0 x1 : XNode} {σ : XState R} (h : σ.TableOk)
    {k : KNode XNode R} (hk : σ.kLookup x0 x1 = some k) :
    Shrunk x0 σ (σ.kRemove x0 x1) where
  tree := rfl
  table := h.kRemove hk
  other y1 hy := by rw [h.kLookup_kRemove, if_neg fun heq => hy heq.1]
  gone hy := by rw [h.kLookup_kRemove, hy, ite_self]

/-- A pair of `x0` comes with the pair one provider up, unless that provider
is one of `opened`. -/
def ClosedBut (opened : Set XNode) (x0 : XNode) (σ : XState R) : Prop :=
  ∀ ⦃y p⦄, σ.kLookup x0 y ≠ none → σ.parent y = some p → p ∉ opened →
    σ.kLookup x0 p ≠ none

/-- What `k_destroy` of `x0` from `x1` down achieves. -/
structure Swept (opened : Set XNode) (x0 x1 : XNode) (σ σ' : XState R) : Prop where
  shrunk : Shrunk x0 σ σ'
  closed : ClosedBut opened x0 σ'
  none : σ'.kLookup x0 x1 = none

/-- The loop over the children, when each call does its part. -/
theorem foldl_swept {opened : Set XNode} {x0 : XNode} {t : XTree}
    {destroy : XState R → XNode → XState R} {cs : List XNode}
    (hdestroy : ∀ c ∈ cs, ∀ σ : XState R, σ.toXTree = t → σ.TableOk →
      ClosedBut opened x0 σ → Swept opened x0 c σ (destroy σ c))
    {σ : XState R} (htree : σ.toXTree = t) (htable : σ.TableOk)
    (hclosed : ClosedBut opened x0 σ) :
    Shrunk x0 σ (cs.foldl destroy σ) ∧ ClosedBut opened x0 (cs.foldl destroy σ) ∧
      ∀ c ∈ cs, (cs.foldl destroy σ).kLookup x0 c = none := by
  induction cs generalizing σ with
  | nil => exact ⟨.refl htable, hclosed, by simp⟩
  | cons c cs ih =>
      rw [List.forall_mem_cons] at hdestroy
      have hhead := hdestroy.1 σ htree htable hclosed
      obtain ⟨hshrunk, hclosed', hnone⟩ := ih hdestroy.2
        (hhead.shrunk.tree.trans htree) hhead.shrunk.table hhead.closed
      refine ⟨hhead.shrunk.trans hshrunk, hclosed', ?_⟩
      rw [List.forall_mem_cons]
      exact ⟨hshrunk.gone hhead.none, hnone⟩

theorem kDestroy_swept {x0 x1 : XNode} {fuel : ℕ} {σ : XState R}
    {opened : Set XNode} (htree : σ.toXTree.TreeOk) (htable : σ.TableOk)
    (hfuel : x1.xType.rank < fuel) (hclosed : ClosedBut opened x0 σ) :
    Swept opened x0 x1 σ (kDestroy fuel σ x0 x1 0) := by
  induction fuel generalizing x1 σ opened with
  | zero => omega
  | succ fuel ih =>
      rw [kDestroy]
      cases hk : σ.kLookup x0 x1 with
      | none => exact ⟨.refl htable, hclosed, hk⟩
      | some k =>
          have hremove := shrunk_kRemove htable hk
          -- while the children go, the pair of `x1` is missing above them
          have hremoved : ClosedBut (insert x1 opened) x0 (σ.kRemove x0 x1) := by
            intro y p hy hp hnot
            rw [Set.mem_insert_iff, not_or] at hnot
            rw [htable.kLookup_kRemove, if_neg fun heq => hnot.1 heq.2]
            exact hclosed (fun hnone => hy (hremove.gone hnone)) hp hnot.2
          have hdestroy : ∀ c ∈ σ.children x1, ∀ τ : XState R,
              τ.toXTree = σ.toXTree → τ.TableOk →
              ClosedBut (insert x1 opened) x0 τ →
              Swept (insert x1 opened) x0 c τ (kDestroy fuel τ x0 c 0) := by
            intro c hc τ htreeτ hτ hclosedτ
            have hrank := htree.rank_of_parent ((htree.linked.mem_children x1 c).1 hc)
            exact ih (htreeτ ▸ htree) hτ (by omega) hclosedτ
          obtain ⟨hshrunk, hclosed', hnone⟩ :=
            foldl_swept hdestroy hremove.tree hremove.table hremoved
          refine ⟨hremove.trans hshrunk, fun y p hy hp hnot => ?_, hshrunk.gone ?_⟩
          · have hparent : σ.parent y = some p := by
              rw [← hp]
              exact congrArg (fun t : XTree => t.parent y) hshrunk.tree.symm
            by_cases hpx : p = x1
            · rw [hpx] at hparent
              exact absurd (hnone y ((htree.linked.mem_children x1 y).2 hparent)) hy
            · exact hclosed' hy hp fun hin => hin.elim hpx hnot
          · rw [htable.kLookup_kRemove, if_pos ⟨rfl, rfl⟩]

/-! ## x_destroy -/

/-- What holds of the table between two events: it is a map, its nodes link a
live consumer and a live provider, and a pair comes with the pair one provider
up. -/
structure PairsOk (σ : XState R) : Prop extends σ.TableOk where
  consumer : ∀ {x0 x1 k}, σ.kLookup x0 x1 = some k → σ.Live x0 ∧ x0.which = 0
  provider : ∀ {x0 x1 k}, σ.kLookup x0 x1 = some k → σ.Live x1 ∧ x1.which = 1
  closed : ∀ x0, ClosedBut ∅ x0 σ

/-- Without the root provider, no provider is left. -/
theorem kLookup_none_of_above {x0 y z : XNode} {σ : XState R}
    (hclosed : ClosedBut ∅ x0 σ) (hyz : σ.Above y z)
    (hz : σ.kLookup x0 z = none) : σ.kLookup x0 y = none := by
  induction hyz using Relation.ReflTransGen.head_induction_on with
  | refl => exact hz
  | head hparent _ ih =>
      by_contra hy
      exact hclosed hy hparent (Set.notMem_empty _) ih

/-- What `x_destroy` of a consumer leaves in the table. -/
structure Destroyed (σ : XState R) (x : XNode) (σ' : XState R) : Prop where
  tree : σ'.toXTree = σ.xRemove x
  table : σ'.TableOk
  gone : ∀ y1, σ'.kLookup x y1 = none
  other : ∀ {y0} y1, y0 ≠ x → σ'.kLookup y0 y1 = σ.kLookup y0 y1

theorem xDestroy_destroyed {σ : XState R} (htree : σ.toXTree.TreeOk)
    (hpairs : σ.PairsOk) {x : XNode} (hx : x.which = 0) :
    Destroyed σ x (σ.xDestroy x) := by
  have hroot : (σ.xAll 1).xType.rank < nrXTypes := by
    rw [htree.all_type]
    decide
  have hswept := kDestroy_swept htree hpairs.toTableOk hroot (hpairs.closed x)
  have htable : (σ.xDestroy x).kHashTable =
      (kDestroy nrXTypes σ x (σ.xAll 1) 0).kHashTable := by
    rw [xDestroy, if_pos hx]
  have hcount : (σ.xDestroy x).nrK = (kDestroy nrXTypes σ x (σ.xAll 1) 0).nrK := by
    rw [xDestroy, if_pos hx]
  have hlookup := kLookup_congr htable
  refine ⟨?_, ?_, fun y1 => ?_, fun {y0} y1 hy => ?_⟩
  · rw [xDestroy, if_pos hx]
    exact congrArg (fun t : XTree => t.xRemove x) hswept.shrunk.tree
  · refine ⟨?_, ?_⟩
    · rw [htable]
      exact hswept.shrunk.table.keyed
    · rw [htable, hcount]
      exact hswept.shrunk.table.nr_k
  · rw [hlookup]
    cases hy : σ.kLookup x y1 with
    | none => exact hswept.shrunk.gone hy
    | some k =>
        obtain ⟨hlive, hwhich⟩ := hpairs.provider hy
        have habove := htree.above_root hlive
        rw [hwhich] at habove
        refine kLookup_none_of_above hswept.closed ?_ hswept.none
        rwa [hswept.shrunk.tree]
  · rw [hlookup]
    exact hswept.shrunk.other y1 hy

end Destroy

end XState

end Xltop.Master
