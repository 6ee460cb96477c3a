import Xltop.Master.Operations
import Mathlib.Data.UInt

/-!
# Steps of the node state

Whatever the daemon does to its nodes and statistics is a sequence of five
kinds of step.  Each keeps the trees and the table in order, so every
invariant below is proved once per kind of step.
-/

namespace Xltop.Master

open Xltop.Text
open Xltop.Hash
open Xltop.Rate

variable {R : Type*} [Field R] [LinearOrder R] [FloorRing R]

omit [Field R] [LinearOrder R] [FloorRing R] in
/-- A call `x_update(x0, x1, d)` and the trees at its time. -/
structure Call (R : Type*) where
  tree : XTree
  x0 : XNode
  x1 : XNode
  d : Stats R

omit [Field R] [LinearOrder R] [FloorRing R] in
/-- At the time of the call, the two nodes were those of the call or ancestors
of them. -/
def Call.Covers (call : Call R) (x0 x1 : XNode) : Prop :=
  call.tree.Above call.x0 x0 ∧ call.tree.Above call.x1 x1

/-- One step, and the calls of `x_update` in it. -/
inductive XStep (c : KConf R) : XState R → List (Call R) → XState R → Prop where
  | create {σ : XState R} {type : XType} {p : XNode} {name : CString}
      (hp : σ.Live p) (hup : type.up = some p.xType)
      (hname : σ.xLookup type name = none) :
      XStep c σ []
        { σ with toXTree := (σ.xInit type (some p) (strHash name) name).2 }
  | move {σ : XState R} {x p : XNode} (hx : σ.Live x) (hhost : x.xType = .host)
      (hp : σ.Live p) (hjob : p.xType = .job) :
      XStep c σ [] { σ with toXTree := σ.xSetParent x (some p) }
  | update {σ : XState R} {x0 x1 : XNode} (hx0 : σ.Live x0)
      (hhost : x0.xType = .host) (hx1 : σ.Live x1) (hserv : x1.xType = .serv)
      (d : Stats R) (now : R) :
      XStep c σ [⟨σ.toXTree, x0, x1, d⟩] (σ.xUpdate c x0 x1 d now)
  | destroy {σ : XState R} {x : XNode} (hx : σ.Live x) (hjob : x.xType = .job)
      (hempty : σ.children x = []) : XStep c σ [] (σ.xDestroy x)
  | freshen {σ : XState R} (x0 x1 : XNode) (now : R) :
      XStep c σ [] (σ.kModify x0 x1 fun k => kFreshen c k now)

/-- A sequence of steps and its calls, in order. -/
inductive XRun (c : KConf R) (σ₀ : XState R) : List (Call R) → XState R → Prop where
  | refl : XRun c σ₀ [] σ₀
  | tail {calls more : List (Call R)} {σ σ' : XState R} (hrun : XRun c σ₀ calls σ)
      (hstep : XStep c σ more σ') : XRun c σ₀ (calls ++ more) σ'

namespace XRun

variable {c : KConf R} {σ σ' σ'' : XState R} {calls more : List (Call R)}

theorem single (hstep : XStep c σ calls σ') : XRun c σ calls σ' :=
  .tail .refl hstep

theorem trans (hrun : XRun c σ calls σ') (hmore : XRun c σ' more σ'') :
    XRun c σ (calls ++ more) σ'' := by
  induction hmore with
  | refl => rwa [List.append_nil]
  | tail _ hstep ih =>
      rw [← List.append_assoc]
      exact .tail ih hstep

/-- What every step keeps holds after a run. -/
theorem induct {motive : List (Call R) → XState R → Prop}
    (hrun : XRun c σ calls σ') (hstart : motive [] σ)
    (hstep : ∀ {calls σ more σ'}, motive calls σ → XStep c σ more σ' →
      motive (calls ++ more) σ') : motive calls σ' := by
  induction hrun with
  | refl => exact hstart
  | tail _ h ih => exact hstep ih h

end XRun

/-! ## The invariant -/

/-- The trees and the table are in order. -/
structure StateOk (σ : XState R) : Prop where
  tree : σ.toXTree.TreeOk
  pairs : σ.PairsOk

namespace StateOk

omit [Field R] [LinearOrder R] [FloorRing R]

variable {σ : XState R}

theorem kLookup_eq_none (h : StateOk σ) {x0 x1 : XNode}
    (hdead : ¬ (σ.Live x0 ∧ σ.Live x1)) : σ.kLookup x0 x1 = none := by
  cases hk : σ.kLookup x0 x1 with
  | none => rfl
  | some k => exact absurd ⟨(h.pairs.consumer hk).1, (h.pairs.provider hk).1⟩ hdead

/-- A step that leaves the table alone, and changes neither a live node nor the
parent of a provider. -/
theorem of_tree (h : StateOk σ) {t : XTree} (htree : t.TreeOk)
    (hlive : ∀ {x}, σ.Live x → t.Live x)
    (hparent : ∀ {x}, σ.Live x → x.which = 1 → t.parent x = σ.parent x) :
    StateOk { σ with toXTree := t } where
  tree := htree
  pairs :=
    { keyed := h.pairs.keyed
      nr_k := h.pairs.nr_k
      consumer := fun hk => ⟨hlive (h.pairs.consumer hk).1, (h.pairs.consumer hk).2⟩
      provider := fun hk => ⟨hlive (h.pairs.provider hk).1, (h.pairs.provider hk).2⟩
      closed := by
        intro x0 y p hy hp hnot
        obtain ⟨k, hk⟩ := Option.ne_none_iff_exists'.1 hy
        obtain ⟨hylive, hywhich⟩ := h.pairs.provider hk
        exact h.pairs.closed x0 hy ((hparent hylive hywhich).symm.trans hp) hnot }

end StateOk

omit [Field R] [LinearOrder R] [FloorRing R] in
theorem StateOk.create {σ : XState R} (h : StateOk σ) {type : XType} {p : XNode}
    {name : CString} (hp : σ.Live p) (hup : type.up = some p.xType)
    (hname : σ.xLookup type name = none) :
    StateOk { σ with toXTree := (σ.xInit type (some p) (strHash name) name).2 } := by
  refine h.of_tree (h.tree.xInit hp hup hname) (fun hx => ?_) fun hx _ => ?_
  · exact (XTree.live_xInit ..).2 (.inr hx)
  · rw [XTree.parent_xInit, if_neg]
    rintro rfl
    exact h.tree.not_live_next _ _ _ hx

omit [Field R] [LinearOrder R] [FloorRing R] in
theorem StateOk.move {σ : XState R} (h : StateOk σ) {x p : XNode} (hx : σ.Live x)
    (hhost : x.xType = .host) (hp : σ.Live p) (hjob : p.xType = .job) :
    StateOk { σ with toXTree := σ.xSetParent x (some p) } := by
  have hup : x.xType.up = some p.xType := by rw [hhost, hjob]; rfl
  refine h.of_tree (h.tree.xSetParent hx hp hup) (fun hy => ?_) fun {y} _ hwhich => ?_
  · exact (XTree.live_xSetParent _).2 hy
  · rw [XTree.parent_xSetParent, if_neg]
    rintro rfl
    rw [XNode.which, hhost] at hwhich
    cases hwhich

theorem StateOk.update {c : KConf R} {σ σ' : XState R} (h : StateOk σ)
    {x0 x1 : XNode} (hx0 : σ.Live x0) (h0 : x0.which = 0) (hx1 : σ.Live x1)
    (h1 : x1.which = 1) {d : Stats R} {now : R}
    (hupdate : XState.Updated c σ x0 x1 d now σ') : StateOk σ' := by
  have hends : ∀ {y0 y1}, σ'.kLookup y0 y1 ≠ none →
      σ.kLookup y0 y1 ≠ none ∨ σ.Above x0 y0 ∧ σ.Above x1 y1 := by
    intro y0 y1 hy
    by_cases habove : σ.Above x0 y0 ∧ σ.Above x1 y1
    · exact .inr habove
    · rw [hupdate.other habove] at hy
      exact .inl hy
  have hkept : ∀ {y0 y1}, σ.kLookup y0 y1 ≠ none ∨ σ.Above x0 y0 ∧ σ.Above x1 y1 →
      σ'.kLookup y0 y1 ≠ none := by
    intro y0 y1 hy
    by_cases habove : σ.Above x0 y0 ∧ σ.Above x1 y1
    · rw [hupdate.above habove.1 habove.2]
      exact Option.some_ne_none _
    · rw [hupdate.other habove]
      exact hy.resolve_right habove
  refine ⟨hupdate.tree ▸ h.tree, ⟨hupdate.table, fun {y0 y1 k} hk => ?_,
    fun {y0 y1 k} hk => ?_, fun y0 y1 p hy hp hnot => ?_⟩⟩
  · rw [hupdate.tree]
    rcases hends (hk ▸ Option.some_ne_none k) with hold | ⟨h0', -⟩
    · obtain ⟨k', hk'⟩ := Option.ne_none_iff_exists'.1 hold
      exact h.pairs.consumer hk'
    · exact ⟨h.tree.live_of_above hx0 h0', (h.tree.which_of_above h0').trans h0⟩
  · rw [hupdate.tree]
    rcases hends (hk ▸ Option.some_ne_none k) with hold | ⟨-, h1'⟩
    · obtain ⟨k', hk'⟩ := Option.ne_none_iff_exists'.1 hold
      exact h.pairs.provider hk'
    · exact ⟨h.tree.live_of_above hx1 h1', (h.tree.which_of_above h1').trans h1⟩
  · rw [hupdate.tree] at hp
    rcases hends hy with hold | ⟨h0', h1'⟩
    · exact hkept (.inl (h.pairs.closed y0 hold hp hnot))
    · exact hkept (.inr ⟨h0', h1'.tail hp⟩)

omit [Field R] [LinearOrder R] [FloorRing R] in
theorem StateOk.destroy {σ σ' : XState R} (h : StateOk σ) {x : XNode}
    (hx : σ.Live x) (hjob : x.xType = .job) (hempty : σ.children x = [])
    (hdestroy : XState.Destroyed σ x σ') : StateOk σ' := by
  have hwhich : x.which = 0 := by rw [XNode.which, hjob]; rfl
  have hup : x.xType.up = some .clus := by rw [hjob]; rfl
  obtain ⟨q, hq, -⟩ := h.tree.exists_parent hx hup
  have hlive := fun {y} => h.tree.live_xRemove hx hempty (y := y)
  have hold : ∀ {y0 y1 k}, σ'.kLookup y0 y1 = some k →
      y0 ≠ x ∧ σ.kLookup y0 y1 = some k := by
    intro y0 y1 k hk
    have hne : y0 ≠ x := by
      rintro rfl
      rw [hdestroy.gone] at hk
      cases hk
    rw [hdestroy.other y1 hne] at hk
    exact ⟨hne, hk⟩
  have hprovider : ∀ {y}, y.which = 1 → y ≠ x := by
    rintro y hy rfl
    rw [hwhich] at hy
    cases hy
  refine ⟨?_, ⟨hdestroy.table, fun {y0 y1 k} hk => ?_, fun {y0 y1 k} hk => ?_,
    fun y0 y1 p hy hp hnot => ?_⟩⟩
  · rw [hdestroy.tree]
    exact h.tree.xRemove hx hup hempty
  · obtain ⟨hne, hk'⟩ := hold hk
    obtain ⟨hylive, hywhich⟩ := h.pairs.consumer hk'
    rw [hdestroy.tree, hlive]
    exact ⟨⟨hylive, hne⟩, hywhich⟩
  · obtain ⟨hylive, hywhich⟩ := h.pairs.provider (hold hk).2
    rw [hdestroy.tree, hlive]
    exact ⟨⟨hylive, hprovider hywhich⟩, hywhich⟩
  · obtain ⟨k, hk⟩ := Option.ne_none_iff_exists'.1 hy
    obtain ⟨hne, hk'⟩ := hold hk
    obtain ⟨hylive, hywhich⟩ := h.pairs.provider hk'
    rw [hdestroy.tree, h.tree.parent_xRemove hq hempty,
      if_neg (hprovider hywhich)] at hp
    rw [hdestroy.other p hne]
    exact h.pairs.closed y0 (hk' ▸ Option.some_ne_none k) hp hnot

theorem XState.kLookup_freshen (c : KConf R) (σ : XState R) (x0 x1 : XNode)
    (now : R) (y0 y1 : XNode) :
    (σ.kModify x0 x1 fun k => kFreshen c k now).kLookup y0 y1 =
      (σ.kLookup y0 y1).map fun k =>
        if y0 = x0 ∧ y1 = x1 then kFreshen c k now else k := by
  rw [XState.kLookup_kModify (kPair_kFreshen c now)]
  split
  · next heq => rw [heq.1, heq.2]
  · exact Option.map_id'.symm

theorem StateOk.freshen {σ : XState R} (h : StateOk σ) (c : KConf R)
    (x0 x1 : XNode) (now : R) :
    StateOk (σ.kModify x0 x1 fun k => kFreshen c k now) := by
  have hlookup := XState.kLookup_freshen c σ x0 x1 now
  have hnone : ∀ y0 y1, (σ.kModify x0 x1 fun k => kFreshen c k now).kLookup y0 y1 ≠
      none ↔ σ.kLookup y0 y1 ≠ none := fun y0 y1 => by
    rw [hlookup, ne_eq, Option.map_eq_none_iff]
  have hold : ∀ {y0 y1 k},
      (σ.kModify x0 x1 fun k => kFreshen c k now).kLookup y0 y1 = some k →
        ∃ k', σ.kLookup y0 y1 = some k' := fun {y0 y1 k} hk =>
    Option.ne_none_iff_exists'.1 ((hnone y0 y1).1 (hk ▸ Option.some_ne_none k))
  refine ⟨h.tree, ⟨h.pairs.toTableOk.kModify (kPair_kFreshen c now) x0 x1,
    fun hk => ?_, fun hk => ?_, fun y0 y1 p hy hp hnot => ?_⟩⟩
  · obtain ⟨k', hk'⟩ := hold hk
    exact h.pairs.consumer hk'
  · obtain ⟨k', hk'⟩ := hold hk
    exact h.pairs.provider hk'
  · rw [hnone] at hy ⊢
    exact h.pairs.closed y0 hy hp hnot

theorem updated_of_step (c : KConf R) {σ : XState R} (h : StateOk σ) {x0 x1 : XNode}
    (hx0 : σ.Live x0) (hhost : x0.xType = .host) (hx1 : σ.Live x1)
    (hserv : x1.xType = .serv) (d : Stats R) (now : R) :
    XState.Updated c σ x0 x1 d now (σ.xUpdate c x0 x1 d now) :=
  XState.xUpdate_updated c h.tree h.pairs.toTableOk hx0 hx1
    (by rw [XNode.which, hhost]; rfl) (by rw [XNode.which, hserv]; rfl) d now

omit [Field R] [LinearOrder R] [FloorRing R] in
theorem destroyed_of_step {σ : XState R} (h : StateOk σ) {x : XNode}
    (hjob : x.xType = .job) : XState.Destroyed σ x (σ.xDestroy x) :=
  XState.xDestroy_destroyed h.tree h.pairs (by rw [XNode.which, hjob]; rfl)

/-- Every step keeps the state in order. -/
theorem StateOk.step {c : KConf R} {σ σ' : XState R} {calls : List (Call R)}
    (h : StateOk σ) (hstep : XStep c σ calls σ') : StateOk σ' := by
  cases hstep with
  | create hp hup hname => exact h.create hp hup hname
  | move hx hhost hp hjob => exact h.move hx hhost hp hjob
  | update hx0 hhost hx1 hserv d now =>
      exact h.update hx0 (by rw [XNode.which, hhost]; rfl) hx1
        (by rw [XNode.which, hserv]; rfl)
        (updated_of_step c h hx0 hhost hx1 hserv d now)
  | destroy hx hjob hempty =>
      exact h.destroy hx hjob hempty (destroyed_of_step h hjob)
  | freshen x0 x1 now => exact h.freshen c x0 x1 now

theorem StateOk.run {c : KConf R} {σ σ' : XState R} {calls : List (Call R)}
    (h : StateOk σ) (hrun : XRun c σ calls σ') : StateOk σ' :=
  hrun.induct (motive := fun _ σ => StateOk σ) h fun h hstep => h.step hstep

/-! ## The start -/

omit [Field R] [LinearOrder R] [FloorRing R] in
/-- `x_types_init`: the number of chains for pairs comes from the hints on the
two sides. -/
def xStateInit (hint : XType → UInt64) : XState R where
  toXTree := xTypesInit hint
  kHashTable := hashTableInit
    (((XType.all.filter fun type => type.which = 0).map hint).sum *
      ((XType.all.filter fun type => type.which = 1).map hint).sum)
  nrK := 0

omit [Field R] [LinearOrder R] [FloorRing R] in
theorem kLookup_xStateInit (hint : XType → UInt64) (x0 x1 : XNode) :
    (xStateInit hint : XState R).kLookup x0 x1 = none := rfl

omit [Field R] [LinearOrder R] [FloorRing R] in
theorem stateOk_xStateInit (hint : XType → UInt64) :
    StateOk (xStateInit hint : XState R) where
  tree := xTypesInit_ok hint
  pairs :=
    { keyed := HashTable.keyed_init _
      nr_k := (congrArg List.length (HashTable.toList_init _)).symm
      consumer := fun hk => by
        rw [kLookup_xStateInit] at hk
        cases hk
      provider := fun hk => by
        rw [kLookup_xStateInit] at hk
        cases hk
      closed := fun x0 y p hy => absurd (kLookup_xStateInit hint x0 y) hy }

end Xltop.Master
