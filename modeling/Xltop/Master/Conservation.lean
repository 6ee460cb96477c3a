import Xltop.Master.Steps
import Mathlib.Algebra.BigOperators.Group.List.Basic

/-!
# Totals agree across levels

The total of a provider that has children is the sum over its children, and
the total over all consumers is the sum over the clusters and the sum over the
hosts.  Jobs are left out: hosts move between them, and they go.
-/

namespace Xltop.Master

open Xltop.Text
open Xltop.Hash
open Xltop.Rate

variable {R : Type*} [Field R] [LinearOrder R] [FloorRing R]

omit [LinearOrder R] [FloorRing R] in
/-- `k_sum`, where a missing `k_node` counts as zero. -/
def kSumOr (σ : XState R) (x0 x1 : XNode) : Stats R :=
  ((σ.kLookup x0 x1).map KNode.kSum).getD 0

omit [LinearOrder R] [FloorRing R] in
theorem kSumOr_of_none {σ : XState R} {x0 x1 : XNode}
    (h : σ.kLookup x0 x1 = none) : kSumOr σ x0 x1 = 0 := by
  rw [kSumOr, h]
  rfl

omit [LinearOrder R] [FloorRing R] in
open Classical in
/-- `d` if the proposition holds, else nothing. -/
noncomputable def portion (P : Prop) (d : Stats R) : Stats R :=
  if P then d else 0

omit [LinearOrder R] [FloorRing R] in
theorem portion_of {P : Prop} (h : P) (d : Stats R) : portion P d = d :=
  if_pos h

omit [LinearOrder R] [FloorRing R] in
theorem portion_of_not {P : Prop} (h : ¬ P) (d : Stats R) : portion P d = 0 :=
  if_neg h

omit [LinearOrder R] [FloorRing R] in
/-- Over a list that meets a property at most once, the portions sum to one
portion. -/
theorem sum_portion {α : Type*} {l : List α} (hnodup : l.Nodup) {P : α → Prop}
    (hunique : ∀ a ∈ l, ∀ b ∈ l, P a → P b → a = b) (d : Stats R) :
    (l.map fun a => portion (P a) d).sum = portion (∃ a ∈ l, P a) d := by
  induction l with
  | nil => simp [portion]
  | cons a l ih =>
      obtain ⟨hfresh, hrest⟩ := List.nodup_cons.1 hnodup
      rw [List.map_cons, List.sum_cons, ih hrest fun x hx y hy =>
        hunique x (List.mem_cons_of_mem _ hx) y (List.mem_cons_of_mem _ hy)]
      by_cases ha : P a
      · have hnone : ¬ ∃ b ∈ l, P b := by
          rintro ⟨b, hb, hPb⟩
          have heq := hunique a List.mem_cons_self b (List.mem_cons_of_mem _ hb) ha hPb
          exact hfresh (heq ▸ hb)
        rw [portion_of ha, portion_of_not hnone,
          portion_of ⟨a, List.mem_cons_self, ha⟩, add_zero]
      · have hsame : (∃ b ∈ a :: l, P b) ↔ ∃ b ∈ l, P b := by simp [ha]
        rw [portion_of_not ha, zero_add, hsame]

/-- The totals agree at every level where nodes stay where they are. -/
structure Conserved (σ : XState R) : Prop where
  children : ∀ x0 {x1}, σ.Live x1 → x1.xType = .fs ∨ x1.xType = .v →
    kSumOr σ x0 x1 = ((σ.children x1).map (kSumOr σ x0)).sum
  clus : ∀ x1, kSumOr σ (σ.xAll 0) x1 =
    ((σ.nodes .clus).map fun x0 => kSumOr σ x0 x1).sum
  hosts : ∀ x1, kSumOr σ (σ.xAll 0) x1 =
    ((σ.nodes .host).map fun x0 => kSumOr σ x0 x1).sum

namespace Conserved

variable {c : KConf R} {σ : XState R}

/-- A call adds its delta to the pairs it covers. -/
theorem kSumOr_update {x0 x1 : XNode} {d : Stats R} {now : R} {σ' : XState R}
    (hupdate : XState.Updated c σ x0 x1 d now σ') (y0 y1 : XNode) :
    kSumOr σ' y0 y1 =
      kSumOr σ y0 y1 + portion (σ.Above x0 y0 ∧ σ.Above x1 y1) d := by
  by_cases habove : σ.Above x0 y0 ∧ σ.Above x1 y1
  · rw [portion_of habove, kSumOr, hupdate.above habove.1 habove.2, kSumOr]
    cases σ.kLookup y0 y1 with
    | none => rfl
    | some k => rfl
  · rw [portion_of_not habove, kSumOr, hupdate.other habove, kSumOr, add_zero]

omit [Field R] [LinearOrder R] [FloorRing R] in
/-- The provider `y1` is above the server when one of its children is. -/
theorem exists_child_above (hσ : StateOk σ) {s y1 : XNode} (hserv : s.xType = .serv)
    (hy1 : y1.xType = .fs ∨ y1.xType = .v) :
    (∃ child ∈ σ.children y1, σ.Above s child) ↔ σ.Above s y1 := by
  constructor
  · rintro ⟨child, hchild, habove⟩
    exact habove.tail ((hσ.tree.linked.mem_children y1 child).1 hchild)
  · intro habove
    rcases Relation.ReflTransGen.cases_tail habove with heq | ⟨child, hchild, hparent⟩
    · rw [heq, hserv] at hy1
      exact absurd hy1 (by decide)
    · exact ⟨child, (hσ.tree.linked.mem_children y1 child).2 hparent, hchild⟩

omit [Field R] [LinearOrder R] [FloorRing R] in
/-- A host has an ancestor on each level. -/
theorem exists_above (hσ : StateOk σ) {x : XNode} (hx : σ.Live x)
    (hhost : x.xType = .host) :
    (∃ y ∈ σ.nodes .host, σ.Above x y) ∧ ∃ y ∈ σ.nodes .clus, σ.Above x y := by
  obtain ⟨j, hj, hjob⟩ := hσ.tree.exists_parent hx
    (by rw [hhost]; rfl : x.xType.up = some .job)
  have hjlive := hσ.tree.parent_live hj
  obtain ⟨p, hp, hclus⟩ := hσ.tree.exists_parent hjlive
    (by rw [hjob]; rfl : j.xType.up = some .clus)
  exact ⟨⟨x, hσ.tree.mem_nodes.2 ⟨hx, hhost⟩, .refl⟩,
    p, hσ.tree.mem_nodes.2 ⟨hσ.tree.parent_live hp, hclus⟩, .head hj (.single hp)⟩

/-- Both sides of the totals over consumers of one type grow by the delta. -/
theorem consumers_update (hσ : StateOk σ) {x0 x1 : XNode} (hx0 : σ.Live x0)
    (h0 : x0.which = 0) {d : Stats R} {now : R} {σ' : XState R}
    (hupdate : XState.Updated c σ x0 x1 d now σ') {type : XType}
    (habove : ∃ y ∈ σ.nodes type, σ.Above x0 y) (y1 : XNode)
    (hsum : kSumOr σ (σ.xAll 0) y1 =
      ((σ.nodes type).map fun y0 => kSumOr σ y0 y1).sum) :
    kSumOr σ' (σ.xAll 0) y1 =
      ((σ.nodes type).map fun y0 => kSumOr σ' y0 y1).sum := by
  have hroot : σ.Above x0 (σ.xAll 0) := h0 ▸ hσ.tree.above_root hx0
  have hunique : ∀ a ∈ σ.nodes type, ∀ b ∈ σ.nodes type,
      (σ.Above x0 a ∧ σ.Above x1 y1) → (σ.Above x0 b ∧ σ.Above x1 y1) → a = b :=
    fun a ha b hb hPa hPb => hσ.tree.above_unique hPa.1 hPb.1
      (by rw [hσ.tree.typed ha, hσ.tree.typed hb])
  have hsame : (∃ y ∈ σ.nodes type, σ.Above x0 y ∧ σ.Above x1 y1) ↔
      σ.Above x0 (σ.xAll 0) ∧ σ.Above x1 y1 := by
    obtain ⟨y, hy, hxy⟩ := habove
    constructor
    · rintro ⟨_, _, _, h1⟩
      exact ⟨hroot, h1⟩
    · rintro ⟨-, h1⟩
      exact ⟨y, hy, hxy, h1⟩
  have hgrowth := funext fun y0 => kSumOr_update hupdate y0 y1
  rw [kSumOr_update hupdate, hsum, hgrowth, List.sum_map_add,
    sum_portion (hσ.tree.nodup_nodes type) hunique, hsame]

theorem update (h : Conserved σ) (hσ : StateOk σ) {x0 x1 : XNode} (hx0 : σ.Live x0)
    (hhost : x0.xType = .host) (hserv : x1.xType = .serv) {d : Stats R} {now : R}
    {σ' : XState R} (hupdate : XState.Updated c σ x0 x1 d now σ') :
    Conserved σ' := by
  have h0 : x0.which = 0 := by rw [XNode.which, hhost]; rfl
  obtain ⟨hhosts, hclus⟩ := exists_above hσ hx0 hhost
  refine ⟨?_, ?_, ?_⟩
  · intro y0 y1 hlive hy1
    rw [hupdate.tree] at hlive ⊢
    have hunique : ∀ a ∈ σ.children y1, ∀ b ∈ σ.children y1,
        (σ.Above x0 y0 ∧ σ.Above x1 a) → (σ.Above x0 y0 ∧ σ.Above x1 b) → a = b := by
      intro a ha b hb hPa hPb
      have hra := hσ.tree.rank_of_parent ((hσ.tree.linked.mem_children y1 a).1 ha)
      have hrb := hσ.tree.rank_of_parent ((hσ.tree.linked.mem_children y1 b).1 hb)
      exact hσ.tree.above_unique hPa.2 hPb.2 (by omega)
    have hsame : (∃ child ∈ σ.children y1, σ.Above x0 y0 ∧ σ.Above x1 child) ↔
        σ.Above x0 y0 ∧ σ.Above x1 y1 := by
      rw [← exists_child_above hσ hserv hy1]
      constructor
      · rintro ⟨child, hchild, habove0, habove1⟩
        exact ⟨habove0, child, hchild, habove1⟩
      · rintro ⟨habove0, child, hchild, habove1⟩
        exact ⟨child, hchild, habove0, habove1⟩
    have hgrowth := funext fun child => kSumOr_update hupdate y0 child
    rw [kSumOr_update hupdate, h.children y0 hlive hy1, hgrowth, List.sum_map_add,
      sum_portion (hσ.tree.linked.nodup_children y1) hunique, hsame]
  · intro y1
    rw [hupdate.tree]
    exact consumers_update hσ hx0 h0 hupdate hclus y1 (h.clus y1)
  · intro y1
    rw [hupdate.tree]
    exact consumers_update hσ hx0 h0 hupdate hhosts y1 (h.hosts y1)

omit [LinearOrder R] [FloorRing R] in
/-- A step that changes no total, no child list of a provider and no list of
clusters or hosts. -/
theorem of_kept (h : Conserved σ) {σ' : XState R}
    (hsum : ∀ x0 x1, kSumOr σ' x0 x1 = kSumOr σ x0 x1)
    (hall : σ'.xAll = σ.xAll) (hlive : ∀ {x}, σ'.Live x → σ.Live x)
    (hchildren : ∀ {x}, x.xType = .fs ∨ x.xType = .v → σ'.children x = σ.children x)
    (hclus : σ'.nodes .clus = σ.nodes .clus)
    (hhosts : σ'.nodes .host = σ.nodes .host) : Conserved σ' := by
  have hsame : kSumOr σ' = kSumOr σ := funext fun x0 => funext (hsum x0)
  refine ⟨fun x0 x1 hx1 htype => ?_, fun x1 => ?_, fun x1 => ?_⟩
  · rw [hsame, hchildren htype]
    exact h.children x0 (hlive hx1) htype
  · rw [hsame, hall, hclus]
    exact h.clus x1
  · rw [hsame, hall, hhosts]
    exact h.hosts x1

omit [LinearOrder R] [FloorRing R] in
theorem create (h : Conserved σ) (hσ : StateOk σ) {type : XType} {p : XNode}
    {name : CString} (hp : σ.Live p) :
    Conserved { σ with toXTree := (σ.xInit type (some p) (strHash name) name).2 } := by
  have hdead := hσ.tree.not_live_next type (strHash name) name
  have hnew0 : ∀ x1, kSumOr σ (σ.next type (strHash name) name) x1 = 0 := fun x1 =>
    kSumOr_of_none (hσ.kLookup_eq_none fun hlive => hdead hlive.1)
  have hnew1 : ∀ x0, kSumOr σ x0 (σ.next type (strHash name) name) = 0 := fun x0 =>
    kSumOr_of_none (hσ.kLookup_eq_none fun hlive => hdead hlive.2)
  have hnodes : ∀ (other : XType) x1,
      (((σ.xInit type (some p) (strHash name) name).2.nodes other).map
        fun x0 => kSumOr σ x0 x1).sum =
      ((σ.nodes other).map fun x0 => kSumOr σ x0 x1).sum := by
    intro other x1
    rcases eq_or_ne other type with rfl | hne
    · rw [((σ.nodes_xInit other (strHash name) name (some p)).map _).sum_eq,
        List.map_cons, List.sum_cons, hnew0, zero_add]
    · rw [σ.nodes_xInit_of_ne type (strHash name) name (some p) hne]
  have hall := σ.xInit_xAll type (strHash name) name (some p)
  refine ⟨fun x0 x1 hx1 htype => ?_, fun x1 => ?_, fun x1 => ?_⟩
  · change kSumOr σ x0 x1 = (((σ.xInit type (some p) (strHash name) name).2.children
      x1).map (kSumOr σ x0)).sum
    rw [hσ.tree.children_xInit hp]
    split
    · next heq =>
        subst heq
        rw [List.map_append, List.sum_append, List.map_singleton, List.sum_singleton,
          hnew1, add_zero]
        exact h.children x0 hp htype
    · rcases (σ.live_xInit type (strHash name) name (some p)).1 hx1 with rfl | hx1
      · rw [hnew1, XTree.children, hσ.tree.cleared hdead]
        rfl
      · exact h.children x0 hx1 htype
  · exact (congrArg (kSumOr σ · x1) (congrFun hall 0)).trans
      ((h.clus x1).trans (hnodes .clus x1).symm)
  · exact (congrArg (kSumOr σ · x1) (congrFun hall 0)).trans
      ((h.hosts x1).trans (hnodes .host x1).symm)

omit [LinearOrder R] [FloorRing R] in
theorem move (h : Conserved σ) (hσ : StateOk σ) {x p : XNode}
    (hhost : x.xType = .host) (hjob : p.xType = .job) :
    Conserved { σ with toXTree := σ.xSetParent x (some p) } := by
  refine h.of_kept (fun _ _ => rfl) (σ.xSetParent_xAll x (some p))
    (XTree.live_xSetParent _).1 (fun {y} htype => ?_)
    (σ.nodes_xSetParent x (some p) .clus) (σ.nodes_xSetParent x (some p) .host)
  refine XTree.children_xSetParent_of_ne (fun hparent => ?_) ?_
  · have hup := hσ.tree.up_of_parent hparent
    rw [hhost] at hup
    rcases htype with htype | htype <;> rw [htype] at hup <;> cases hup
  · rintro rfl
    rw [hjob] at htype
    exact absurd htype (by decide)

omit [LinearOrder R] [FloorRing R] in
theorem destroy (h : Conserved σ) (hσ : StateOk σ) {x : XNode} (hx : σ.Live x)
    (hjob : x.xType = .job) (hempty : σ.children x = []) {σ' : XState R}
    (hdestroy : XState.Destroyed σ x σ') : Conserved σ' := by
  obtain ⟨q, hq, hclus⟩ := hσ.tree.exists_parent hx
    (by rw [hjob]; rfl : x.xType.up = some .clus)
  have hgone : ∀ x1, kSumOr σ' x x1 = 0 := fun x1 => kSumOr_of_none (hdestroy.gone x1)
  have hother : ∀ {x0} x1, x0 ≠ x → kSumOr σ' x0 x1 = kSumOr σ x0 x1 :=
    fun x1 hne => by rw [kSumOr, hdestroy.other x1 hne, kSumOr]
  have hroot : σ.xAll 0 ≠ x := XNode.ne_of_types (hσ.tree.all_type 0) hjob (by decide)
  have hnodes : ∀ {type}, type ≠ .job → (σ.xRemove x).nodes type = σ.nodes type :=
    fun hne => XTree.TreeOk.nodes_xRemove_of_ne hempty (hjob ▸ hne)
  have hconsumers : ∀ {type} x1, type ≠ .job →
      ((σ.nodes type).map fun x0 => kSumOr σ' x0 x1) =
        (σ.nodes type).map fun x0 => kSumOr σ x0 x1 := by
    intro type x1 hne
    refine List.map_congr_left fun x0 hx0 => hother x1 ?_
    rintro rfl
    exact hne ((hσ.tree.typed hx0).symm.trans hjob)
  refine ⟨fun x0 x1 hx1 htype => ?_, fun x1 => ?_, fun x1 => ?_⟩
  · have hne : x1 ≠ q := by
      rintro rfl
      rw [hclus] at htype
      exact absurd htype (by decide)
    rw [hdestroy.tree] at hx1 ⊢
    rw [hσ.tree.children_xRemove hq hempty, if_neg hne]
    by_cases hx0 : x0 = x
    · subst hx0
      have hzero : kSumOr σ' x0 = fun _ => 0 := funext hgone
      rw [hzero]
      simp
    · rw [hother x1 hx0, h.children x0 ((hσ.tree.live_xRemove hx hempty).1 hx1).1 htype]
      exact congrArg List.sum (List.map_congr_left fun y _ => (hother y hx0).symm)
  · rw [hdestroy.tree, XTree.TreeOk.xRemove_xAll hempty, hnodes (by decide),
      hconsumers x1 (by decide), hother x1 hroot]
    exact h.clus x1
  · rw [hdestroy.tree, XTree.TreeOk.xRemove_xAll hempty, hnodes (by decide),
      hconsumers x1 (by decide), hother x1 hroot]
    exact h.hosts x1

theorem freshen (h : Conserved σ) (c : KConf R) (x0 x1 : XNode) (now : R) :
    Conserved (σ.kModify x0 x1 fun k => kFreshen c k now) := by
  refine h.of_kept (fun y0 y1 => ?_) rfl id (fun _ => rfl) rfl rfl
  rw [kSumOr, XState.kLookup_freshen, Option.map_map, kSumOr]
  refine congrArg (fun o : Option (Stats R) => o.getD 0) ?_
  refine congrArg (Option.map · _) (funext fun k => ?_)
  rw [Function.comp_apply]
  split <;> rfl

/-- Every step keeps the totals in agreement. -/
theorem step (h : Conserved σ) (hσ : StateOk σ) {calls : List (Call R)}
    {σ' : XState R} (hstep : XStep c σ calls σ') : Conserved σ' := by
  cases hstep with
  | create hp hup hname => exact h.create hσ hp
  | move hx hhost hp hjob => exact h.move hσ hhost hjob
  | update hx0 hhost hx1 hserv d now =>
      exact h.update hσ hx0 hhost hserv
        (updated_of_step c hσ hx0 hhost hx1 hserv d now)
  | destroy hx hjob hempty =>
      exact h.destroy hσ hx hjob hempty (destroyed_of_step hσ hjob)
  | freshen x0 x1 now => exact h.freshen c x0 x1 now

omit [LinearOrder R] [FloorRing R] in
/-- Everything is zero in an empty table. -/
theorem start {σ : XState R} (hnone : ∀ x0 x1, σ.kLookup x0 x1 = none) :
    Conserved σ := by
  have hzero : ∀ x0 x1, kSumOr σ x0 x1 = 0 := fun x0 x1 => kSumOr_of_none (hnone x0 x1)
  refine ⟨fun x0 x1 _ _ => ?_, fun x1 => ?_, fun x1 => ?_⟩
  · have hrow : kSumOr σ x0 = fun _ => 0 := funext (hzero x0)
    rw [hrow]
    simp
  · simp [hzero]
  · simp [hzero]

theorem run {σ σ' : XState R} (hσ : StateOk σ)
    (hnone : ∀ x0 x1, σ.kLookup x0 x1 = none) {calls : List (Call R)}
    (hrun : XRun c σ calls σ') : Conserved σ' :=
  (hrun.induct (motive := fun _ σ => StateOk σ ∧ Conserved σ) ⟨hσ, start hnone⟩
    fun h hstep => ⟨h.1.step hstep, h.2.step h.1 hstep⟩).2

end Conserved

end Xltop.Master
