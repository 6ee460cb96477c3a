import Xltop.Master.Steps

/-!
# Where the totals come from

The total of a pair is the sum of the deltas of exactly those calls of
`x_update` that covered it, and the pair is in the table once there is such a
call.  A call before a node was created does not cover it, because nodes are
told apart by their allocation.
-/

namespace Xltop.Master

open Xltop.Hash
open Xltop.Rate

variable {R : Type*} [Field R] [LinearOrder R] [FloorRing R]

omit [LinearOrder R] [FloorRing R] in
open Classical in
/-- The sum of the deltas of the calls that covered a pair. -/
noncomputable def delivered (calls : List (Call R)) (x0 x1 : XNode) : Stats R :=
  (calls.map fun call => if call.Covers x0 x1 then call.d else 0).sum

omit [LinearOrder R] [FloorRing R] in
open Classical in
theorem delivered_append (calls : List (Call R)) (call : Call R) (x0 x1 : XNode) :
    delivered (calls ++ [call]) x0 x1 =
      delivered calls x0 x1 + if call.Covers x0 x1 then call.d else 0 := by
  simp [delivered]

omit [LinearOrder R] [FloorRing R] in
theorem delivered_eq_zero {calls : List (Call R)} {x0 x1 : XNode}
    (h : ∀ call ∈ calls, ¬ call.Covers x0 x1) : delivered calls x0 x1 = 0 := by
  refine List.sum_eq_zero fun amount hamount => ?_
  obtain ⟨call, hcall, rfl⟩ := List.mem_map.1 hamount
  rw [if_neg (h call hcall)]

/-- The table says what the calls delivered. -/
structure Attributed (calls : List (Call R)) (σ : XState R) : Prop where
  created : ∀ call ∈ calls, ∀ {x0 x1}, call.Covers x0 x1 →
    call.tree.Live x0 ∧ call.tree.Live x1
  older : ∀ call ∈ calls, ∀ {x0 x1}, call.Covers x0 x1 →
    x0.addr < σ.mallocs ∧ x1.addr < σ.mallocs
  exists_iff : ∀ {x0 x1}, σ.Live x0 → x0.which = 0 → σ.Live x1 → x1.which = 1 →
    ((∃ k, σ.kLookup x0 x1 = some k) ↔ ∃ call ∈ calls, call.Covers x0 x1)
  kSum_eq : ∀ {x0 x1 k}, σ.kLookup x0 x1 = some k →
    k.kSum = delivered calls x0 x1

namespace Attributed

variable {c : KConf R} {calls : List (Call R)} {σ : XState R}

omit [LinearOrder R] [FloorRing R] in
/-- A step that makes no call, destroys or creates nodes, and keeps the totals
of the nodes that stay. -/
theorem of_kept (h : Attributed calls σ) {σ' : XState R}
    (hmallocs : σ.mallocs ≤ σ'.mallocs)
    (hfresh : ∀ {x}, σ'.Live x → σ.Live x ∨ σ.mallocs ≤ x.addr)
    (hdead : ∀ {x0 x1}, σ.mallocs ≤ x0.addr ∨ σ.mallocs ≤ x1.addr →
      σ'.kLookup x0 x1 = none)
    (hkept : ∀ {x0 x1}, σ'.Live x0 → σ'.Live x1 →
      (σ'.kLookup x0 x1).map KNode.kSum = (σ.kLookup x0 x1).map KNode.kSum)
    (hends : ∀ {x0 x1 k}, σ'.kLookup x0 x1 = some k → σ'.Live x0 ∧ σ'.Live x1) :
    Attributed calls σ' where
  created := h.created
  older call hcall x0 x1 hcovers :=
    ⟨(h.older call hcall hcovers).1.trans_le hmallocs,
      (h.older call hcall hcovers).2.trans_le hmallocs⟩
  exists_iff := by
    intro x0 x1 hx0 h0 hx1 h1
    by_cases hold : σ.Live x0 ∧ σ.Live x1
    · rw [← h.exists_iff hold.1 h0 hold.2 h1, ← Option.ne_none_iff_exists',
        ← Option.ne_none_iff_exists', ne_eq, ne_eq, ← Option.map_eq_none_iff,
        hkept hx0 hx1, Option.map_eq_none_iff]
    · have hnew : σ.mallocs ≤ x0.addr ∨ σ.mallocs ≤ x1.addr := by
        rcases not_and_or.1 hold with hdead | hdead
        · exact .inl ((hfresh hx0).resolve_left hdead)
        · exact .inr ((hfresh hx1).resolve_left hdead)
      rw [hdead hnew]
      constructor
      · rintro ⟨k, hk⟩
        cases hk
      · rintro ⟨call, hcall, hcovers⟩
        have holder := h.older call hcall hcovers
        omega
  kSum_eq := by
    intro x0 x1 k hk
    obtain ⟨hx0, hx1⟩ := hends hk
    have hsum := hkept hx0 hx1
    rw [hk, Option.map_some, eq_comm, Option.map_eq_some_iff] at hsum
    obtain ⟨k', hk', heq⟩ := hsum
    rw [← heq]
    exact h.kSum_eq hk'

/-- A call delivers its delta to the pairs it covers. -/
theorem update (h : Attributed calls σ) (hσ : StateOk σ) {x0 x1 : XNode}
    (hx0 : σ.Live x0) (hx1 : σ.Live x1) {d : Stats R} {now : R} {σ' : XState R}
    (h0 : x0.which = 0) (h1 : x1.which = 1)
    (hupdate : XState.Updated c σ x0 x1 d now σ') :
    Attributed (calls ++ [⟨σ.toXTree, x0, x1, d⟩]) σ' where
  created := by
    intro call hcall y0 y1 hcovers
    rcases List.mem_append.1 hcall with hold | hnew
    · exact h.created call hold hcovers
    · rw [List.mem_singleton.1 hnew] at hcovers ⊢
      exact ⟨hσ.tree.live_of_above hx0 hcovers.1, hσ.tree.live_of_above hx1 hcovers.2⟩
  older := by
    rw [hupdate.tree]
    intro call hcall y0 y1 hcovers
    rcases List.mem_append.1 hcall with hold | hnew
    · exact h.older call hold hcovers
    · rw [List.mem_singleton.1 hnew] at hcovers
      exact ⟨hσ.tree.addr_lt (hσ.tree.live_of_above hx0 hcovers.1),
        hσ.tree.addr_lt (hσ.tree.live_of_above hx1 hcovers.2)⟩
  exists_iff := by
    rw [hupdate.tree]
    intro y0 y1 hy0 hw0 hy1 hw1
    have hold := h.exists_iff hy0 hw0 hy1 hw1
    by_cases hcovers : σ.Above x0 y0 ∧ σ.Above x1 y1
    · rw [hupdate.above hcovers.1 hcovers.2]
      refine iff_of_true ⟨_, rfl⟩ ⟨⟨σ.toXTree, x0, x1, d⟩, ?_, hcovers⟩
      exact List.mem_append_right _ (List.mem_singleton_self _)
    · rw [hupdate.other hcovers, hold]
      constructor
      · rintro ⟨call, hcall, hcov⟩
        exact ⟨call, List.mem_append_left _ hcall, hcov⟩
      · rintro ⟨call, hcall, hcov⟩
        rcases List.mem_append.1 hcall with hcall | hnew
        · exact ⟨call, hcall, hcov⟩
        · rw [List.mem_singleton.1 hnew] at hcov
          exact absurd hcov hcovers
  kSum_eq := by
    intro y0 y1 k hk
    rw [delivered_append]
    by_cases hcovers : σ.Above x0 y0 ∧ σ.Above x1 y1
    · rw [hupdate.above hcovers.1 hcovers.2] at hk
      rw [← Option.some.inj hk, kUpdate_kSum,
        if_pos (show Call.Covers ⟨σ.toXTree, x0, x1, d⟩ y0 y1 from hcovers)]
      cases hk' : σ.kLookup y0 y1 with
      | some k' => rw [Option.getD_some, h.kSum_eq hk']
      | none =>
          have hnone : ∀ call ∈ calls, ¬ call.Covers y0 y1 := by
            intro call hcall hcov
            obtain ⟨k', hk''⟩ := (h.exists_iff
              (hσ.tree.live_of_above hx0 hcovers.1)
              ((hσ.tree.which_of_above hcovers.1).trans h0)
              (hσ.tree.live_of_above hx1 hcovers.2)
              ((hσ.tree.which_of_above hcovers.2).trans h1)).2 ⟨call, hcall, hcov⟩
            rw [hk'] at hk''
            cases hk''
          rw [Option.getD_none, delivered_eq_zero hnone]
          rfl
    · rw [hupdate.other hcovers] at hk
      rw [if_neg (show ¬ Call.Covers ⟨σ.toXTree, x0, x1, d⟩ y0 y1 from hcovers),
        add_zero]
      exact h.kSum_eq hk

/-- Every step keeps the attribution. -/
theorem step (h : Attributed calls σ) (hσ : StateOk σ) {more : List (Call R)}
    {σ' : XState R} (hstep : XStep c σ more σ') : Attributed (calls ++ more) σ' := by
  have hσ' := hσ.step hstep
  have hends : ∀ {x0 x1 k}, σ'.kLookup x0 x1 = some k → σ'.Live x0 ∧ σ'.Live x1 :=
    fun hk => ⟨(hσ'.pairs.consumer hk).1, (hσ'.pairs.provider hk).1⟩
  have hdead : ∀ {x0 x1 : XNode}, σ.mallocs ≤ x0.addr ∨ σ.mallocs ≤ x1.addr →
      σ.kLookup x0 x1 = none := fun hnew => hσ.kLookup_eq_none fun hlive => by
    have h0 := hσ.tree.addr_lt hlive.1
    have h1 := hσ.tree.addr_lt hlive.2
    omega
  cases hstep with
  | @create type p name hp hup hname =>
      have hmallocs := σ.xInit_mallocs type (strHash name) name (some p)
      rw [List.append_nil]
      refine h.of_kept (hmallocs.symm ▸ Nat.le_succ _) (fun {x} hx => ?_) hdead
        (fun _ _ => rfl) hends
      rcases (σ.live_xInit type (strHash name) name (some p)).1 hx with heq | hx
      · exact .inr (congrArg XNode.addr heq).ge
      · exact .inl hx
  | @move x p hx hhost hp hjob =>
      rw [List.append_nil]
      exact h.of_kept (σ.xSetParent_mallocs x (some p)).ge
        (fun hx => .inl ((XTree.live_xSetParent _).1 hx)) hdead (fun _ _ => rfl) hends
  | update hx0 hhost hx1 hserv d now =>
      exact h.update hσ hx0 hx1 (by rw [XNode.which, hhost]; rfl)
        (by rw [XNode.which, hserv]; rfl)
        (updated_of_step c hσ hx0 hhost hx1 hserv d now)
  | @destroy x hx hjob hempty =>
      have hdestroy := destroyed_of_step hσ hjob
      have hlive : ∀ {y}, (σ.xDestroy x).Live y ↔ σ.Live y ∧ y ≠ x := fun {y} => by
        rw [hdestroy.tree]
        exact hσ.tree.live_xRemove hx hempty
      rw [List.append_nil]
      refine h.of_kept ?_ (fun hy => .inl (hlive.1 hy).1) (fun {x0 x1} hnew => ?_)
        (fun {x0 x1} hx0 _ => ?_) hends
      · rw [hdestroy.tree, XTree.TreeOk.xRemove_mallocs hempty]
      · by_cases hx0 : x0 = x
        · rw [hx0, hdestroy.gone]
        · rw [hdestroy.other x1 hx0, hdead hnew]
      · rw [hdestroy.other x1 (hlive.1 hx0).2]
  | freshen x0 x1 now =>
      have hlookup := XState.kLookup_freshen c σ x0 x1 now
      rw [List.append_nil]
      refine h.of_kept le_rfl (fun hx => .inl hx) (fun {y0 y1} hnew => ?_)
        (fun {y0 y1} _ _ => ?_) hends
      · rw [hlookup, hdead hnew, Option.map_none]
      · rw [hlookup, Option.map_map]
        refine congrArg (Option.map · _) (funext fun k => ?_)
        rw [Function.comp_apply]
        split <;> rfl

omit [LinearOrder R] [FloorRing R] in
theorem start {σ : XState R} (hnone : ∀ x0 x1, σ.kLookup x0 x1 = none) :
    Attributed [] σ where
  created call hcall := absurd hcall List.not_mem_nil
  older call hcall := absurd hcall List.not_mem_nil
  exists_iff _ _ _ _ := by simp [hnone]
  kSum_eq hk := by
    rw [hnone] at hk
    cases hk

/-- Every run from an empty table keeps the attribution. -/
theorem run {σ : XState R} (hσ : StateOk σ) (hnone : ∀ x0 x1, σ.kLookup x0 x1 = none)
    {σ' : XState R} (hrun : XRun c σ calls σ') : Attributed calls σ' :=
  (hrun.induct (motive := fun calls σ => StateOk σ ∧ Attributed calls σ)
    ⟨hσ, start hnone⟩
    fun h hstep => ⟨h.1.step hstep, h.2.step h.1 hstep⟩).2

end Attributed

end Xltop.Master
