import Xltop.Heap.KHeap
import Xltop.Master.Steps

/-!
# The walks of queries

A top query walks down both trees to given depths and offers the pairs it
finds to the heap; a GET of a server walks down to the hosts.  Both bring the
statistics they report up to date, and change nothing else.
-/

namespace Xltop.Master

open Xltop.Heap
open Xltop.Rate

variable {R : Type*} [Field R] [LinearOrder R] [FloorRing R]

omit [LinearOrder R] [FloorRing R] in
/-- The entries of a heap that is still empty. -/
instance : Inhabited (KNode XNode R) := ⟨kInit default default⟩

/-- The last branch of `k_heap_top`. -/
def offer (c : KConf R) (cmp : KNode XNode R → KNode XNode R → ℤ) (now : R)
    (s : XState R × KHeap (KNode XNode R)) (x0 x1 : XNode) :
    XState R × KHeap (KNode XNode R) :=
  match s.1.kLookup x0 x1 with
  | none => s
  | some k =>
      (s.1.kModify x0 x1 fun k => kFreshen c k now,
        kHeapAdd cmp s.2 (kFreshen c k now))

/-- `k_heap_top`.  The heap of the source holds pointers; no statistic changes
between being offered and the end of the query. -/
def kHeapTop (c : KConf R) (cmp : KNode XNode R → KNode XNode R → ℤ) (now : R)
    (d0 d1 : ℕ) (filt : Option (KNode XNode R → ℤ))
    (s : XState R × KHeap (KNode XNode R)) (x0 x1 : XNode) :
    XState R × KHeap (KNode XNode R) :=
  match s.1.kLookup x0 x1 with
  | none => s
  | some k =>
      let f : ℤ := match filt with
        | none => 0
        | some filt => filt k
      if f < 0 then s
      else
        let filt := if 0 < f then none else filt
        match d0, d1 with
        | d0 + 1, d1 => (s.1.children x0).foldl
            (fun s child => kHeapTop c cmp now d0 d1 filt s child x1) s
        | 0, d1 + 1 => (s.1.children x1).foldl
            (fun s child => kHeapTop c cmp now 0 d1 filt s x0 child) s
        | 0, 0 => offer c cmp now s x0 x1
termination_by d0 + d1

/-- `serv_get_r`, to a depth of `fuel` calls; the second component are the
statistics that it prints. -/
def servGetR (c : KConf R) (now : R) :
    ℕ → XState R × List (KNode XNode R) → XNode → XNode →
      XState R × List (KNode XNode R)
  | 0, s, _, _ => s
  | fuel + 1, s, x0, sx =>
      match s.1.kLookup x0 sx with
      | none => s
      | some k =>
          if x0.xType = .host then
            (s.1.kModify x0 sx fun k => kFreshen c k now,
              s.2 ++ [kFreshen c k now])
          else (s.1.children x0).foldl
            (fun s child => servGetR c now fuel s child sx) s

/-! ## Walks only bring statistics up to date -/

/-- Node steps that make no call, leave the trees alone, and neither add nor
remove a pair. -/
structure Reads (c : KConf R) (σ σ' : XState R) : Prop where
  run : XRun c σ [] σ'
  tree : σ'.toXTree = σ.toXTree
  pairs : ∀ x0 x1, σ'.kLookup x0 x1 = none ↔ σ.kLookup x0 x1 = none

namespace Reads

variable {c : KConf R} {cmp : KNode XNode R → KNode XNode R → ℤ} {now : R}
  {σ σ' σ'' : XState R}

theorem refl : Reads c σ σ :=
  ⟨.refl, rfl, fun _ _ => .rfl⟩

theorem trans (h : Reads c σ σ') (h' : Reads c σ' σ'') : Reads c σ σ'' :=
  ⟨h.run.trans h'.run, h'.tree.trans h.tree, fun x0 x1 =>
    (h'.pairs x0 x1).trans (h.pairs x0 x1)⟩

theorem freshen (x0 x1 : XNode) (now : R) :
    Reads c σ (σ.kModify x0 x1 fun k => kFreshen c k now) :=
  ⟨.single (.freshen x0 x1 now), rfl, fun y0 y1 => by
    rw [XState.kLookup_freshen, Option.map_eq_none_iff]⟩

theorem foldl {α β : Type*} {body : XState R × β → α → XState R × β}
    (hbody : ∀ s a, Reads c s.1 (body s a).1) (l : List α) (s : XState R × β) :
    Reads c s.1 (l.foldl body s).1 := by
  induction l generalizing s with
  | nil => exact .refl
  | cons a l ih => exact (hbody s a).trans (ih (body s a))

theorem offer (s : XState R × KHeap (KNode XNode R)) (x0 x1 : XNode) :
    Reads c s.1 (offer c cmp now s x0 x1).1 := by
  rw [Master.offer]
  cases s.1.kLookup x0 x1 with
  | none => exact .refl
  | some k => exact .freshen x0 x1 now

theorem kHeapTop (d0 d1 : ℕ) (filt : Option (KNode XNode R → ℤ))
    (s : XState R × KHeap (KNode XNode R)) (x0 x1 : XNode) :
    Reads c s.1 (kHeapTop c cmp now d0 d1 filt s x0 x1).1 := by
  induction hdepth : d0 + d1 using Nat.strongRecOn generalizing d0 d1 filt s x0 x1 with
  | ind depth ih =>
      rw [Master.kHeapTop]
      cases s.1.kLookup x0 x1 with
      | none => exact .refl
      | some k =>
          simp only
          split_ifs
          · exact .refl
          all_goals
            split
            · exact foldl (fun s child => ih _ (by omega) _ _ _ s child x1 rfl) _ s
            · exact foldl (fun s child => ih _ (by omega) _ _ _ s x0 child rfl) _ s
            · exact offer s x0 x1

theorem servGetR (fuel : ℕ) (s : XState R × List (KNode XNode R)) (x0 sx : XNode) :
    Reads c s.1 (servGetR c now fuel s x0 sx).1 := by
  induction fuel generalizing s x0 with
  | zero => exact .refl
  | succ fuel ih =>
      rw [Master.servGetR]
      cases s.1.kLookup x0 sx with
      | none => exact .refl
      | some k =>
          simp only
          split
          · exact .freshen x0 sx now
          · exact foldl (fun s child => ih s child) _ s

end Reads

/-! ## The heap of a walk -/

/-- What `k_heap_add` keeps, `k_heap_top` keeps. -/
theorem kHeapTop_keeps (c : KConf R) {cmp : KNode XNode R → KNode XNode R → ℤ} (now : R)
    {P : KHeap (KNode XNode R) → Prop} (hadd : ∀ h k, P h → P (kHeapAdd cmp h k)) (d0 d1 : ℕ)
    (filt : Option (KNode XNode R → ℤ)) (s : XState R × KHeap (KNode XNode R))
    (x0 x1 : XNode) (hs : P s.2) : P (kHeapTop c cmp now d0 d1 filt s x0 x1).2 := by
  have hfold : ∀ {body : XState R × KHeap (KNode XNode R) → XNode →
      XState R × KHeap (KNode XNode R)}, (∀ s a, P s.2 → P (body s a).2) →
      ∀ (l : List XNode) (s : XState R × KHeap (KNode XNode R)), P s.2 →
        P (l.foldl body s).2 :=
    fun {body} hbody l s hs => List.foldlRecOn (motive := fun s => P s.2) l body hs
      fun s hs a _ => hbody s a hs
  induction hdepth : d0 + d1 using Nat.strongRecOn generalizing d0 d1 filt s x0 x1 with
  | ind depth ih =>
      rw [kHeapTop]
      cases hk : s.1.kLookup x0 x1 with
      | none => exact hs
      | some k =>
          simp only
          split_ifs
          · exact hs
          all_goals
            split
            · exact hfold (fun s child hs => ih _ (by omega) _ _ _ s child x1 hs rfl) _ s hs
            · exact hfold (fun s child hs => ih _ (by omega) _ _ _ s x0 child hs rfl) _ s hs
            · rw [offer, hk]
              exact hadd _ _ hs

end Xltop.Master
