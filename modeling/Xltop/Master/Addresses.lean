import Xltop.Master.Served

/-!
# Where paths lead

The paths that servers, clusters and clients use, by their components, however
many slashes stand between them.
-/

namespace Xltop.Master

open Xltop.Buffer
open Xltop.Hash
open Xltop.Http (BotzListen Creates Flat Place Request components landing placeChild placeData
  placeOps)
open Xltop.Status
open Xltop.Text

variable {R : Type*}

/-- The directories whose nodes have entries of their own, with the operations
of the directory and of these entries. -/
inductive Directory : XType → EntryOps → EntryOps → Prop where
  | serv : Directory .serv .servDirOps .servEntryOps
  | clus : Directory .clus .clusDirOps .clusEntryOps
  | fs : Directory .fs .fsDirOps .fsEntryOps

/-- A component that stands for itself. -/
def IsComponent (name : CString) : Prop :=
  name ≠ [] ∧ name ≠ lit "." ∧ name ≠ lit ".."

instance (name : CString) : Decidable (IsComponent name) :=
  inferInstanceAs (Decidable (_ ∧ _))

theorem isComponent_name (type : XType) : IsComponent type.name := by
  cases type <;> decide +kernel

section Roots

variable (block : ℕ → Option UInt64)

theorem rootsOf_block : Http.rootsOf (entryEnv block) masterEntries =
    Http.rootsOf (entryEnv fun _ => none) masterEntries := rfl

theorem rootsOf_directory {type : XType} {dirOps entryOps : EntryOps}
    (h : Directory type dirOps entryOps) :
    Http.rootsOf (entryEnv block) masterEntries type.name =
      some (some dirOps, some (.type type)) := by
  rw [rootsOf_block]
  cases h <;> decide +kernel

theorem rootsOf_domains :
    Http.rootsOf (entryEnv block) masterEntries (lit "_domains") =
      some (some .domainsEntryOps, none) := by
  rw [rootsOf_block]
  decide +kernel

end Roots

theorem siteCreated_directory {type : XType} {dirOps entryOps : EntryOps}
    (h : Directory type dirOps entryOps) (m : Daemon R) (data : Option EData) (name : CString) :
    siteCreated m dirOps data name =
      (m.xLookup type name).map fun x => (entryOps, .node x) := by
  cases h <;> rfl

theorem siteCreated_entry {type : XType} {dirOps entryOps : EntryOps}
    (h : Directory type dirOps entryOps) (m : Daemon R) (data : Option EData) (name : CString) :
    siteCreated m entryOps data name = none := by
  cases h <;> rfl

section Reach

variable {m : Daemon R} {block : ℕ → Option UInt64} {bl : BotzListen EntryOps EData}
  {q : Request} {path : CString} {type : XType} {dirOps entryOps : EntryOps} {x : XNode}
  {name below : CString}

/-- A component of a place that has been created. -/
theorem placeChild_created {e : Http.BotzEntry} {new : EntryOps × EData}
    {above : List (EntryOps × EData)} (created : Creates EntryOps EData) (name : CString) :
    placeChild bl created (e, new :: above) name =
      (created new.1 (some new.2) name).map fun new' => (e, new' :: new :: above) := by
  rw [placeChild, Http.placeStatic, if_neg (List.cons_ne_nil _ _)]
  rfl

/-- A component of an entry below the root. -/
theorem placeChild_below {roots : Http.Roots EntryOps EData}
    (hflat : Flat (entryEnv block) bl roots) {e : Http.BotzEntry} (hne : e ≠ bl.blRootEntry)
    {ops : EntryOps} (hops : bl.eOps e = some ops)
    (created : Creates EntryOps EData) (name : CString) :
    placeChild bl created (e, []) name =
      (created ops (bl.eData e) name).map fun new => (e, [new]) := by
  rw [placeChild, Http.placeStatic, if_pos rfl, hflat.child_eq_none hne]
  simp only [placeOps, placeData, hops, Option.bind_some]

variable (hflat : Flat (entryEnv block) bl (Http.rootsOf (entryEnv block) masterEntries))
  (hpath : q.qPath = some path)

include hflat hpath

/-- The first two components of a path to a node, and what is left. -/
theorem reach_directory (h : Directory type dirOps entryOps) {rest : List CString}
    (hcomponents : components path = type.name :: name :: rest) (hname : IsComponent name)
    (hx : m.xLookup type name = some x) :
    ∃ e left, reach bl (siteCreated m) q =
        landing bl (siteCreated m) (some (e, [(entryOps, .node x)])) left ∧
      refTokens Http.isSlash left = rest := by
  obtain ⟨e, hchild, hne, hops, -⟩ := hflat.placeChild_root (isComponent_name type).1
    (rootsOf_directory block h) (siteCreated m)
  have htokens : refTokens Http.isSlash (some path) = type.name :: name :: rest := hcomponents
  obtain ⟨left₁, hland₁, hleft₁⟩ := Http.landing_child (siteCreated m) htokens
    (isComponent_name type).2.1 (isComponent_name type).2.2 hchild
  have hnode : placeChild bl (siteCreated m) (e, []) name = some (e, [(entryOps, .node x)]) := by
    rw [placeChild_below hflat hne hops, siteCreated_directory h, hx]
    rfl
  obtain ⟨left, hland, hleft⟩ :=
    Http.landing_child (siteCreated m) hleft₁ hname.2.1 hname.2.2 hnode
  refine ⟨e, left, ?_, hleft⟩
  rw [reach, hpath]
  exact hland₁.trans hland

/-- A path to a component of a node. -/
theorem reach_below (h : Directory type dirOps entryOps)
    (hcomponents : components path = [type.name, name, below]) (hname : IsComponent name)
    (hbelow : IsComponent below) (hx : m.xLookup type name = some x) :
    ∃ e, reach bl (siteCreated m) q = .beyond (e, [(entryOps, .node x)]) below none := by
  obtain ⟨e, left, hreach, hleft⟩ := reach_directory hflat hpath h hcomponents hname hx
  refine ⟨e, hreach.trans (Http.landing_missing (siteCreated m) hleft hbelow.2.1 hbelow.2.2 ?_)⟩
  rw [placeChild_created, siteCreated_entry h]
  rfl

/-- A path to an entry below the root. -/
theorem reach_root (hcomponents : components path = [name]) (hname : IsComponent name)
    {ops : EntryOps} {data : Option EData}
    (hroot : Http.rootsOf (entryEnv block) masterEntries name = some (some ops, data)) :
    ∃ v, reach bl (siteCreated m) q = .place v ∧ placeOps bl v = some ops ∧
      placeData bl v = data := by
  obtain ⟨e, hchild, -, hops, hdata⟩ := hflat.placeChild_root hname.1 hroot (siteCreated m)
  have htokens : refTokens Http.isSlash (some path) = [name] := hcomponents
  obtain ⟨left, hland, hleft⟩ :=
    Http.landing_child (siteCreated m) htokens hname.2.1 hname.2.2 hchild
  refine ⟨(e, []), ?_, hops, hdata⟩
  rw [reach, hpath]
  exact hland.trans (Http.landing_end hleft)

end Reach

end Xltop.Master
