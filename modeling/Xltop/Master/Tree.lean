import Xltop.Master.XNode

/-!
# The two trees stay well formed

`TreeOk` says that the nodes of each type are a map from names to nodes, that
child lists and parent pointers describe the same forest, and that parents
have the type the level above prescribes.  The operations of `x_node.c` keep
it when they are called the way the master calls them.
-/

namespace Xltop.Master

open Function
open Xltop.Text
open Xltop.Hash

namespace XTree

variable (t : XTree)

/-! ## What each operation does to the links -/

section Links

variable (x p y : XNode)

theorem setLinks_links (f : XLinks → XLinks) : (t.setLinks x f).links y =
    if y = x then f (t.links x) else t.links y := by
  rcases eq_or_ne y x with rfl | hy
  · simp [setLinks]
  · simp [setLinks, hy]

@[simp]
theorem removeChild_parent : (t.removeChild p x).parent y =
    t.parent y := by
  by_cases hy : y = p <;>
    simp [parent, removeChild, setLinks_links, hy]

@[simp]
theorem appendChild_parent : (t.appendChild p x).parent y =
    t.parent y := by
  by_cases hy : y = p <;>
    simp [parent, appendChild, setLinks_links, hy]

@[simp]
theorem setParentLink_parent (q : Option XNode) : (t.setParentLink x q).parent y =
    if y = x then q else t.parent y := by
  by_cases hy : y = x <;>
    simp [parent, setParentLink, setLinks_links, hy]

@[simp]
theorem removeChild_children : (t.removeChild p x).children y =
    if y = p then (t.children p).erase x else t.children y := by
  by_cases hy : y = p <;>
    simp [children, removeChild, setLinks_links, hy]

@[simp]
theorem appendChild_children : (t.appendChild p x).children y =
    if y = p then t.children p ++ [x] else t.children y := by
  by_cases hy : y = p <;>
    simp [children, appendChild, setLinks_links, hy]

@[simp]
theorem setParentLink_children (q : Option XNode) : (t.setParentLink x q).children y =
    t.children y := by
  by_cases hy : y = x <;>
    simp [children, setParentLink, setLinks_links, hy]

@[simp]
theorem removeChild_nrChild : ((t.removeChild p x).links y).xNrChild =
    if y = p then (t.links p).xNrChild - 1 else (t.links y).xNrChild := by
  by_cases hy : y = p <;>
    simp [removeChild, setLinks_links, hy]

@[simp]
theorem appendChild_nrChild : ((t.appendChild p x).links y).xNrChild =
    if y = p then (t.links p).xNrChild + 1 else (t.links y).xNrChild := by
  by_cases hy : y = p <;>
    simp [appendChild, setLinks_links, hy]

@[simp]
theorem setParentLink_nrChild (q : Option XNode) : ((t.setParentLink x q).links y).xNrChild =
    (t.links y).xNrChild := by
  by_cases hy : y = x <;>
    simp [setParentLink, setLinks_links, hy]

end Links

/-! ## Child lists and parent pointers -/

/-- Child lists and parent pointers describe the same forest. -/
structure Linked : Prop where
  mem_children : ∀ p x, x ∈ t.children p ↔ t.parent x = some p
  nodup_children : ∀ p, (t.children p).Nodup
  nr_child : ∀ p, (t.links p).xNrChild = (t.children p).length

namespace Linked

variable {t} (h : t.Linked) {x p q : XNode}

include h

/-- A node goes to the end of the child list of another parent. -/
theorem move (hq : t.parent x = some q) (hne : q ≠ p) :
    (((t.removeChild q x).appendChild p x).setParentLink x (some p)).Linked := by
  have hmem : x ∈ t.children q := (h.mem_children q x).2 hq
  have hnot : x ∉ t.children p := fun hx => hne <| by
    simpa [hq] using (h.mem_children p x).1 hx
  refine ⟨fun r y => ?_, fun r => ?_, fun r => ?_⟩
  · have hold := h.mem_children r y
    rcases eq_or_ne y x with rfl | hy
    · rcases eq_or_ne r p with rfl | hr
      · simp
      · rcases eq_or_ne r q with rfl | hrq
        · simp [hr, (h.nodup_children r).not_mem_erase, hr.symm]
        · have hnone : y ∉ t.children r := fun hmem' => hrq <| by
            simpa [hq, eq_comm] using hold.1 hmem'
          simp [hr, hrq, hnone, hr.symm]
    · rcases eq_or_ne r p with rfl | hr
      · simp [hy, hne.symm, hold]
      · rcases eq_or_ne r q with rfl | hrq
        · simp [hr, hy, List.mem_erase_of_ne hy, hold]
        · simp [hr, hrq, hy, hold]
  · rcases eq_or_ne r p with rfl | hr
    · simpa [hne.symm] using
        List.nodup_append.2 ⟨h.nodup_children r, List.nodup_singleton x,
          fun a ha b hb heq => hnot (by simp_all)⟩
    · rcases eq_or_ne r q with rfl | hrq
      · simpa [hr] using (h.nodup_children r).erase x
      · simpa [hr, hrq] using h.nodup_children r
  · have hlength := h.nr_child r
    rcases eq_or_ne r p with rfl | hr
    · simp [hne.symm, hlength]
    · rcases eq_or_ne r q with rfl | hrq
      · simp [hr, hlength, List.length_erase_of_mem hmem]
      · simp [hr, hrq, hlength]

/-- A node without links is linked below a parent. -/
theorem attach (hx : t.links x = default) (hne : x ≠ p) :
    ((t.setLinks x fun _ => { (default : XLinks) with xParent := some p }).appendChild
      p x).Linked := by
  have hlinks : t.setLinks x (fun _ => { (default : XLinks) with xParent := some p }) =
      t.setParentLink x (some p) := by
    rw [setParentLink, setLinks, setLinks, hx]
  have hroot : t.parent x = none := by rw [parent, hx]; rfl
  have hnot : ∀ r, x ∉ t.children r := fun r hmem => by
    simpa [hroot] using (h.mem_children r x).1 hmem
  rw [hlinks]
  refine ⟨fun r y => ?_, fun r => ?_, fun r => ?_⟩
  · have hold := h.mem_children r y
    rcases eq_or_ne y x with rfl | hy
    · rcases eq_or_ne r p with rfl | hr
      · simp
      · simp [hr, hnot, hr.symm]
    · rcases eq_or_ne r p with rfl | hr
      · simp [hy, hold]
      · simp [hr, hy, hold]
  · rcases eq_or_ne r p with rfl | hr
    · simpa using List.nodup_append.2 ⟨h.nodup_children r, List.nodup_singleton x,
        fun a ha b hb heq => hnot r (by simp_all)⟩
    · simpa [hr] using h.nodup_children r
  · have hlength := h.nr_child r
    rcases eq_or_ne r p with rfl | hr
    · simp [hlength]
    · simp [hr, hlength]

/-- A node leaves its parent. -/
theorem detach (hq : t.parent x = some q) :
    ((t.removeChild q x).setParentLink x none).Linked := by
  have hmem : x ∈ t.children q := (h.mem_children q x).2 hq
  refine ⟨fun r y => ?_, fun r => ?_, fun r => ?_⟩
  · have hold := h.mem_children r y
    rcases eq_or_ne y x with rfl | hy
    · rcases eq_or_ne r q with rfl | hr
      · simp [(h.nodup_children r).not_mem_erase]
      · have hnone : y ∉ t.children r := fun hmem' => hr <| by
          simpa [hq, eq_comm] using hold.1 hmem'
        simp [hr, hnone]
    · rcases eq_or_ne r q with rfl | hr
      · simp [hy, List.mem_erase_of_ne hy, hold]
      · simp [hr, hy, hold]
  · rcases eq_or_ne r q with rfl | hr
    · simpa using (h.nodup_children r).erase x
    · simpa [hr] using h.nodup_children r
  · have hlength := h.nr_child r
    rcases eq_or_ne r q with rfl | hr
    · simp [hlength, List.length_erase_of_mem hmem]
    · simp [hr, hlength]

end Linked

/-! ## Nodes by name -/

/-- The nodes of each type are a map from names to nodes. -/
structure Named : Prop where
  keyed : ∀ type, (t.xTypes type).xHashTable.Keyed XNode.xName strHash
  typed : ∀ {type x}, x ∈ t.nodes type → x.xType = type
  hashed : ∀ {type x}, x ∈ t.nodes type → x.xHash = strHash x.xName
  nr : ∀ type, (t.xTypes type).xNr = (t.nodes type).length

/-- The trees of the master between two events. -/
structure TreeOk : Prop extends t.Named where
  addr_lt : ∀ {x}, t.Live x → x.addr < t.mallocs
  cleared : ∀ {x}, ¬ t.Live x → t.links x = default
  linked : t.Linked
  parent_live : ∀ {x p}, t.parent x = some p → t.Live p
  parent_type : ∀ {x}, t.Live x → (t.parent x).map XNode.xType = x.xType.up
  root : ∀ {x}, t.Live x → x.xType.up = none → x = t.xAll x.which
  all_live : ∀ i, t.Live (t.xAll i)
  all_type : ∀ i, (t.xAll i).xType = if i = 0 then .u else .v

variable {t}

/-- Two trees with the same nodes have the same live nodes. -/
theorem live_congr {t' : XTree} (h : t'.xTypes = t.xTypes) (x : XNode) :
    t'.Live x ↔ t.Live x := by
  rw [Live, Live, nodes, nodes, h]

theorem Named.congr {t' : XTree} (h : t.Named) (hsame : t'.xTypes = t.xTypes) :
    t'.Named := by
  have hnodes : ∀ type, t'.nodes type = t.nodes type := fun type => by
    rw [nodes, nodes, hsame]
  refine ⟨?_, ?_, ?_, ?_⟩
  · simpa only [hsame] using h.keyed
  · intro type x hx
    exact h.typed (hnodes type ▸ hx)
  · intro type x hx
    exact h.hashed (hnodes type ▸ hx)
  · simpa only [hsame, hnodes] using h.nr

namespace TreeOk

variable {t : XTree} (h : t.TreeOk) {x p q : XNode}

include h

theorem live_of_mem {type : XType} (hx : x ∈ t.nodes type) : t.Live x := by
  rw [Live, h.typed hx]
  exact hx

theorem mem_nodes {type : XType} : x ∈ t.nodes type ↔ t.Live x ∧ x.xType = type := by
  constructor
  · intro hx
    exact ⟨h.live_of_mem hx, h.typed hx⟩
  · rintro ⟨hx, rfl⟩
    exact hx

theorem nodup_nodes (type : XType) : (t.nodes type).Nodup :=
  (h.keyed type).nodup_toList

/-- `x_lookup` finds exactly the live node of the type and name. -/
theorem xLookup_eq_some {type : XType} {name : CString} :
    t.xLookup type name = some x ↔ t.Live x ∧ x.xType = type ∧ x.xName = name := by
  constructor
  · intro hx
    have hmem : x ∈ t.nodes type := (h.keyed type).lookup_mem hx
    exact ⟨h.live_of_mem hmem, h.typed hmem, HashTable.lookup_key hx⟩
  · rintro ⟨hx, rfl, rfl⟩
    exact (h.keyed x.xType).mem_toList.1 hx

/-- A name stands for the same node in every tree where that node is there. -/
theorem xLookup_of_live {t' : XTree} (h' : t'.TreeOk) {type : XType} {name : CString}
    (hfound : t.xLookup type name = some x) (hx : t'.Live x) :
    t'.xLookup type name = some x :=
  h'.xLookup_eq_some.2 ⟨hx, (h.xLookup_eq_some.1 hfound).2⟩

theorem parent_none (hx : ¬ t.Live x) : t.parent x = none := by
  rw [parent, h.cleared hx]
  rfl

theorem live_of_parent (hp : t.parent x = some p) : t.Live x := by
  by_contra hx
  rw [h.parent_none hx] at hp
  cases hp

theorem up_of_parent (hp : t.parent x = some p) : x.xType.up = some p.xType := by
  rw [← h.parent_type (h.live_of_parent hp), hp]
  rfl

theorem exists_parent {type : XType} (hx : t.Live x) (hup : x.xType.up = some type) :
    ∃ p, t.parent x = some p ∧ p.xType = type :=
  Option.map_eq_some_iff.1 ((h.parent_type hx).trans hup)

theorem parent_eq_none (hx : t.Live x) (hup : x.xType.up = none) :
    t.parent x = none :=
  Option.map_eq_none_iff.1 ((h.parent_type hx).trans hup)

theorem ne_of_parent (hp : t.parent x = some p) : x ≠ p := by
  rintro rfl
  have hrank := XType.rank_of_up (h.up_of_parent hp)
  omega

theorem not_live_next (type : XType) (hash : UInt64) (name : CString) :
    ¬ t.Live ⟨t.mallocs, type, hash, name⟩ := fun hlive =>
  (h.addr_lt hlive).false

end TreeOk

/-! ## Creating a node -/

section Create

variable (t) (type : XType) (p : XNode) (hash : UInt64) (name : CString)

/-- The node that `x_init` hands out. -/
abbrev next : XNode := ⟨t.mallocs, type, hash, name⟩

@[simp]
theorem xInit_fst (parent : Option XNode) :
    (t.xInit type parent hash name).1 = t.next type hash name := rfl

theorem xInit_links : (t.xInit type (some p) hash name).2.links =
    ((t.setLinks (t.next type hash name) fun _ =>
      { (default : XLinks) with xParent := some p }).appendChild p
        (t.next type hash name)).links := rfl

@[simp]
theorem xInit_xAll (parent : Option XNode) :
    (t.xInit type parent hash name).2.xAll = t.xAll := by
  cases parent <;> rfl

@[simp]
theorem xInit_mallocs (parent : Option XNode) :
    (t.xInit type parent hash name).2.mallocs = t.mallocs + 1 := by
  cases parent <;> rfl

theorem xInit_xTypes (parent : Option XNode) :
    (t.xInit type parent hash name).2.xTypes = update t.xTypes type
      { xHashTable :=
          (t.xTypes type).xHashTable.addHead hash (t.next type hash name)
        xNr := (t.xTypes type).xNr + 1 } := by
  cases parent <;> rfl

theorem nodes_xInit (parent : Option XNode) :
    ((t.xInit type parent hash name).2.nodes type).Perm
      (t.next type hash name :: t.nodes type) := by
  rw [nodes, xInit_xTypes, update_self]
  exact HashTable.toList_addHead _ _ _

theorem nodes_xInit_of_ne (parent : Option XNode) {other : XType}
    (hne : other ≠ type) :
    (t.xInit type parent hash name).2.nodes other = t.nodes other := by
  rw [nodes, xInit_xTypes, update_of_ne hne, nodes]

theorem mem_nodes_xInit (parent : Option XNode) {other : XType} {x : XNode} :
    x ∈ (t.xInit type parent hash name).2.nodes other ↔
      other = type ∧ x = t.next type hash name ∨ x ∈ t.nodes other := by
  rcases eq_or_ne other type with rfl | hne
  · rw [(t.nodes_xInit other hash name parent).mem_iff]
    simp
  · rw [t.nodes_xInit_of_ne type hash name parent hne]
    simp [hne]

theorem live_xInit (parent : Option XNode) {x : XNode} :
    (t.xInit type parent hash name).2.Live x ↔
      x = t.next type hash name ∨ t.Live x := by
  rw [Live, mem_nodes_xInit, Live]
  constructor
  · rintro (⟨-, hx⟩ | hx)
    · exact .inl hx
    · exact .inr hx
  · rintro (rfl | hx)
    · exact .inl ⟨rfl, rfl⟩
    · exact .inr hx

theorem parent_xInit (y : XNode) :
    (t.xInit type (some p) hash name).2.parent y =
      if y = t.next type hash name then some p else t.parent y := by
  rw [parent, xInit_links, ← parent, appendChild_parent, parent, setLinks_links]
  split <;> rfl

end Create

theorem Named.xInit {t : XTree} (h : t.Named) (type : XType) (name : CString)
    (parent : Option XNode) (hname : t.xLookup type name = none) :
    (t.xInit type parent (strHash name) name).2.Named := by
  refine ⟨?_, ?_, ?_, ?_⟩
  · intro other
    rw [xInit_xTypes]
    rcases eq_or_ne other type with rfl | hne
    · rw [update_self]
      exact (h.keyed other).addHead (a := t.next other (strHash name) name) hname
    · rw [update_of_ne hne]
      exact h.keyed other
  · intro other x hx
    rcases (mem_nodes_xInit ..).1 hx with ⟨rfl, rfl⟩ | hx
    · rfl
    · exact h.typed hx
  · intro other x hx
    rcases (mem_nodes_xInit ..).1 hx with ⟨rfl, rfl⟩ | hx
    · rfl
    · exact h.hashed hx
  · intro other
    rcases eq_or_ne other type with rfl | hne
    · rw [(t.nodes_xInit other (strHash name) name parent).length_eq,
        xInit_xTypes, update_self, List.length_cons, ← h.nr other]
    · rw [t.nodes_xInit_of_ne type (strHash name) name parent hne,
        xInit_xTypes, update_of_ne hne, h.nr other]

namespace TreeOk

variable {t : XTree} (h : t.TreeOk) {x p q : XNode} {type : XType}
  {name : CString}

include h

theorem children_xInit (hp : t.Live p) (y : XNode) :
    (t.xInit type (some p) (strHash name) name).2.children y =
      if y = p then t.children p ++ [t.next type (strHash name) name]
      else t.children y := by
  have hne : p ≠ t.next type (strHash name) name := fun heq =>
    h.not_live_next _ _ _ (heq ▸ hp)
  have hnext : t.children (t.next type (strHash name) name) = [] := by
    rw [children, h.cleared (h.not_live_next _ _ _)]
    rfl
  rw [children, xInit_links, ← children, appendChild_children, children,
    setLinks_links, if_neg hne, children, setLinks_links]
  split
  · rfl
  · split
    · next heq => rw [heq, hnext]; rfl
    · rfl

/-- `x_init` of a new name below a live node one level up. -/
theorem xInit (hp : t.Live p) (hup : type.up = some p.xType)
    (hname : t.xLookup type name = none) :
    (t.xInit type (some p) (strHash name) name).2.TreeOk := by
  have hfresh : ¬ t.Live (t.next type (strHash name) name) :=
    h.not_live_next type (strHash name) name
  have hparent := t.parent_xInit type p (strHash name) name
  refine ⟨h.toNamed.xInit type name (some p) hname, ?_, ?_, ?_, ?_, ?_, ?_, ?_, ?_⟩
  · intro x hx
    rw [xInit_mallocs]
    rcases (live_xInit ..).1 hx with rfl | hx
    · exact Nat.lt_succ_self _
    · exact Nat.lt_succ_of_lt (h.addr_lt hx)
  · intro x hx
    rw [live_xInit, not_or] at hx
    have hxp : x ≠ p := fun heq => hx.2 (heq ▸ hp)
    rw [xInit_links, appendChild, setLinks_links, if_neg hxp, setLinks_links,
      if_neg hx.1]
    exact h.cleared hx.2
  · have hlinked := h.linked.attach (h.cleared hfresh)
      fun heq : t.next type (strHash name) name = p => hfresh (by rwa [heq])
    exact ⟨hlinked.mem_children, hlinked.nodup_children, hlinked.nr_child⟩
  · intro x q hq
    rw [hparent] at hq
    rw [live_xInit]
    split at hq
    · exact .inr (Option.some.inj hq ▸ hp)
    · exact .inr (h.parent_live hq)
  · intro x hx
    rw [hparent]
    split
    · next heq => rw [heq, hup]; rfl
    · next hne => exact h.parent_type (((live_xInit ..).1 hx).resolve_left hne)
  · intro x hx hroot
    rw [xInit_xAll]
    rcases (live_xInit ..).1 hx with rfl | hx
    · rw [hup] at hroot
      cases hroot
    · exact h.root hx hroot
  · intro i
    rw [xInit_xAll, live_xInit]
    exact .inr (h.all_live i)
  · intro i
    rw [xInit_xAll]
    exact h.all_type i

end TreeOk

/-! ## Moving and removing a node -/

@[simp]
theorem xSetParent_xTypes (t : XTree) (x : XNode) (p : Option XNode) :
    (t.xSetParent x p).xTypes = t.xTypes := by
  rw [xSetParent]
  split
  · rfl
  · cases p <;> cases t.parent x <;> rfl

@[simp]
theorem xSetParent_xAll (t : XTree) (x : XNode) (p : Option XNode) :
    (t.xSetParent x p).xAll = t.xAll := by
  rw [xSetParent]
  split
  · rfl
  · cases p <;> cases t.parent x <;> rfl

@[simp]
theorem xSetParent_mallocs (t : XTree) (x : XNode) (p : Option XNode) :
    (t.xSetParent x p).mallocs = t.mallocs := by
  rw [xSetParent]
  split
  · rfl
  · cases p <;> cases t.parent x <;> rfl

@[simp]
theorem nodes_xSetParent (t : XTree) (x : XNode) (p : Option XNode) (type : XType) :
    (t.xSetParent x p).nodes type = t.nodes type := by
  rw [nodes, xSetParent_xTypes, nodes]

@[simp]
theorem live_xSetParent {t : XTree} {x : XNode} {p : Option XNode} (y : XNode) :
    (t.xSetParent x p).Live y ↔ t.Live y :=
  live_congr (xSetParent_xTypes t x p) y

theorem xSetParent_of_ne {t : XTree} {x p q : XNode} (hq : t.parent x = some q)
    (hne : q ≠ p) : t.xSetParent x (some p) =
      ((t.removeChild q x).appendChild p x).setParentLink x (some p) := by
  rw [xSetParent, if_neg (by simpa [hq] using hne), hq]

theorem parent_xSetParent {t : XTree} (x : XNode) (p : Option XNode) (y : XNode) :
    (t.xSetParent x p).parent y = if y = x then p else t.parent y := by
  rw [xSetParent]
  split
  · next heq =>
      split
      · next hy => rw [hy, heq]
      · rfl
  · cases p <;> cases t.parent x <;> simp

theorem children_xSetParent_of_ne {t : XTree} {x p y : XNode}
    (hold : t.parent x ≠ some y) (hnew : p ≠ y) :
    (t.xSetParent x (some p)).children y = t.children y := by
  rw [xSetParent]
  split
  · rfl
  · cases hq : t.parent x with
    | none => simp [hnew.symm]
    | some q =>
        have hne : y ≠ q := fun heq => hold (heq ▸ hq)
        simp [hnew.symm, hne]

namespace TreeOk

variable {t : XTree} (h : t.TreeOk) {x p q : XNode}

include h

/-- `x_set_parent` to a live node one level up. -/
theorem xSetParent (hx : t.Live x) (hp : t.Live p)
    (hup : x.xType.up = some p.xType) : (t.xSetParent x (some p)).TreeOk := by
  obtain ⟨q, hq, -⟩ := h.exists_parent hx hup
  have hlive : ∀ {y}, (t.xSetParent x (some p)).Live y ↔ t.Live y :=
    live_xSetParent _
  have hparent := parent_xSetParent (t := t) x (some p)
  refine ⟨h.toNamed.congr (xSetParent_xTypes t x (some p)),
    ?_, ?_, ?_, ?_, ?_, ?_, ?_, ?_⟩
  · simpa using fun {y} => h.addr_lt (x := y)
  · intro y hy
    rw [hlive] at hy
    by_cases hqp : q = p
    · rw [XTree.xSetParent, if_pos (by rw [hq, hqp])]
      exact h.cleared hy
    · have hyx : y ≠ x := fun heq => hy (heq ▸ hx)
      have hyp : y ≠ p := fun heq => hy (heq ▸ hp)
      have hyq : y ≠ q := fun heq => hy (heq ▸ h.parent_live hq)
      rw [xSetParent_of_ne hq hqp, setParentLink, setLinks_links, if_neg hyx,
        appendChild, setLinks_links, if_neg hyp, removeChild, setLinks_links,
        if_neg hyq]
      exact h.cleared hy
  · by_cases hqp : q = p
    · rw [XTree.xSetParent, if_pos (by rw [hq, hqp])]
      exact h.linked
    · rw [xSetParent_of_ne hq hqp]
      exact h.linked.move hq hqp
  · intro y r hr
    rw [hparent] at hr
    rw [hlive]
    split at hr
    · exact Option.some.inj hr ▸ hp
    · exact h.parent_live hr
  · intro y hy
    rw [hparent]
    split
    · next heq => rw [heq, hup]; rfl
    · exact h.parent_type (hlive.1 hy)
  · intro y hy hroot
    rw [xSetParent_xAll]
    exact h.root (hlive.1 hy) hroot
  · intro i
    rw [xSetParent_xAll, hlive]
    exact h.all_live i
  · intro i
    rw [xSetParent_xAll]
    exact h.all_type i

theorem links_detach (hq : t.parent x = some q) (hc : t.children x = []) :
    ((t.removeChild q x).setParentLink x none).links x = default := by
  have hcount : (t.links x).xNrChild = 0 := by
    rw [h.linked.nr_child, hc, List.length_nil]
  rw [setParentLink, setLinks_links, if_pos rfl, removeChild, setLinks_links,
    if_neg (h.ne_of_parent hq), hcount]
  exact congrArg (XLinks.mk none 0) hc

/-- What is left of `x_destroy` for a node without children. -/
theorem xRemove_eq (hq : t.parent x = some q) (hc : t.children x = []) :
    (t.xRemove x).links = ((t.removeChild q x).setParentLink x none).links := by
  rw [xRemove, hq, hc]
  change update _ x default = _
  rw [← h.links_detach hq hc, List.foldl_nil, update_eq_self]

omit h in
theorem xRemove_xTypes (hc : t.children x = []) (type : XType) :
    (t.xRemove x).xTypes type = if type = x.xType then
      { xHashTable :=
          (t.xTypes x.xType).xHashTable.erase XNode.xName strHash x.xName
        xNr := (t.xTypes x.xType).xNr - 1 }
      else t.xTypes type := by
  rw [xRemove, hc]
  change update _ _ _ _ = _
  cases t.parent x with
  | none => exact update_apply ..
  | some p => exact update_apply ..

theorem nodes_xRemove (hx : t.Live x) (hc : t.children x = []) :
    (t.nodes x.xType).Perm (x :: (t.xRemove x).nodes x.xType) := by
  have hfound := (h.xLookup_eq_some).2 ⟨hx, rfl, rfl⟩
  rw [nodes, nodes, xRemove_xTypes hc, if_pos rfl]
  exact HashTable.toList_erase hfound

omit h in
theorem nodes_xRemove_of_ne (hc : t.children x = []) {type : XType}
    (hne : type ≠ x.xType) : (t.xRemove x).nodes type = t.nodes type := by
  rw [nodes, xRemove_xTypes hc, if_neg hne, nodes]

theorem live_xRemove (hx : t.Live x) (hc : t.children x = []) {y : XNode} :
    (t.xRemove x).Live y ↔ t.Live y ∧ y ≠ x := by
  rw [Live, Live]
  by_cases htype : y.xType = x.xType
  · have hperm := h.nodes_xRemove hx hc
    have hnodup := hperm.nodup_iff.1 (h.nodup_nodes x.xType)
    rw [htype, hperm.mem_iff, List.mem_cons]
    constructor
    · intro hy
      refine ⟨.inr hy, ?_⟩
      rintro rfl
      exact (List.nodup_cons.1 hnodup).1 hy
    · rintro ⟨hy | hy, hne⟩
      · exact absurd hy hne
      · exact hy
  · rw [nodes_xRemove_of_ne hc htype]
    have hne : y ≠ x := fun heq => htype (heq ▸ rfl)
    simp [hne]

theorem parent_xRemove (hq : t.parent x = some q) (hc : t.children x = [])
    (y : XNode) :
    (t.xRemove x).parent y = if y = x then none else t.parent y := by
  rw [parent, h.xRemove_eq hq hc, ← parent, setParentLink_parent,
    removeChild_parent]

theorem children_xRemove (hq : t.parent x = some q) (hc : t.children x = [])
    (y : XNode) : (t.xRemove x).children y =
      if y = q then (t.children q).erase x else t.children y := by
  rw [children, h.xRemove_eq hq hc, ← children, setParentLink_children,
    removeChild_children]

omit h in
theorem xRemove_xAll (hc : t.children x = []) : (t.xRemove x).xAll = t.xAll := by
  rw [xRemove, hc]
  cases t.parent x <;> rfl

omit h in
theorem xRemove_mallocs (hc : t.children x = []) :
    (t.xRemove x).mallocs = t.mallocs := by
  rw [xRemove, hc]
  cases t.parent x <;> rfl

theorem named_xRemove (hx : t.Live x) (hc : t.children x = []) :
    (t.xRemove x).Named := by
  have hsub : ∀ {type y}, y ∈ (t.xRemove x).nodes type → y ∈ t.nodes type := by
    intro type y hy
    rcases eq_or_ne type x.xType with rfl | hne
    · exact (h.nodes_xRemove hx hc).mem_iff.2 (List.mem_cons_of_mem _ hy)
    · rwa [nodes_xRemove_of_ne hc hne] at hy
  refine ⟨?_, fun hy => h.typed (hsub hy), fun hy => h.hashed (hsub hy), ?_⟩
  · intro type
    rw [xRemove_xTypes hc]
    split
    · exact (h.keyed x.xType).erase x.xName
    · exact h.keyed type
  · intro type
    rcases eq_or_ne type x.xType with rfl | hne
    · have hlength := (h.nodes_xRemove hx hc).length_eq
      rw [List.length_cons] at hlength
      rw [xRemove_xTypes hc, if_pos rfl, h.nr, hlength, Nat.add_sub_cancel]
    · rw [nodes_xRemove_of_ne hc hne, xRemove_xTypes hc, if_neg hne, h.nr]

/-- A node below a root goes once it has no children. -/
theorem xRemove (hx : t.Live x) {type : XType} (hup : x.xType.up = some type)
    (hc : t.children x = []) : (t.xRemove x).TreeOk := by
  obtain ⟨q, hq, -⟩ := h.exists_parent hx hup
  have hlive := fun {y} => h.live_xRemove hx hc (y := y)
  have hparent := h.parent_xRemove hq hc
  have hchild : ∀ y, t.parent y ≠ some x := fun y hy => by
    have hmem := (h.linked.mem_children x y).2 hy
    rw [hc] at hmem
    cases hmem
  refine ⟨h.named_xRemove hx hc, ?_, ?_, ?_, ?_, ?_, ?_, ?_, ?_⟩
  · intro y hy
    rw [xRemove_mallocs hc]
    exact h.addr_lt (hlive.1 hy).1
  · intro y hy
    rw [hlive, not_and_not_right] at hy
    rw [h.xRemove_eq hq hc]
    by_cases hyx : y = x
    · rw [hyx]
      exact h.links_detach hq hc
    · have hdead : ¬ t.Live y := fun hlive => hyx (hy hlive)
      have hyq : y ≠ q := fun heq => hdead (heq ▸ h.parent_live hq)
      rw [setParentLink, setLinks_links, if_neg hyx, removeChild, setLinks_links,
        if_neg hyq]
      exact h.cleared hdead
  · have hlinked := h.linked.detach hq
    have hlinks := h.xRemove_eq hq hc
    refine ⟨?_, ?_, ?_⟩
    · simpa only [children, parent, hlinks] using hlinked.mem_children
    · simpa only [children, hlinks] using hlinked.nodup_children
    · simpa only [children, hlinks] using hlinked.nr_child
  · intro y r hr
    rw [hparent] at hr
    split at hr
    · cases hr
    · refine hlive.2 ⟨h.parent_live hr, ?_⟩
      rintro rfl
      exact hchild y hr
  · intro y hy
    rw [hparent, if_neg (hlive.1 hy).2]
    exact h.parent_type (hlive.1 hy).1
  · intro y hy hroot
    rw [xRemove_xAll hc]
    exact h.root (hlive.1 hy).1 hroot
  · intro i
    rw [xRemove_xAll hc, hlive]
    refine ⟨h.all_live i, ?_⟩
    rintro rfl
    rw [h.all_type i] at hup
    split at hup <;> cases hup
  · intro i
    rw [xRemove_xAll hc]
    exact h.all_type i

end TreeOk

end XTree

/-! ## The trees at the start -/

section Start

variable (hint : XType → UInt64)

/-- Nothing but empty tables. -/
def emptyTree : XTree where
  xTypes := fun type => { xHashTable := hashTableInit (hint type), xNr := 0 }
  xAll := fun _ => default
  links := fun _ => default
  mallocs := 0

/-- The root `x_all[0]`. -/
abbrev consumerRoot : XNode := (emptyTree hint).next .u (strHash (lit "ALL")) (lit "ALL")

/-- The tree with one root. -/
abbrev consumerTree : XTree :=
  ((emptyTree hint).xInit .u none (strHash (lit "ALL")) (lit "ALL")).2

/-- The root `x_all[1]`. -/
abbrev providerRoot : XNode :=
  (consumerTree hint).next .v (strHash (lit "ALL")) (lit "ALL")

theorem xTypesInit_xTypes : (xTypesInit hint).xTypes =
    ((consumerTree hint).xInit .v none (strHash (lit "ALL")) (lit "ALL")).2.xTypes :=
  rfl

theorem xTypesInit_xAll (i : Fin 2) : (xTypesInit hint).xAll i =
    if i = 0 then consumerRoot hint else providerRoot hint := rfl

theorem xTypesInit_links (x : XNode) : (xTypesInit hint).links x = default := by
  have hlinks : (xTypesInit hint).links = update
      (update (fun _ => default) (consumerRoot hint) default)
      (providerRoot hint) default := rfl
  rw [hlinks, update_apply, update_apply, ite_self, ite_self]

theorem nodes_emptyTree (type : XType) : (emptyTree hint).nodes type = [] :=
  HashTable.toList_init _

theorem live_xTypesInit {x : XNode} : (xTypesInit hint).Live x ↔
    x = consumerRoot hint ∨ x = providerRoot hint := by
  have hempty : ¬ (emptyTree hint).Live x := by
    rw [XTree.Live, nodes_emptyTree]
    exact List.not_mem_nil
  rw [XTree.live_congr (xTypesInit_xTypes hint), XTree.live_xInit, XTree.live_xInit,
    or_iff_left hempty, or_comm]

theorem named_xTypesInit : (xTypesInit hint).Named := by
  have hempty : (emptyTree hint).Named :=
    ⟨fun _ => HashTable.keyed_init _,
      fun hx => absurd (nodes_emptyTree hint _ ▸ hx) List.not_mem_nil,
      fun hx => absurd (nodes_emptyTree hint _ ▸ hx) List.not_mem_nil,
      fun type => by rw [nodes_emptyTree]; rfl⟩
  have hconsumer : (consumerTree hint).Named := hempty.xInit .u (lit "ALL") none rfl
  have hprovider := hconsumer.xInit .v (lit "ALL") none rfl
  exact hprovider.congr (xTypesInit_xTypes hint)

theorem xTypesInit_ok : (xTypesInit hint).TreeOk := by
  have hlinks := xTypesInit_links hint
  have hparent : ∀ x, (xTypesInit hint).parent x = none := fun x => by
    rw [XTree.parent, hlinks]
    rfl
  have hchildren : ∀ x, (xTypesInit hint).children x = [] := fun x => by
    rw [XTree.children, hlinks]
    rfl
  have hroot : ∀ {x}, (xTypesInit hint).Live x → x.xType.up = none ∧
      x = (xTypesInit hint).xAll x.which := fun hx => by
    rcases (live_xTypesInit hint).1 hx with rfl | rfl <;> exact ⟨rfl, rfl⟩
  refine ⟨named_xTypesInit hint, ?_, ?_, ?_, ?_, ?_, ?_, ?_, ?_⟩
  · intro x hx
    rcases (live_xTypesInit hint).1 hx with rfl | rfl
    · exact Nat.zero_lt_two
    · exact Nat.one_lt_two
  · exact fun _ => hlinks _
  · refine ⟨fun p x => ?_, fun p => ?_, fun p => ?_⟩
    · simp [hparent, hchildren]
    · simp [hchildren]
    · rw [hchildren, hlinks]
      rfl
  · intro x p hp
    rw [hparent] at hp
    cases hp
  · intro x hx
    rw [hparent, (hroot hx).1]
    rfl
  · exact fun hx _ => (hroot hx).2
  · intro i
    rw [live_xTypesInit, xTypesInit_xAll]
    split
    · exact .inl rfl
    · exact .inr rfl
  · intro i
    rw [xTypesInit_xAll]
    split <;> rfl

end Start

end Xltop.Master
