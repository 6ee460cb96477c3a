import Xltop.Core.Hash
import Mathlib.Data.List.Nodup

/-!
# The nodes of the master

Consumers (hosts, jobs, clusters and the root `x_all[0]`) and providers
(servers, filesystems and the root `x_all[1]`) form two trees.  Each node is
hashed by name in the table of its type, points to its parent, and is linked
into the child list of its parent.

What `x_init` writes once into a node, its type, hash and name, is part of the
reference to it.  An allocation number keeps apart nodes that live at different
times under one name.  Allocation does not fail.
-/

namespace Xltop.Master

open Function
open Xltop.Text
open Xltop.Hash

/-- There are two trees, and `0` and `1` name them. -/
instance (priority := high) instNeZeroTrees : NeZero (2 : ℕ) :=
  ⟨Nat.succ_ne_zero 1⟩

inductive XType where
  | host
  | job
  | clus
  | u
  | serv
  | fs
  | v
  deriving DecidableEq, Repr, Inhabited

namespace XType

/-- The entries of `x_types`, in order. -/
def all : List XType := [host, job, clus, u, serv, fs, v]

/-- `x_type_name`. -/
def name : XType → CString
  | host => lit "host"
  | job => lit "job"
  | clus => lit "clus"
  | u => lit "u"
  | serv => lit "serv"
  | fs => lit "fs"
  | v => lit "v"

/-- `x_which`: 0 for a consumer, 1 for a provider. -/
def which : XType → Fin 2
  | host | job | clus | u => 0
  | serv | fs | v => 1

/-- The type of the parent, none for the two roots. -/
def up : XType → Option XType
  | host => some job
  | job => some clus
  | clus => some u
  | serv => some fs
  | fs => some v
  | u | v => none

/-- The root above a node. -/
def top (type : XType) : XType :=
  if type.which = 0 then u else v

/-- The number of levels below a node. -/
def rank : XType → ℕ
  | host | serv => 0
  | job | fs => 1
  | clus | v => 2
  | u => 3

theorem which_of_up {type parent : XType} (h : type.up = some parent) :
    parent.which = type.which := by
  cases type <;> cases h <;> rfl

theorem rank_of_up {type parent : XType} (h : type.up = some parent) :
    parent.rank = type.rank + 1 := by
  cases type <;> cases h <;> rfl

end XType

/-- `NR_X_TYPES`. -/
abbrev nrXTypes : ℕ := 7

/-- A `struct x_node *`, with the fields that never change. -/
structure XNode where
  addr : ℕ
  xType : XType
  xHash : UInt64
  xName : CString
  deriving DecidableEq, Repr, Inhabited

namespace XNode

abbrev which (x : XNode) : Fin 2 := x.xType.which

theorem ne_of_types {x y : XNode} {a b : XType} (hx : x.xType = a) (hy : y.xType = b)
    (hne : a ≠ b) : x ≠ y := by
  rintro rfl
  exact hne (hx.symm.trans hy)

end XNode

/-- The fields of a node that change; the child list is that of
`x_parent_link`. -/
structure XLinks where
  xParent : Option XNode
  xNrChild : ℕ
  xChildList : List XNode
  deriving DecidableEq, Inhabited

/-- The fields of a `struct x_type` that change. -/
structure XTypeTable where
  xHashTable : HashTable XNode
  xNr : ℕ

/-- The trees: `x_types`, `x_all`, and the nodes in memory. -/
structure XTree where
  xTypes : XType → XTypeTable
  xAll : Fin 2 → XNode
  links : XNode → XLinks
  mallocs : ℕ

namespace XTree

variable (t : XTree)

abbrev parent (x : XNode) : Option XNode := (t.links x).xParent

abbrev children (x : XNode) : List XNode := (t.links x).xChildList

/-- All nodes hashed under a type. -/
def nodes (type : XType) : List XNode := (t.xTypes type).xHashTable.toList

/-- Initialised and not yet destroyed. -/
def Live (x : XNode) : Prop := x ∈ t.nodes x.xType

instance (x : XNode) : Decidable (t.Live x) :=
  inferInstanceAs (Decidable (x ∈ t.nodes x.xType))

def setLinks (x : XNode) (f : XLinks → XLinks) : XTree :=
  { t with links := update t.links x (f (t.links x)) }

/-- `list_del_init(&x->x_parent_link)` and the count, at the parent `p`. -/
def removeChild (p x : XNode) : XTree :=
  t.setLinks p fun l =>
    { l with xNrChild := l.xNrChild - 1, xChildList := l.xChildList.erase x }

/-- `list_add_tail(&x->x_parent_link, ..)` and the count, at the parent `p`. -/
def appendChild (p x : XNode) : XTree :=
  t.setLinks p fun l =>
    { l with xNrChild := l.xNrChild + 1, xChildList := l.xChildList ++ [x] }

def setParentLink (x : XNode) (p : Option XNode) : XTree :=
  t.setLinks x fun l => { l with xParent := p }

/-- `x_init` on the next allocation. -/
def xInit (type : XType) (parent : Option XNode) (hash : UInt64)
    (name : CString) : XNode × XTree :=
  let x : XNode := ⟨t.mallocs, type, hash, name⟩
  let t := { t with mallocs := t.mallocs + 1 }
  let t := t.setLinks x fun _ => { (default : XLinks) with xParent := parent }
  let t := match parent with
    | none => t
    | some p => t.appendChild p x
  let table := t.xTypes type
  (x, { t with
    xTypes := update t.xTypes type
      { xHashTable := table.xHashTable.addHead hash x, xNr := table.xNr + 1 } })

def xSetParent (x : XNode) (p : Option XNode) : XTree :=
  if t.parent x = p then t
  else
    let t := match t.parent x with
      | none => t
      | some q => t.removeChild q x
    let t := match p with
      | none => t
      | some p => t.appendChild p x
    t.setParentLink x p

/-- `x_lookup` without `L_CREATE`, and `x_lookup_hash`. -/
def xLookup (type : XType) (name : CString) : Option XNode :=
  (t.xTypes type).xHashTable.lookup XNode.xName strHash name

/-- `x_lookup` with `L_CREATE`. -/
def xLookupCreate (type : XType) (name : CString) (p : Option XNode) :
    XNode × XTree :=
  match t.xLookup type name with
  | some x => (x, t)
  | none => t.xInit type p (strHash name) name

/-- `x_lookup_str`: a type name, `:` or `=`, and a name. -/
def xLookupStr (str : CString) : Option XNode :=
  match XType.all.find? fun type =>
      type.name.isPrefixOf str &&
        (str[type.name.length]? == some 58 || str[type.name.length]? == some 61) with
  | some type => t.xLookup type (str.drop (type.name.length + 1))
  | none => none

/-- What `x_destroy` does once the statistics are gone: the node leaves its
parent, its children go to the root, and it is unhashed and cleared.  Names
are unique in the table, so the first node of the name is the node itself. -/
def xRemove (x : XNode) : XTree :=
  let children := t.children x
  let t := match t.parent x with
    | none => t
    | some p => t.removeChild p x
  let t := t.setParentLink x none
  let t := children.foldl (fun t c => t.xSetParent c (some (t.xAll x.which))) t
  let table := t.xTypes x.xType
  { t with
    xTypes := update t.xTypes x.xType
      { xHashTable := table.xHashTable.erase XNode.xName strHash x.xName
        xNr := table.xNr - 1 }
    links := update t.links x default }

/-- The nodes of the loop `for (i = x; i != NULL; i = i->x_parent)`, at most
`fuel` of them. -/
def xChain : ℕ → Option XNode → List XNode
  | 0, _ => []
  | _, none => []
  | fuel + 1, some x => x :: xChain fuel (t.parent x)

end XTree

/-- `x_types_init` before the statistics: empty tables and the two roots,
both named `ALL`. -/
def xTypesInit (hint : XType → UInt64) : XTree :=
  let t : XTree :=
    { xTypes := fun type => { xHashTable := hashTableInit (hint type), xNr := 0 }
      xAll := fun _ => default
      links := fun _ => default
      mallocs := 0 }
  let (u, t) := t.xLookupCreate .u (lit "ALL") none
  let (v, t) := t.xLookupCreate .v (lit "ALL") none
  { t with xAll := fun which => if which = 0 then u else v }

end Xltop.Master
