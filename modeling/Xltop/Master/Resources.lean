import Xltop.Http.Handling
import Xltop.Master.Domains
import Xltop.Master.Listing
import Xltop.Master.Put
import Xltop.Master.ServPut
import Xltop.Master.Views
import Xltop.Query.Parse
import Xltop.Status.ServStatus

/-!
# The resources of the master

What the daemon serves over HTTP: a directory for each type of node, with
entries for its servers, clusters and filesystems, the top query, and the
domains.  The callbacks print into the body of the response, and most of them
refuse any method but GET.

A callback gets the `e_data` of its entry; an entry whose data is not what its
operations expect does not come up, and is treated like one that is not found.
-/

namespace Xltop.Http

open Xltop.Buffer
open Xltop.Text

/-- `n_buf_printf(&r->r_body, ..)` -/
def Response.print (r : Response) (text : CString) : Response :=
  { r with rBody := nBufPrintf r.rBody text }

/-- Texts printed one after the other. -/
def Response.prints (r : Response) (texts : List CString) : Response :=
  texts.foldl Response.print r

/-- What most callbacks do with methods other than GET. -/
def Response.ifGet (q : Request) (r : Response) (f : Response → Response) : Response :=
  if q.qMethod = .get then f r else r.withStatus 403

/-- Nothing but the status has been set, and something may have been printed. -/
structure Response.Prints (r r' : Response) : Prop where
  body : r.rBody.Check → Printed r.rBody r'.rBody
  type : r'.rBodyType = r.rBodyType
  close : r'.rClose = r.rClose

namespace Response.Prints

variable {r r' r'' : Response}

theorem refl (r : Response) : Prints r r :=
  ⟨fun h => ⟨h, rfl, rfl, List.prefix_rfl⟩, rfl, rfl⟩

theorem trans (h : Prints r r') (h' : Prints r' r'') : Prints r r'' where
  body hcheck := (h.body hcheck).trans (h'.body (h.body hcheck).check)
  type := h'.type.trans h.type
  close := h'.close.trans h.close

theorem withStatus (h : Prints r r') (status : Int32) : Prints r (r'.withStatus status) :=
  ⟨h.body, h.type, h.close⟩

theorem print (r : Response) (text : CString) : Prints r (r.print text) :=
  ⟨fun h => printed h text, rfl, rfl⟩

theorem prints (r : Response) (texts : List CString) : Prints r (r.prints texts) := by
  induction texts generalizing r with
  | nil => exact refl r
  | cons text texts ih => exact (print r text).trans (ih _)

theorem foldl {α : Type*} {body : Response → α → Response}
    (hbody : ∀ r a, Prints r (body r a)) (as : List α) (r : Response) :
    Prints r (as.foldl body r) := by
  induction as generalizing r with
  | nil => exact refl r
  | cons a as ih => exact (hbody r a).trans (ih _)

theorem ifGet (q : Request) {f : Response → Response} (h : ∀ r, Prints r (f r))
    (r : Response) : Prints r (r.ifGet q f) := by
  rw [Response.ifGet]
  split
  · exact h r
  · exact (refl r).withStatus 403

theorem ok (h : Prints r r') (hr : r.Ok) : r'.Ok where
  body := (h.body hr.body).check
  size := (h.body hr.body).size.trans hr.size
  type := by
    rw [h.type]
    exact hr.type

end Response.Prints

end Xltop.Http

namespace Xltop.Master

open Function
open Xltop.Buffer
open Xltop.Cursor
open Xltop.Hash
open Xltop.Heap
open Xltop.Http (Looked Method Ops Request Response pathsep)
open Xltop.Query (Outcome Parsed UString qStringParse queryParse strdup stringAt)
open Xltop.Rate
open Xltop.Status
open Xltop.Text

/-! ## The state -/

/-- The fields of a `struct serv_node` that only its resources use. -/
structure ServNode (R : Type*) where
  sStatus : ServStatus R
  sInterval : R
  sOffset : R
  sModified : R

structure ClusNode (R : Type*) where
  cInterval : R
  cOffset : R
  cModified : R

/-- The daemon with what only its resources use; `now` is `ev_now`. -/
structure Site (R : Type*) extends Daemon R where
  servs : XNode → ServNode R
  cluses : XNode → ClusNode R
  xNrHint : XType → UInt64
  now : R

/-- What the resources take from outside: the formats `%f`, `%.0f` and `%.2f`,
and what becomes of the daemon and of a response once a query has been read past
its end. -/
structure SiteEnv (R : Type*) extends Env R where
  printf : R → CString
  printf0 : R → CString
  printf2 : R → CString
  overrun : Request → Site R → Response → Site R × Response
  overrun_prints : ∀ q s (r : Response), r.Prints (overrun q s r).2

/-- The operations of the entries. -/
inductive EntryOps where
  | botzDefaultOps
  | xDirOpsDefault
  | servDirOps
  | servEntryOps
  | clusDirOps
  | clusEntryOps
  | fsDirOps
  | fsEntryOps
  | topEntryOps
  | domainsEntryOps
  deriving DecidableEq, Repr

/-- What `e_data` points to: a type, or a node or what it is part of. -/
inductive EData where
  | type (type : XType)
  | node (x : XNode)
  deriving DecidableEq, Repr

/-! ## Nodes and types -/

/-- A digit of `%zx`. -/
def hexDigit (n : ℕ) : Byte :=
  if n < 10 then UInt8.ofNat (48 + n) else UInt8.ofNat (87 + n)

/-- `%016zx` -/
def hex16 (n : UInt64) : CString :=
  (List.range 16).map fun i => hexDigit (n.toNat / 16 ^ (15 - i) % 16)

section Nodes

variable (t : XTree) (q : Request) (r : Response)

def xPrintf (x : XNode) : Response :=
  let p := t.parent x
  r.print (lit "x_name: " ++ x.xName ++
    lit "\nx_type: " ++ x.xType.name ++
    lit "\nx_parent: " ++ (p.map XNode.xName).getD (lit "NONE") ++
    lit "\nx_parent_type: " ++ (p.map fun p => p.xType.name).getD (lit "NONE") ++
    lit "\nx_nr_child: " ++ decimal (t.links x).xNrChild ++
    lit "\nx_hash: " ++ hex16 x.xHash ++ lit "\n")

def xInfoCb (x : XNode) : Response :=
  r.ifGet q fun r => xPrintf t r x

def xChildListCb (x : XNode) : Response :=
  r.ifGet q fun r => r.prints ((t.children x).map fun c => c.xName ++ lit "\n")

/-- Both loops of `x_type_hash_cb`, over the chains and in a chain. -/
def xTypeHashCb (type : XType) : Response :=
  let table := (t.xTypes type).xHashTable
  r.ifGet q fun r =>
    (List.range (2 ^ table.tShift)).foldl (fun r i =>
      r.prints ((table.tTable i).map fun x => decimal i ++ lit " " ++ x.xName ++ lit "\n")) r

/-- `x_dir_get_cb`, with the loops of `x_type_hash_cb`. -/
def xDirGetCb (type : XType) : Response :=
  let table := (t.xTypes type).xHashTable
  (List.range (2 ^ table.tShift)).foldl (fun r i =>
    r.prints ((table.tTable i).map fun x => x.xName ++ lit "\n")) r

/-- `x_entry_lookup_cb` with a `p_name` that may be NULL. -/
def xEntryLookupCb (x : XNode) (pName pRest : Option CString) :
    Looked EntryOps EData × Response :=
  match pName with
  | none => (.responseReady, r)
  | some name =>
      if name = lit "_child_list" ∧ pRest = none then (.responseReady, xChildListCb t q r x)
      else if name = lit "_info" ∧ pRest = none then (.responseReady, xInfoCb t q r x)
      else (.null, r)

end Nodes

variable {R : Type*}

section Dirs

variable (s : Site R) (pName : CString) (pRest : Option CString) (q : Request) (r : Response)

def xTypeInfoCb (type : XType) : Response :=
  r.ifGet q fun r =>
    r.print (lit "x_type_name: " ++ type.name ++
      lit "\nx_nr: " ++ decimal (s.xTypes type).xNr ++
      lit "\nx_nr_hint: " ++ decimal (s.xNrHint type).toNat ++
      lit "\nx_type: " ++ decimal (XType.all.idxOf type) ++
      lit "\nx_which: " ++ decimal type.which ++ lit "\n")

def xDirLookupCb (eData : Option EData) : Looked EntryOps EData × Response :=
  match eData with
  | some (.type type) =>
      match s.xLookup type pName with
      | some x =>
          let (pName, pRest) := pathsep pRest
          xEntryLookupCb s.toXTree q r x pName pRest
      | none =>
          if pRest ≠ none then (.null, r)
          else if pName = lit "_hash" then (.responseReady, xTypeHashCb s.toXTree q r type)
          else if pName = lit "_info" then (.responseReady, xTypeInfoCb s q r type)
          else (.null, r)
  | _ => (.null, r)

/-- `serv_dir_lookup_cb`, `clus_dir_lookup_cb` and `fs_dir_lookup_cb`: a node of
the type gets an entry of its own. -/
def typeDirLookupCb (type : XType) (entryOps : EntryOps) (eData : Option EData) :
    Looked EntryOps EData × Response :=
  match s.xLookup type pName with
  | some x => (.newEntry entryOps (.node x), r)
  | none => xDirLookupCb s pName pRest q r eData

def servDirLookupCb : Option EData → Looked EntryOps EData × Response :=
  typeDirLookupCb s pName pRest q r .serv .servEntryOps

def clusDirLookupCb : Option EData → Looked EntryOps EData × Response :=
  typeDirLookupCb s pName pRest q r .clus .clusEntryOps

def fsDirLookupCb : Option EData → Looked EntryOps EData × Response :=
  typeDirLookupCb s pName pRest q r .fs .fsEntryOps

end Dirs

/-! ## Servers -/

section Resources

variable [Field R] [LinearOrder R] [FloorRing R] (env : SiteEnv R) (s : Site R)

namespace Site

omit [Field R] [LinearOrder R] [FloorRing R] in
def setServ (s : Site R) (x : XNode) (f : ServNode R → ServNode R) : Site R :=
  { s with servs := update s.servs x (f (s.servs x)) }

omit [Field R] [LinearOrder R] [FloorRing R] in
def setClus (s : Site R) (x : XNode) (f : ClusNode R → ClusNode R) : Site R :=
  { s with cluses := update s.cluses x (f (s.cluses x)) }

end Site

/-- `serv_get_cb`; the walk prints each `k_node` when it has brought it up to
date. -/
def servGetCb (x : XNode) (r : Response) : Site R × Response :=
  let (m, ks) := s.toDaemon.servGetCb env.toEnv x s.now
  ({ s with toDaemon := m }, { r with rBody := printKNodes env.printf r.rBody ks })

def servPutCb (x : XNode) (q : Request) : Site R :=
  let s := s.setServ x fun n => { n with sModified := s.now }
  { s with toDaemon := s.toDaemon.servPutCb env.toEnv x (textBuf q.qBody) s.now }

omit [Field R] [LinearOrder R] [FloorRing R] in
def servInfoCb (x : XNode) (q : Request) (r : Response) : Response :=
  r.ifGet q fun r =>
    r.print (lit "name: " ++ x.xName ++
      lit "\ninterval: " ++ env.printf (s.servs x).sInterval ++
      lit "\noffset: " ++ env.printf (s.servs x).sOffset ++
      lit "\nmodified: " ++ env.printf (s.servs x).sModified ++
      lit "\nlnet: " ++ s.sLnet x ++ lit "\n")

omit [Field R] [LinearOrder R] [FloorRing R] in
/-- The status that the first line of a body has. -/
def bodyStatus (body : List Byte) : Option (ServStatus R) :=
  (nBufGetMsg (textBuf body)).bind fun (msg, _) => scnServStatus env.strtod (cstr msg)

omit [Field R] [LinearOrder R] [FloorRing R] in
def servStatusPutCb (x : XNode) (q : Request) (r : Response) : Site R × Response :=
  match bodyStatus env q.qBody with
  | none => (s, r.withStatus 400)
  | some status =>
      (s.setServ x fun n => { n with sStatus := status },
        r.print (env.printf (s.servs x).sInterval ++ lit " " ++
          env.printf (s.servs x).sOffset ++ lit "\n"))

omit [Field R] [LinearOrder R] [FloorRing R] in
def servStatusCb (x : XNode) (q : Request) (r : Response) : Site R × Response :=
  match q.qMethod with
  | .get => (s, r.print ((s.servs x).sStatus.pri env.printf0 env.printf2 ++ lit "\n"))
  | .put => servStatusPutCb env s x q r
  | _ => (s, r.withStatus 403)

omit [Field R] [LinearOrder R] [FloorRing R] in
def servEntryLookupCb (eData : Option EData) (pName : CString) (pRest : Option CString)
    (q : Request) (r : Response) : Looked EntryOps EData × Site R × Response :=
  match eData with
  | some (.node x) =>
      if pName = lit "_info" ∧ pRest = none then
        (.responseReady, s, xInfoCb s.toXTree q (servInfoCb env s x q r) x)
      else if pName = lit "_status" ∧ pRest = none then
        (.responseReady, servStatusCb env s x q r)
      else
        let (looked, r) := xEntryLookupCb s.toXTree q r x (some pName) pRest
        (looked, s, r)
  | _ => (.null, s, r)

/-! ## Clusters and domains -/

def clusPutCb (x : XNode) (q : Request) : Site R :=
  let s := s.setClus x fun n => { n with cModified := s.now }
  { s with toDaemon := s.toDaemon.clusPutCb env.toEnv x (textBuf q.qBody) s.now }

omit [Field R] [LinearOrder R] [FloorRing R] in
def clusInfoCb (x : XNode) (q : Request) (r : Response) : Response :=
  r.ifGet q fun r =>
    r.print (lit "clus: " ++ x.xName ++
      lit "\ninterval: " ++ env.printf (s.cluses x).cInterval ++
      lit "\noffset: " ++ env.printf (s.cluses x).cOffset ++
      lit "\nmodified: " ++ env.printf (s.cluses x).cModified ++ lit "\n")

omit [Field R] [LinearOrder R] [FloorRing R] in
def clusEntryLookupCb (eData : Option EData) (pName : CString) (pRest : Option CString)
    (q : Request) (r : Response) : Looked EntryOps EData × Response :=
  match eData with
  | some (.node x) =>
      if pName = lit "_info" ∧ pRest = none then
        (.responseReady, xInfoCb s.toXTree q (clusInfoCb env s x q r) x)
      else xEntryLookupCb s.toXTree q r x (some pName) pRest
  | _ => (.null, r)

omit [Field R] [LinearOrder R] [FloorRing R] in
/-- `domains_get_cb`; the loop ends when all entries have been handed out. -/
def domainsGetCb (r : Response) : Response :=
  let t := s.domainClusTable
  r.prints ((handOut (fun p => strTableForEach t p.1 p.2) (t.toList.length + 1)
      (0, none)).filterMap fun e =>
    e.eValue.map fun c => e.eKey ++ lit " " ++ c.xName ++ lit "\n")

/-! ## Filesystems -/

omit [Field R] [LinearOrder R] [FloorRing R] in
def fsStatusGetCb (x : XNode) (r : Response) : Response :=
  r.prints (((s.children x).filter fun c => c.xType = .serv).map fun c =>
    c.xName ++ lit " " ++ (s.servs c).sStatus.pri env.printf0 env.printf2 ++ lit "\n")

omit [Field R] [LinearOrder R] [FloorRing R] in
def fsEntryLookupCb (eData : Option EData) (pName : CString) (pRest : Option CString)
    (q : Request) (r : Response) : Looked EntryOps EData × Response :=
  match eData with
  | some (.node x) =>
      if pName = lit "_status" ∧ pRest = none then
        (.responseReady, r.ifGet q fun r => fsStatusGetCb env s x r)
      else xEntryLookupCb s.toXTree q r x (some pName) pRest
  | _ => (.null, r)

/-! ## Top queries -/

/-- The unions of the fields of a top query; the nodes are kept as the strings
that `q_x_parse` looks up. -/
inductive TopU where
  | x (s : Option CString)
  | size (n : ℕ)
  | sort (spec : TSpec)
  | owner (u : UString)

def qXParse (_ : TopU) (_ : ℕ) (s : CString) : Option TopU :=
  some (.x (some s))

def qSizeParse (_ : TopU) (_ : ℕ) (s : CString) : Option TopU :=
  some (.size (strtoulAuto s))

def qSortParse (_ : TopU) (_ : ℕ) (s : CString) : Option TopU :=
  (qKTopParse s).map .sort

def qOwnerParse (_ : TopU) (ptr : ℕ) (s : CString) : Option TopU :=
  (qStringParse (.initial none) ptr s).map .owner

/-- `TOP_QUERY` -/
def topQueryFields : List (Query.Field TopU) :=
  [⟨lit "x0", .x none, qXParse, true, false⟩,
    ⟨lit "x1", .x none, qXParse, true, false⟩,
    ⟨lit "d0", .size 0, qSizeParse, false, false⟩,
    ⟨lit "d1", .size 0, qSizeParse, false, false⟩,
    ⟨lit "limit", .size 0, qSizeParse, false, false⟩,
    ⟨lit "sort", .sort kTopSpecInit, qSortParse, false, false⟩,
    ⟨lit "owner", .owner (.initial none), qOwnerParse, false, false⟩]

/-- `QUERY_VALUES`; a field that is required has been set. -/
def queryValues (size : ℕ) (st : Parsed TopU) : Outcome Daemon.TopQuery :=
  match st.table.map Query.Field.qU with
  | [.x (some x0), .x (some x1), .size d0, .size d1, .size limit, .sort sort,
      .owner (.initial owner)] => .ok ⟨x0, x1, d0, d1, limit, sort, owner⟩
  | [.x (some x0), .x (some x1), .size d0, .size d1, .size limit, .sort sort,
      .owner (.pointer ptr)] =>
      .reading (stringAt size st.mem ptr) fun owner =>
        .ok ⟨x0, x1, d0, d1, limit, sort, some owner⟩
  | _ => .error

/-- The query of a request, which has been copied into a block of its own. -/
def topQueryParse (query : Option CString) : Outcome Daemon.TopQuery :=
  let size := (query.getD []).length + 1
  (queryParse size false topQueryFields (query.map strdup)).bind (queryValues size)

def topGetCb (q : Request) (r : Response) : Site R × Response :=
  match topQueryParse q.qQuery with
  | .fault => env.overrun q s r
  | .error => (s, r.withStatus 400)
  | .ok query =>
      match s.toDaemon.topQueryCb env.toEnv query s.now with
      | (m, none) => ({ s with toDaemon := m }, r.withStatus 404)
      | (m, some ks) =>
          ({ s with toDaemon := m }, { r with rBody := printKNodes env.printf r.rBody ks })

/-! ## Operations -/

/-- The `o_lookup` of each. -/
def oLookup : EntryOps → Option (Site R → Option EData → CString → Option CString → Request →
    Response → Looked EntryOps EData × Site R × Response)
  | .xDirOpsDefault => some fun s data name rest q r =>
      let (looked, r) := xDirLookupCb s name rest q r data
      (looked, s, r)
  | .servDirOps => some fun s data name rest q r =>
      let (looked, r) := servDirLookupCb s name rest q r data
      (looked, s, r)
  | .clusDirOps => some fun s data name rest q r =>
      let (looked, r) := clusDirLookupCb s name rest q r data
      (looked, s, r)
  | .fsDirOps => some fun s data name rest q r =>
      let (looked, r) := fsDirLookupCb s name rest q r data
      (looked, s, r)
  | .servEntryOps => some (servEntryLookupCb env)
  | .clusEntryOps => some fun s data name rest q r =>
      let (looked, r) := clusEntryLookupCb env s data name rest q r
      (looked, s, r)
  | .fsEntryOps => some fun s data name rest q r =>
      let (looked, r) := fsEntryLookupCb env s data name rest q r
      (looked, s, r)
  | .botzDefaultOps | .topEntryOps | .domainsEntryOps => none

/-- The `o_method` of each. -/
def oMethod : EntryOps → Method → Option (Site R → Option EData → Request → Response →
    Site R × Response)
  | .xDirOpsDefault, .get | .servDirOps, .get | .clusDirOps, .get | .fsDirOps, .get =>
      some fun s data _ r =>
        match data with
        | some (.type type) => (s, xDirGetCb s.toXTree r type)
        | _ => (s, r)
  | .servEntryOps, .get => some fun s data _ r =>
      match data with
      | some (.node x) => servGetCb env s x r
      | _ => (s, r)
  | .servEntryOps, .put => some fun s data q r =>
      match data with
      | some (.node x) => (servPutCb env s x q, r)
      | _ => (s, r)
  | .clusEntryOps, .get => some fun s data _ r =>
      match data with
      | some (.node x) => (s, { r with rBody := clusGetCb env.printf0 s.toDaemon x r.rBody })
      | _ => (s, r)
  | .clusEntryOps, .put => some fun s data q r =>
      match data with
      | some (.node x) => (clusPutCb env s x q, r)
      | _ => (s, r)
  | .topEntryOps, .get => some fun s _ q r => topGetCb env s q r
  | .domainsEntryOps, .get => some fun s _ _ r => (s, domainsGetCb s r)
  | _, _ => none

/-- The operations of the master. -/
def masterOps : Ops EntryOps EData (Site R) where
  oLookup := oLookup env
  oMethod := oMethod env

end Resources

end Xltop.Master
