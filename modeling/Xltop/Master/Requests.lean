import Xltop.Http.Serving
import Xltop.Master.Grace
import Xltop.Master.Installed
import Xltop.Master.Resources

/-!
# The master over HTTP

Starting the master gives its entries and its nodes.  From then on each request
finds an entry by its path, and what it does to the daemon is nothing, or the
events of one server or cluster, or a query.
-/

namespace Xltop.Master

open Function
open Xltop.Buffer
open Xltop.Hash
open Xltop.Http (AddCall App BotzEntry BotzListen Creates Creating EntryEnv Flat IsName Looked
  Method Place Request Response Roots Server)
open Xltop.Status
open Xltop.Text

/-! ## Starting -/

/-- The configuration with what only the resources show; `clusInterval` is
`interval` of each `clus` section, by its index. -/
structure SiteConfig (R : Type*) extends Config R where
  clusInterval : ℕ → R

namespace Site

variable {R : Type*}

def start [Zero R] (cfg : SiteConfig R) (now : R) : Site R where
  toDaemon := Daemon.start cfg.toConfig
  servs := fun _ => ⟨noStatus R, 0, 0, 0⟩
  cluses := fun _ => ⟨0, 0, 0⟩
  xNrHint := cfg.hint
  now := now

/-- `clus_cfg` with the interval of the section. -/
def clusCfg (env : Env R) (s : Site R) (cfg : ClusCfg) (interval : R) : Site R :=
  let c := (Daemon.clusLookup env s.toDaemon cfg.name).1
  setClus { s with toDaemon := Daemon.clusCfg env s.toDaemon cfg } c
    fun n => { n with cInterval := interval }

/-- The body of the loop of `fs_cfg` behind `serv_create`, for server number
`i`. -/
def servCfg [Field R] (cfg : FsCfg R) (s : Site R) (i : ℕ) (name : CString) : Site R :=
  match s.xLookup .serv name with
  | none => s
  | some x =>
      s.setServ x fun n =>
        { n with
          sInterval := cfg.interval
          sOffset := i * cfg.interval / cfg.servs.length }

def fsCfg [Field R] [LinearOrder R] (s : Site R) (cfg : FsCfg R) : Option (Site R) :=
  (Daemon.fsCfg s.toDaemon cfg).map fun m =>
    cfg.servs.zipIdx.foldl (fun s serv => servCfg cfg s serv.2 serv.1) { s with toDaemon := m }

/-- `main` up to `ev_run`, without the entries. -/
def boot [Field R] [LinearOrder R] (env : Env R) (cfg : SiteConfig R) (now : R) :
    Option (Site R) :=
  if env.conf.kTick ≤ 0 ∨ env.conf.kWindow ≤ 0 then none
  else
    let (c, m) := Daemon.clusLookup env (Daemon.start cfg.toConfig) (lit "NONE")
    let s := { start cfg now with toDaemon := { m with clus0 := some c } }
    let s := cfg.clus.zipIdx.foldl (fun s clus => s.clusCfg env clus.1 (cfg.clusInterval clus.2)) s
    (cfg.lnets.foldlM (Daemon.lnetCfg cfg.nrHostsHint) s.toDaemon).bind fun m =>
      cfg.fs.foldlM fsCfg { s with toDaemon := m }

end Site

/-- The calls of `botz_add`: the types with `x_dir_init`, three of them once
more, and what `main` adds. -/
def masterEntries : List (AddCall EntryOps EData) :=
  (XType.all.map fun type => ⟨some type.name, some .xDirOpsDefault, some (.type type)⟩) ++
    [⟨some XType.serv.name, some .servDirOps, some (.type .serv)⟩,
      ⟨some XType.clus.name, some .clusDirOps, some (.type .clus)⟩,
      ⟨some XType.fs.name, some .fsDirOps, some (.type .fs)⟩,
      ⟨some (lit "top"), some .topEntryOps, none⟩,
      ⟨some (lit "_domains"), some .domainsEntryOps, none⟩]

def Config.nrListenEntries {R : Type*} (cfg : Config R) : UInt64 :=
  cfg.hint .clus + cfg.hint .serv + 128

/-- What `malloc` returns for entries. -/
def entryEnv (block : ℕ → Option UInt64) : EntryEnv EntryOps where
  block := block
  botzDefaultOps := .botzDefaultOps

/-- What happens besides requests: time goes on, and timers of jobs go off. -/
inductive Own (R : Type*) where
  | clock (now : R)
  | zombie (job : XNode)

section Act

variable {R : Type*} [Field R] [LinearOrder R] [FloorRing R]

def Site.act (env : Env R) (s : Site R) : Own R → Site R
  | .clock now => { s with now := now }
  | .zombie job => { s with toDaemon := s.toDaemon.step env (.zombie job s.now) }

end Act

/-! ## Responses -/

open Xltop.Http.Response (Prints)

section Prints

variable {R : Type*} (t : XTree) (q : Request) (r : Response)

theorem prints_xInfoCb (x : XNode) : r.Prints (xInfoCb t q r x) :=
  Prints.ifGet q (fun r => Prints.print r _) r

theorem prints_foldl_prints (texts : ℕ → List CString) (n : ℕ) :
    r.Prints ((List.range n).foldl (fun r i => r.prints (texts i)) r) :=
  Prints.foldl (fun r i => Prints.prints r (texts i)) _ r

theorem prints_xTypeHashCb (type : XType) : r.Prints (xTypeHashCb t q r type) := by
  rw [xTypeHashCb]
  exact Prints.ifGet q (fun r => prints_foldl_prints r _ _) r

theorem prints_xEntryLookupCb (x : XNode) (pName pRest : Option CString) :
    r.Prints (xEntryLookupCb t q r x pName pRest).2 := by
  cases pName with
  | none => exact .refl r
  | some name =>
      rw [xEntryLookupCb]
      split
      · exact Prints.ifGet q (fun r => Prints.prints r _) r
      · split
        · exact prints_xInfoCb t q r x
        · exact .refl r

theorem prints_xDirLookupCb (s : Site R) (pName : CString) (pRest : Option CString)
    (eData : Option EData) : r.Prints (xDirLookupCb s pName pRest q r eData).2 := by
  rcases eData with _ | type | x
  · exact .refl r
  · rw [xDirLookupCb]
    split
    · exact prints_xEntryLookupCb _ q r _ _ _
    · split
      · exact .refl r
      · split
        · exact prints_xTypeHashCb s.toXTree q r type
        · split
          · exact Prints.ifGet q (fun r => Prints.print r _) r
          · exact .refl r
  · exact .refl r

theorem prints_typeDirLookupCb (s : Site R) (pName : CString) (pRest : Option CString)
    (type : XType) (ops : EntryOps) (eData : Option EData) :
    r.Prints (typeDirLookupCb s pName pRest q r type ops eData).2 := by
  rw [typeDirLookupCb]
  split
  · exact .refl r
  · exact prints_xDirLookupCb q r s pName pRest eData

theorem rBody_prints (texts : List CString) :
    (r.prints texts).rBody = texts.foldl nBufPrintf r.rBody := by
  induction texts generalizing r with
  | nil => rfl
  | cons text texts ih => exact ih (r.print text)

theorem prints_kNodes (printf : R → CString) (ks : List (Rate.KNode XNode R)) :
    r.Prints { r with rBody := printKNodes printf r.rBody ks } := by
  refine ⟨fun hcheck => ?_, rfl, rfl⟩
  have hprints := (Prints.prints r (ks.map (kNodeText printf))).body hcheck
  rw [rBody_prints] at hprints
  exact hprints

theorem prints_clusGetCb [Zero R] (printf0 : R → CString) (m : Daemon R) (c : XNode) :
    r.Prints { r with rBody := clusGetCb printf0 m c r.rBody } := by
  refine ⟨fun hcheck => ?_, rfl, rfl⟩
  have hfold : ∀ {α : Type} (body : NBuf → α → NBuf) (as : List α) (nb : NBuf), nb.Check →
      (∀ nb a, nb.Check → Printed nb (body nb a)) → Printed nb (as.foldl body nb) := by
    intro α body as
    induction as with
    | nil => exact fun nb hnb _ => ⟨hnb, rfl, rfl, List.prefix_rfl⟩
    | cons a as ih =>
        intro nb hnb hbody
        exact (hbody nb a hnb).trans (ih _ (hbody nb a hnb).check hbody)
  rw [clusGetCb]
  exact hfold _ _ _ hcheck fun nb jx hnb => hfold _ _ _ hnb fun nb hx hnb => printed hnb _

end Prints

section Ops

variable {R : Type*} [Field R] [LinearOrder R] [FloorRing R] (env : SiteEnv R) (s : Site R)
  (q : Request) (r : Response)

omit [Field R] [LinearOrder R] [FloorRing R] in
theorem prints_servEntryLookupCb (eData : Option EData) (pName : CString)
    (pRest : Option CString) : r.Prints (servEntryLookupCb env s eData pName pRest q r).2.2 := by
  rcases eData with _ | type | x
  · exact .refl r
  · exact .refl r
  · rw [servEntryLookupCb]
    split
    · exact (Prints.ifGet q (fun r => Prints.print r _) r).trans (prints_xInfoCb _ q _ x)
    · split
      · rw [servStatusCb]
        split
        · exact Prints.print r _
        · rw [servStatusPutCb]
          split
          · exact (Prints.refl r).withStatus 400
          · exact Prints.print r _
        · exact (Prints.refl r).withStatus 403
      · exact prints_xEntryLookupCb _ q r x _ _

theorem prints_topGetCb : r.Prints (topGetCb env s q r).2 := by
  rw [topGetCb]
  split
  · exact env.overrun_prints q s r
  · exact (Prints.refl r).withStatus 400
  · split
    · exact (Prints.refl r).withStatus 404
    · exact prints_kNodes r env.printf _

omit [Field R] [LinearOrder R] [FloorRing R] in
/-- The callbacks only print and set the status. -/
theorem prints_oLookup {ops : EntryOps} {f} (hf : oLookup env ops = some f)
    (data : Option EData) (name : CString) (rest : Option CString) :
    r.Prints (f s data name rest q r).2.2 := by
  cases ops with
  | botzDefaultOps | topEntryOps | domainsEntryOps => cases hf
  | xDirOpsDefault =>
      cases hf
      exact prints_xDirLookupCb q r s name rest data
  | servDirOps | clusDirOps | fsDirOps =>
      cases hf
      exact prints_typeDirLookupCb q r s name rest _ _ data
  | servEntryOps =>
      cases hf
      exact prints_servEntryLookupCb env s q r data name rest
  | clusEntryOps =>
      cases hf
      rcases data with _ | type | x
      · exact .refl r
      · exact .refl r
      · change r.Prints (clusEntryLookupCb env s (some (.node x)) name rest q r).2
        rw [clusEntryLookupCb]
        split
        · exact (Prints.ifGet q (fun r => Prints.print r _) r).trans (prints_xInfoCb _ q _ x)
        · exact prints_xEntryLookupCb _ q r x _ _
  | fsEntryOps =>
      cases hf
      rcases data with _ | type | x
      · exact .refl r
      · exact .refl r
      · change r.Prints (fsEntryLookupCb env s (some (.node x)) name rest q r).2
        rw [fsEntryLookupCb]
        split
        · exact Prints.ifGet q (fun r => Prints.prints r _) r
        · exact prints_xEntryLookupCb _ q r x _ _

theorem prints_oMethod {ops : EntryOps} {method : Method} {f}
    (hf : oMethod env ops method = some f) (data : Option EData) :
    r.Prints (f s data q r).2 := by
  cases ops <;> cases method <;> cases hf <;> rcases data with _ | type | x
  all_goals first
    | exact .refl r
    | exact prints_topGetCb env s q r
    | exact prints_kNodes r env.printf _
    | exact prints_clusGetCb r env.printf0 s.toDaemon x
    | exact prints_foldl_prints r _ _
    | exact Prints.prints r _

omit s q r in
theorem masterOps_keeps {P : Response → Prop}
    (hP : ∀ {r r' : Response}, r.Prints r' → P r → P r') : (masterOps env).Keeps P where
  status status hr := hP ((Prints.refl _).withStatus status) hr
  lookup hf s data name rest q _ hr := hP (prints_oLookup env s q _ hf data name rest) hr
  method hf s data q _ hr := hP (prints_oMethod env s q _ hf data) hr

omit s q r in
theorem masterOps_ok : (masterOps env).Ok :=
  masterOps_keeps env Prints.ok

/-- The master behind its connections. -/
def masterApp (block : ℕ → Option UInt64) : App (Server EntryOps EData (Site R)) :=
  Http.serverApp (entryEnv block) (masterOps_ok env)

omit s q r in
/-- No callback of the master sets `r_close`. -/
theorem masterApp_keepsOpen (block : ℕ → Option UInt64) : (masterApp env block).KeepsOpen :=
  Http.serverApp_keepsOpen (entryEnv block) (masterOps_ok env)
    (masterOps_keeps env fun hprints hr => hprints.close.trans hr)

end Ops

/-! ## Entries -/

instance (name : CString) : Decidable (IsName name) :=
  decidable_of_iff (Http.pathsep (some name) = (some name, none) ∧ name ≠ lit "." ∧ name ≠ lit "..")
    ⟨fun h => ⟨h.1, h.2.1, h.2.2⟩, fun h => ⟨h.cut, h.dot, h.dots⟩⟩

theorem isName_masterEntries :
    ∀ call ∈ masterEntries, ∃ name, call.path = some name ∧ IsName name := by
  have hall : (masterEntries.map AddCall.path).all
      (fun path => path.any fun name => decide (IsName name)) = true := by
    decide +kernel
  intro call hcall
  have hany := List.all_eq_true.1 hall _ (List.mem_map_of_mem hcall)
  obtain ⟨name, hname, hdec⟩ := (Option.any_eq_true _ _).1 hany
  exact ⟨name, hname, of_decide_eq_true hdec⟩

variable {R : Type*}

/-- What `e_data` of an entry is: a type, or a server, a cluster or a filesystem
that is there. -/
inductive EntryOk (m : Daemon R) : EntryOps → Option EData → Prop where
  | default : EntryOk m .botzDefaultOps none
  | dir (type : XType) : EntryOk m .xDirOpsDefault (some (.type type))
  | servDir : EntryOk m .servDirOps (some (.type .serv))
  | clusDir : EntryOk m .clusDirOps (some (.type .clus))
  | fsDir : EntryOk m .fsDirOps (some (.type .fs))
  | serv {x : XNode} (hx : m.xLookup .serv x.xName = some x) :
      EntryOk m .servEntryOps (some (.node x))
  | clus {x : XNode} (hx : m.xLookup .clus x.xName = some x) :
      EntryOk m .clusEntryOps (some (.node x))
  | fs {x : XNode} (hx : m.xLookup .fs x.xName = some x) :
      EntryOk m .fsEntryOps (some (.node x))
  | top : EntryOk m .topEntryOps none
  | domains : EntryOk m .domainsEntryOps none

theorem entryOk_masterEntries (m : Daemon R) :
    ∀ call ∈ masterEntries, ∃ ops, call.ops = some ops ∧ EntryOk m ops call.data := by
  intro call hcall
  rw [masterEntries, List.mem_append] at hcall
  rcases hcall with htype | hmore
  · obtain ⟨type, -, rfl⟩ := List.mem_map.1 htype
    exact ⟨_, rfl, .dir type⟩
  · simp only [List.mem_cons, List.not_mem_nil, or_false] at hmore
    rcases hmore with rfl | rfl | rfl | rfl | rfl
    · exact ⟨_, rfl, .servDir⟩
    · exact ⟨_, rfl, .clusDir⟩
    · exact ⟨_, rfl, .fsDir⟩
    · exact ⟨_, rfl, .top⟩
    · exact ⟨_, rfl, .domains⟩

theorem entryOk_roots (m : Daemon R) {block : ℕ → Option UInt64} {name : CString}
    {v : Option EntryOps × Option EData}
    (h : Http.rootsOf (entryEnv block) masterEntries name = some v) :
    ∃ ops, v.1 = some ops ∧ EntryOk m ops v.2 := by
  rcases Http.rootsOf_eq_some h with rfl | ⟨call, hcall, rfl⟩
  · exact ⟨.botzDefaultOps, rfl, .default⟩
  · exact entryOk_masterEntries m call hcall

/-! ## Places -/

/-- The entries that are created below the directories: those of the nodes. -/
def siteCreated (m : Daemon R) : Creates EntryOps EData
  | .servDirOps, _, name => (m.xLookup .serv name).map fun x => (.servEntryOps, .node x)
  | .clusDirOps, _, name => (m.xLookup .clus name).map fun x => (.clusEntryOps, .node x)
  | .fsDirOps, _, name => (m.xLookup .fs name).map fun x => (.fsEntryOps, .node x)
  | _, _, _ => none

theorem xEntryLookupCb_ne (t : XTree) (q : Request) (r : Response) (x : XNode)
    (pName pRest : Option CString) (ops : EntryOps) (data : EData) :
    (xEntryLookupCb t q r x pName pRest).1 ≠ .newEntry ops data := by
  intro hnew
  cases pName with
  | none => cases hnew
  | some name =>
      rw [xEntryLookupCb] at hnew
      split at hnew
      · cases hnew
      · split at hnew <;> cases hnew

theorem xDirLookupCb_ne (s : Site R) (pName : CString) (pRest : Option CString) (q : Request)
    (r : Response) (eData : Option EData) (ops : EntryOps) (data : EData) :
    (xDirLookupCb s pName pRest q r eData).1 ≠ .newEntry ops data := by
  rcases eData with _ | type | x
  · exact fun h => nomatch h
  · rw [xDirLookupCb]
    split
    · exact xEntryLookupCb_ne _ q r _ _ _ ops data
    · split
      · exact fun h => nomatch h
      · split
        · exact fun h => nomatch h
        · split <;> exact fun h => nomatch h
  · exact fun h => nomatch h

section Creating

variable [Field R] [LinearOrder R] [FloorRing R] (env : SiteEnv R) (s : Site R)

omit [Field R] [LinearOrder R] [FloorRing R] in
theorem servEntryLookupCb_ne (eData : Option EData) (pName : CString) (pRest : Option CString)
    (q : Request) (r : Response) (ops : EntryOps) (data : EData) :
    (servEntryLookupCb env s eData pName pRest q r).1 ≠ .newEntry ops data := by
  rcases eData with _ | type | x
  · exact fun h => nomatch h
  · exact fun h => nomatch h
  · rw [servEntryLookupCb]
    split
    · exact fun h => nomatch h
    · split
      · exact fun h => nomatch h
      · exact xEntryLookupCb_ne _ q r x _ _ ops data

omit [Field R] [LinearOrder R] [FloorRing R] in
theorem clusEntryLookupCb_ne (eData : Option EData) (pName : CString) (pRest : Option CString)
    (q : Request) (r : Response) (ops : EntryOps) (data : EData) :
    (clusEntryLookupCb env s eData pName pRest q r).1 ≠ .newEntry ops data := by
  rcases eData with _ | type | x
  · exact fun h => nomatch h
  · exact fun h => nomatch h
  · rw [clusEntryLookupCb]
    split
    · exact fun h => nomatch h
    · exact xEntryLookupCb_ne _ q r x _ _ ops data

omit [Field R] [LinearOrder R] [FloorRing R] in
theorem fsEntryLookupCb_ne (eData : Option EData) (pName : CString) (pRest : Option CString)
    (q : Request) (r : Response) (ops : EntryOps) (data : EData) :
    (fsEntryLookupCb env s eData pName pRest q r).1 ≠ .newEntry ops data := by
  rcases eData with _ | type | x
  · exact fun h => nomatch h
  · exact fun h => nomatch h
  · rw [fsEntryLookupCb]
    split
    · exact fun h => nomatch h
    · exact xEntryLookupCb_ne _ q r x _ _ ops data

omit [Field R] [LinearOrder R] [FloorRing R] in
theorem typeDirLookupCb_found {type : XType} {name : CString} {x : XNode}
    (hx : s.xLookup type name = some x) (rest : Option CString) (q : Request) (r : Response)
    (entryOps : EntryOps) (data : Option EData) :
    typeDirLookupCb s name rest q r type entryOps data = (.newEntry entryOps (.node x), r) := by
  rw [typeDirLookupCb, hx]

omit [Field R] [LinearOrder R] [FloorRing R] in
theorem typeDirLookupCb_missing {type : XType} {name : CString}
    (hx : s.xLookup type name = none) (rest : Option CString) (q : Request) (r : Response)
    (entryOps : EntryOps) (data : Option EData) :
    typeDirLookupCb s name rest q r type entryOps data = xDirLookupCb s name rest q r data := by
  rw [typeDirLookupCb, hx]

/-- The directories of servers, clusters and filesystems create entries, and do
so for each node. -/
theorem creating_masterOps : Creating (masterOps env) (siteCreated s.toDaemon) s where
  nothing {ops} h data name := by
    cases ops <;> first | rfl | exact nomatch h
  creates {ops f} h {data name new} hnew rest q r := by
    cases ops with
    | servDirOps | clusDirOps | fsDirOps =>
        cases h
        obtain ⟨x, hx, rfl⟩ := Option.map_eq_some_iff.1 hnew
        simp only [servDirLookupCb, clusDirLookupCb, fsDirLookupCb, typeDirLookupCb_found s hx]
    | _ => cases hnew
  responds {ops f} h {data name} hnone rest q r new data' := by
    cases ops with
    | botzDefaultOps | topEntryOps | domainsEntryOps => cases h
    | xDirOpsDefault =>
        cases h
        exact xDirLookupCb_ne s name rest q r data new data'
    | servDirOps | clusDirOps | fsDirOps =>
        cases h
        have hx := Option.map_eq_none_iff.1 hnone
        simp only [servDirLookupCb, clusDirLookupCb, fsDirLookupCb, typeDirLookupCb_missing s hx]
        exact xDirLookupCb_ne s name rest q r data new data'
    | servEntryOps =>
        cases h
        exact servEntryLookupCb_ne env s data name rest q r new data'
    | clusEntryOps =>
        cases h
        exact clusEntryLookupCb_ne env s data name rest q r new data'
    | fsEntryOps =>
        cases h
        exact fsEntryLookupCb_ne env s data name rest q r new data'

end Creating

theorem entryOk_created {m : Daemon R} (h : DaemonOk m) {ops : EntryOps} {data : Option EData}
    {name : CString} {new : EntryOps × EData} (hnew : siteCreated m ops data name = some new) :
    EntryOk m new.1 (some new.2) := by
  have hname {type : XType} {x : XNode} (hx : m.xLookup type name = some x) :
      m.xLookup type x.xName = some x := by
    rw [(h.state.tree.xLookup_eq_some.1 hx).2.2]
    exact hx
  cases ops with
  | servDirOps =>
      obtain ⟨x, hx, rfl⟩ := Option.map_eq_some_iff.1 hnew
      exact .serv (hname hx)
  | clusDirOps =>
      obtain ⟨x, hx, rfl⟩ := Option.map_eq_some_iff.1 hnew
      exact .clus (hname hx)
  | fsDirOps =>
      obtain ⟨x, hx, rfl⟩ := Option.map_eq_some_iff.1 hnew
      exact .fs (hname hx)
  | _ => cases hnew

/-- The entries on the way to a place are in order. -/
structure PlaceOk (m : Daemon R) (bl : BotzListen EntryOps EData) (v : Place EntryOps EData) :
    Prop where
  mem : v.1 ∈ bl.blEntryTable.toList
  created : ∀ new ∈ v.2, EntryOk m new.1 (some new.2)

section Places

variable {m : Daemon R} {block : ℕ → Option UInt64} {bl : BotzListen EntryOps EData}
  {v w : Place EntryOps EData} {name : CString}

theorem PlaceOk.entry (h : PlaceOk m bl v)
    (hflat : Flat (entryEnv block) bl (Http.rootsOf (entryEnv block) masterEntries)) :
    ∃ ops, Http.placeOps bl v = some ops ∧ EntryOk m ops (Http.placeData bl v) := by
  obtain ⟨e, _ | ⟨new, above⟩⟩ := v
  · exact entryOk_roots m (hflat.roots_eq h.mem)
  · exact ⟨new.1, rfl, h.created new (List.mem_cons_self ..)⟩

theorem PlaceOk.up (h : PlaceOk m bl v)
    (hflat : Flat (entryEnv block) bl (Http.rootsOf (entryEnv block) masterEntries))
    (hup : Http.placeUp bl v = some w) : PlaceOk m bl w := by
  obtain ⟨e, _ | ⟨new, above⟩⟩ := v
  · obtain ⟨p, hp, rfl⟩ := Option.map_eq_some_iff.1 hup
    cases (hflat.below e h.mem).symm.trans hp
    exact ⟨hflat.ok.root_mem, fun _ hnew => nomatch hnew⟩
  · cases hup
    exact ⟨h.mem, fun new' hnew => h.created new' (List.mem_cons_of_mem _ hnew)⟩

theorem PlaceOk.child (h : PlaceOk m bl v) (hok : DaemonOk m)
    (hflat : Flat (entryEnv block) bl (Http.rootsOf (entryEnv block) masterEntries))
    (hchild : Http.placeChild bl (siteCreated m) v name = some w) : PlaceOk m bl w := by
  rw [Http.placeChild] at hchild
  split at hchild
  · next c hstatic =>
      cases hchild
      rw [Http.placeStatic] at hstatic
      split at hstatic
      · exact ⟨(hflat.ok.child_eq_some.1 hstatic).1, List.forall_mem_nil _⟩
      · cases hstatic
  · obtain ⟨new, hnew, rfl⟩ := Option.map_eq_some_iff.1 hchild
    obtain ⟨ops, -, hcreated⟩ := Option.bind_eq_some_iff.1 hnew
    refine ⟨h.mem, fun new' hmem => ?_⟩
    rcases List.mem_cons.1 hmem with rfl | hmem
    · exact entryOk_created hok hcreated
    · exact h.created new' hmem

/-- Every path leads to an entry whose data is what its operations expect. -/
theorem placeOk_landing (hok : DaemonOk m)
    (hflat : Flat (entryEnv block) bl (Http.rootsOf (entryEnv block) masterEntries))
    (path : CString) :
    (Http.landing bl (siteCreated m) (some (bl.blRootEntry, [])) (some path)).Forall
      (PlaceOk m bl) :=
  Http.landing_keeps (fun hv hup => hv.up hflat hup) (fun hv hchild => hv.child hok hflat hchild)
    fun _ hw => Option.some.inj hw ▸ ⟨hflat.ok.root_mem, fun _ hnew => nomatch hnew⟩

end Places

end Xltop.Master
