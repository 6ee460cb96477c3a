import Xltop.Master.Requests

/-!
# Requests as events

What a request does to the daemon is what the events of its entry do: one for
each line of a PUT to a server or to a cluster, and one for a query.  Beside
that, a PUT to the status of a server sets it.  So the daemon behind the server,
whatever its connections do, is in a state that a run of events reaches.
-/

namespace Xltop.Master

open Function
open Xltop.Buffer
open Xltop.Hash
open Xltop.Http (Act BotzListen Creates Flat History Landing Listener Looked Method Place
  Populated Remembers Request Response Server landing placeData placeOps)
open Xltop.Query (Outcome)
open Xltop.Status
open Xltop.Text

variable {R : Type*}

/-! ## The events of a request -/

/-- The events of a request for an entry. -/
def entryEvents (now : R) (q : Request) : EntryOps → Option EData → List (Event R)
  | .servEntryOps, some (.node x) =>
      match q.qMethod with
      | .get => [.servGet x.xName now]
      | .put => (bodyLines q.qBody).map fun line => .servMsg x.xName (cstr line) now
      | _ => []
  | .clusEntryOps, some (.node x) =>
      match q.qMethod with
      | .put => (bodyLines q.qBody).map fun line => .clusMsg x.xName (cstr line) now
      | _ => []
  | .topEntryOps, _ =>
      match q.qMethod, topQueryParse q.qQuery with
      | .get, .ok query => [.top query now]
      | _, _ => []
  | _, _ => []

/-- Where the path of a request leads. -/
def reach (bl : BotzListen EntryOps EData) (created : Creates EntryOps EData) (q : Request) :
    Landing EntryOps EData :=
  match q.qPath with
  | none => .nowhere
  | some path => landing bl created (some (bl.blRootEntry, [])) (some path)

/-- The events of a request. -/
def requestEvents (bl : BotzListen EntryOps EData) (created : Creates EntryOps EData) (now : R)
    (q : Request) : List (Event R) :=
  match reach bl created q with
  | .place v =>
      match placeOps bl v with
      | some ops => entryEvents now q ops (placeData bl v)
      | none => []
  | _ => []

/-- The server whose status a request for a component of an entry sets, and the
status. -/
def entryStatus (env : SiteEnv R) (q : Request) (name : CString) (rest : Option CString) :
    EntryOps → Option EData → Option (XNode × ServStatus R)
  | .servEntryOps, some (.node x) =>
      if q.qMethod = .put ∧ name = lit "_status" ∧ rest = none then
        (bodyStatus env q.qBody).map fun status => (x, status)
      else none
  | _, _ => none

def requestStatus (env : SiteEnv R) (bl : BotzListen EntryOps EData)
    (created : Creates EntryOps EData) (q : Request) : Option (XNode × ServStatus R) :=
  match reach bl created q with
  | .beyond v name rest =>
      match placeOps bl v with
      | some ops => entryStatus env q name rest ops (placeData bl v)
      | none => none
  | _ => none

/-- The operations of the entry that a request is for. -/
def reachOps (bl : BotzListen EntryOps EData) (created : Creates EntryOps EData) (q : Request) :
    Option EntryOps :=
  match reach bl created q with
  | .place v => placeOps bl v
  | _ => none

/-- Where a request gets to `top_get_cb`, `query_parse` stays within its query. -/
def Sound (bl : BotzListen EntryOps EData) (created : Creates EntryOps EData) (q : Request) :
    Prop :=
  q.qMethod = .get → reachOps bl created q = some .topEntryOps → topQueryParse q.qQuery ≠ .fault

section Served

variable [Field R] [LinearOrder R] [FloorRing R] {env : SiteEnv R} {m : Daemon R}

section Lines

variable (env : Env R) {type : XType} (hcomes : ¬ type.Comes) {x : XNode}
  (event : CString → Event R) (msgCb : Daemon R → CString → Daemon R)
  (hstep : ∀ {m line}, m.xLookup type x.xName = some x →
    m.step env (event line) = msgCb m line)

include hcomes hstep

/-- The lines of a PUT to a node that stays, one after the other. -/
theorem run_lines (h : DaemonOk m) (hx : m.xLookup type x.xName = some x)
    (lines : List CString) : m.run env (lines.map event) = lines.foldl msgCb m := by
  induction lines generalizing m with
  | nil => rfl
  | cons line lines ih =>
      have hok := (h.step env (event line)).2
      have hkept := (installed_step env h (event line)).xLookup h hok hcomes x.xName
      calc
        m.run env ((line :: lines).map event)
            = (m.step env (event line)).run env (lines.map event) := rfl
        _ = lines.foldl msgCb (m.step env (event line)) := ih hok (hkept.trans hx)
        _ = (line :: lines).foldl msgCb m := by rw [hstep hx, List.foldl_cons]

/-- The body of a PUT to a node that stays. -/
theorem run_body (h : DaemonOk m) (hx : m.xLookup type x.xName = some x)
    (body : List Byte) :
    (nBufMsgs (textBuf body)).foldl (fun m msg => msgCb m (cstr msg)) m =
      m.run env ((bodyLines body).map fun line => event (cstr line)) := by
  have hrun := run_lines env hcomes event msgCb hstep h hx ((bodyLines body).map cstr)
  rw [List.map_map, List.foldl_map] at hrun
  rw [nBufMsgs_eq (check_textBuf body), data_textBuf]
  exact hrun.symm

end Lines

theorem servPutCb_run (env : Env R) (h : DaemonOk m) {x : XNode}
    (hx : m.xLookup .serv x.xName = some x) (body : List Byte) (now : R) :
    m.servPutCb env x (textBuf body) now =
      m.run env ((bodyLines body).map fun line => .servMsg x.xName (cstr line) now) :=
  run_body env (by decide) (fun line => .servMsg x.xName line now)
    (fun m line => m.servMsgCb env x line now)
    (fun hx => by simp only [Daemon.step, hx]) h hx body

theorem clusPutCb_run (env : Env R) (h : DaemonOk m) {x : XNode}
    (hx : m.xLookup .clus x.xName = some x) (body : List Byte) (now : R) :
    m.clusPutCb env x (textBuf body) now =
      m.run env ((bodyLines body).map fun line => .clusMsg x.xName (cstr line) now) :=
  run_body env (by decide) (fun line => .clusMsg x.xName line now)
    (fun m line => m.clusMsgCb env x line now)
    (fun hx => by simp only [Daemon.step, hx]) h hx body

/-! ## One request -/

/-- The status of a server when one may have been set. -/
def newStatus (status : Option (XNode × ServStatus R)) (x : XNode) (old : ServStatus R) :
    ServStatus R :=
  match status with
  | some (y, status) => if x = y then status else old
  | none => old

/-- What a request does to the site. -/
structure Served (env : SiteEnv R) (events : List (Event R))
    (status : Option (XNode × ServStatus R)) (s s' : Site R) : Prop where
  run : s'.toDaemon = s.toDaemon.run env.toEnv events
  now : s'.now = s.now
  hint : s'.xNrHint = s.xNrHint
  status : ∀ x, (s'.servs x).sStatus = newStatus status x (s.servs x).sStatus
  schedule : ∀ x, (s'.servs x).sInterval = (s.servs x).sInterval ∧
    (s'.servs x).sOffset = (s.servs x).sOffset

namespace Served

variable {s s' s'' : Site R}

theorem refl (env : SiteEnv R) (s : Site R) : Served env [] none s s where
  run := rfl
  now := rfl
  hint := rfl
  status _ := rfl
  schedule _ := ⟨rfl, rfl⟩

/-- The daemon alone has changed. -/
theorem of_run {events : List (Event R)} {m : Daemon R} (hm : m = s.toDaemon.run env.toEnv events) :
    Served env events none s { s with toDaemon := m } where
  run := hm
  now := rfl
  hint := rfl
  status _ := rfl
  schedule _ := ⟨rfl, rfl⟩

end Served

section Callbacks

variable {s : Site R} {x : XNode}

theorem served_servGetCb (hx : s.toDaemon.xLookup .serv x.xName = some x) (r : Response) :
    Served env [.servGet x.xName s.now] none s (servGetCb env s x r).1 := by
  have hstep : s.toDaemon.step env.toEnv (.servGet x.xName s.now) =
      (s.toDaemon.servGetCb env.toEnv x s.now).1 := by
    simp only [Daemon.step, hx]
  exact .of_run hstep.symm

theorem served_servPutCb (hok : DaemonOk s.toDaemon)
    (hx : s.toDaemon.xLookup .serv x.xName = some x) (q : Request) :
    Served env ((bodyLines q.qBody).map fun line => .servMsg x.xName (cstr line) s.now) none s
      (servPutCb env s x q) where
  run := servPutCb_run env.toEnv hok hx q.qBody s.now
  now := rfl
  hint := rfl
  status y := by
    simp only [servPutCb, Site.setServ, update_apply]
    split
    · next heq => rw [heq]; rfl
    · rfl
  schedule y := by
    simp only [servPutCb, Site.setServ, update_apply]
    split
    · next heq => rw [heq]; exact ⟨rfl, rfl⟩
    · exact ⟨rfl, rfl⟩

theorem served_clusPutCb (hok : DaemonOk s.toDaemon)
    (hx : s.toDaemon.xLookup .clus x.xName = some x) (q : Request) :
    Served env ((bodyLines q.qBody).map fun line => .clusMsg x.xName (cstr line) s.now) none s
      (clusPutCb env s x q) where
  run := clusPutCb_run env.toEnv hok hx q.qBody s.now
  now := rfl
  hint := rfl
  status _ := rfl
  schedule _ := ⟨rfl, rfl⟩

theorem served_topGetCb {q : Request} (hsound : topQueryParse q.qQuery ≠ .fault)
    (hget : q.qMethod = .get) (r : Response) :
    Served env (entryEvents s.now q .topEntryOps none) none s (topGetCb env s q r).1 := by
  cases hparse : topQueryParse q.qQuery with
  | fault => exact absurd hparse hsound
  | error =>
      simp only [topGetCb, entryEvents, hget, hparse]
      exact .refl env s
  | ok query =>
      have hstep : (s.toDaemon.topQueryCb env.toEnv query s.now).1 =
          s.toDaemon.run env.toEnv [.top query s.now] := rfl
      simp only [topGetCb, entryEvents, hget, hparse]
      rcases hcb : s.toDaemon.topQueryCb env.toEnv query s.now with ⟨m, _ | ks⟩ <;>
        rw [hcb] at hstep <;> exact .of_run hstep

theorem served_servStatusCb (q : Request) (r : Response) :
    Served env [] (entryStatus env q (lit "_status") none .servEntryOps (some (.node x))) s
      (servStatusCb env s x q r).1 := by
  by_cases hput : q.qMethod = .put
  · simp only [entryStatus, servStatusCb, hput, servStatusPutCb, and_self, if_true]
    cases hbody : bodyStatus env q.qBody with
    | none => exact .refl env s
    | some status =>
        exact
          { run := rfl
            now := rfl
            hint := rfl
            status := fun y => by
              simp only [Site.setServ, update_apply, Option.map_some, newStatus]
              split <;> rfl
            schedule := fun y => by
              simp only [Site.setServ, update_apply]
              split
              · next heq => exact heq ▸ ⟨rfl, rfl⟩
              · exact ⟨rfl, rfl⟩ }
  · have hsame : (servStatusCb env s x q r).1 = s := by
      rw [servStatusCb]
      split <;> first | rfl | contradiction
    rw [entryStatus, if_neg fun h => hput h.1, hsame]
    exact .refl env s

theorem served_servEntryLookupCb (name : CString) (rest : Option CString) (q : Request)
    (r : Response) :
    Served env [] (entryStatus env q name rest .servEntryOps (some (.node x))) s
      (servEntryLookupCb env s (some (.node x)) name rest q r).2.1 := by
  by_cases hstatus : name = lit "_status" ∧ rest = none
  · obtain ⟨rfl, rfl⟩ := hstatus
    exact served_servStatusCb q r
  · have hsame : (servEntryLookupCb env s (some (.node x)) name rest q r).2.1 = s := by
      rw [servEntryLookupCb, if_neg hstatus]
      split <;> rfl
    rw [entryStatus, if_neg fun h => hstatus h.2, hsame]
    exact .refl env s

end Callbacks

/-- A request for an entry. -/
theorem served_oMethod {s : Site R} (hok : DaemonOk s.toDaemon) {ops : EntryOps}
    {data : Option EData} (hentry : EntryOk s.toDaemon ops data) {q : Request}
    (hsound : q.qMethod = .get → ops = .topEntryOps → topQueryParse q.qQuery ≠ .fault)
    {f} (hf : oMethod env ops q.qMethod = some f) (r : Response) :
    Served env (entryEvents s.now q ops data) none s (f s data q r).1 := by
  cases hentry with
  | default | fs => exact nomatch hf
  | dir | servDir | clusDir | fsDir | domains =>
      cases hmethod : q.qMethod <;> rw [hmethod] at hf <;> cases hf
      exact .refl env s
  | serv hx =>
      cases hmethod : q.qMethod <;> rw [hmethod] at hf <;> cases hf <;>
        simp only [entryEvents, hmethod]
      · exact served_servGetCb hx r
      · exact served_servPutCb hok hx q
  | clus hx =>
      cases hmethod : q.qMethod <;> rw [hmethod] at hf <;> cases hf <;>
        simp only [entryEvents, hmethod]
      · exact .refl env s
      · exact served_clusPutCb hok hx q
  | top =>
      cases hmethod : q.qMethod <;> rw [hmethod] at hf <;> cases hf
      exact served_topGetCb (hsound hmethod rfl) hmethod r

/-- A request for an entry that has no such method. -/
theorem entryEvents_none {ops : EntryOps} {q : Request}
    (hf : oMethod env ops q.qMethod = none) (now : R) (data : Option EData) :
    entryEvents now q ops data = [] := by
  have hmissing {ops' : EntryOps} {method : Method} (hmethod : q.qMethod = method)
      (hops : ops = ops') (hsome : (oMethod env ops' method).isSome = true) : False := by
    rw [hmethod, hops] at hf
    rw [hf] at hsome
    cases hsome
  rw [entryEvents.eq_def]
  split
  · split
    · next hmethod => exact (hmissing hmethod rfl rfl).elim
    · next hmethod => exact (hmissing hmethod rfl rfl).elim
    · rfl
  · split
    · next hmethod => exact (hmissing hmethod rfl rfl).elim
    · rfl
  · split
    · next hmethod _ => exact (hmissing hmethod rfl rfl).elim
    · rfl
  · rfl

/-- A request for a component of an entry. -/
theorem served_oLookup {ops : EntryOps} {f} (hf : oLookup env ops = some f) (s : Site R)
    (data : Option EData) (name : CString) (rest : Option CString) (q : Request) (r : Response) :
    Served env [] (entryStatus env q name rest ops data) s (f s data name rest q r).2.1 := by
  cases ops with
  | botzDefaultOps | topEntryOps | domainsEntryOps => cases hf
  | xDirOpsDefault | servDirOps | clusDirOps | fsDirOps | clusEntryOps | fsEntryOps =>
      cases hf
      exact .refl env s
  | servEntryOps =>
      cases hf
      rcases data with _ | type | x
      · exact .refl env s
      · exact .refl env s
      · exact served_servEntryLookupCb name rest q r

omit [Field R] [LinearOrder R] [FloorRing R] in
theorem entryStatus_none {ops : EntryOps} (hf : oLookup env ops = none) (q : Request)
    (name : CString) (rest : Option CString) (data : Option EData) :
    entryStatus env q name rest ops data = none := by
  cases ops with
  | servEntryOps => cases hf
  | _ => rfl

section Route

variable {block : ℕ → Option UInt64} {bl : BotzListen EntryOps EData} {s : Site R}

/-- What a request does, by where its path leads. -/
theorem served_route (hok : DaemonOk s.toDaemon)
    (hflat : Flat (entryEnv block) bl (Http.rootsOf (entryEnv block) masterEntries))
    {q : Request} (hsound : Sound bl (siteCreated s.toDaemon) q) {path : CString}
    (hpath : q.qPath = some path) (r : Response) :
    Served env (requestEvents bl (siteCreated s.toDaemon) s.now q)
      (requestStatus env bl (siteCreated s.toDaemon) q) s
      (Http.route (masterOps env) q bl (siteCreated s.toDaemon) s r path).1 := by
  have hplace := placeOk_landing hok hflat path
  rw [Sound, reachOps, reach, hpath] at hsound
  rw [Http.route, Http.routeLoop_landing, requestEvents, requestStatus, reach, hpath]
  simp only at hsound ⊢
  cases hlanding : landing bl (siteCreated s.toDaemon) (some (bl.blRootEntry, [])) (some path) with
  | nowhere => exact .refl env s
  | place v =>
      rw [hlanding] at hplace
      obtain ⟨ops, hops, hentry⟩ := PlaceOk.entry hplace hflat
      simp only [hlanding, hops, Option.some.injEq] at hsound
      simp only [hops, Option.bind_some]
      cases hmethod : (masterOps env).oMethod ops q.qMethod with
      | none =>
          rw [entryEvents_none hmethod]
          exact .refl env s
      | some f => exact served_oMethod hok hentry hsound hmethod r
  | beyond v name rest =>
      rw [hlanding] at hplace
      obtain ⟨ops, hops, -⟩ := PlaceOk.entry hplace hflat
      have hchild := Http.placeChild_of_beyond hlanding
      simp only [Http.routeStep, hchild, hops, Option.bind_some]
      cases hlookup : (masterOps env).oLookup ops with
      | none =>
          rw [entryStatus_none hlookup]
          exact .refl env s
      | some f =>
          have hserved := served_oLookup hlookup s (placeData bl v) name rest q r
          rcases hf : f s (placeData bl v) name rest q r with ⟨_ | _ | _, s', r'⟩ <;>
            rw [hf] at hserved <;> simp only [hf] <;> exact hserved

end Route

end Served

/-! ## Starting -/

/-- No server has reported a status yet. -/
structure Unreported [Zero R] (now : R) (s : Site R) : Prop where
  now : s.now = now
  status : ∀ x, (s.servs x).sStatus = noStatus R

section Boot

variable [Field R] [LinearOrder R] {env : Env R} {s s' : Site R} {now : R}

omit [LinearOrder R] in
theorem Unreported.servCfg (h : Unreported now s) (cfg : FsCfg R) (i : ℕ) (name : CString) :
    Unreported now (s.servCfg cfg i name) ∧ (s.servCfg cfg i name).toDaemon = s.toDaemon := by
  rw [Site.servCfg]
  split
  · exact ⟨h, rfl⟩
  · next x _ =>
      refine ⟨⟨h.now, fun y => ?_⟩, rfl⟩
      simp only [Site.setServ, update_apply]
      split <;> exact h.status _

theorem Unreported.fsCfg (h : Unreported now s) {cfg : FsCfg R} (hs : s.fsCfg cfg = some s') :
    Unreported now s' ∧ s.toDaemon.fsCfg cfg = some s'.toDaemon := by
  obtain ⟨m, hm, rfl⟩ := Option.map_eq_some_iff.1 hs
  rw [hm]
  have hfold (servs : List (CString × ℕ)) {s : Site R} (h : Unreported now s)
      (hs : s.toDaemon = m) :
      Unreported now (servs.foldl (fun s serv => s.servCfg cfg serv.2 serv.1) s) ∧
        m = (servs.foldl (fun s serv => s.servCfg cfg serv.2 serv.1) s).toDaemon := by
    induction servs generalizing s with
    | nil => exact ⟨h, hs.symm⟩
    | cons serv servs ih =>
        obtain ⟨hserv, hsame⟩ := h.servCfg cfg serv.2 serv.1
        exact ih hserv (hsame.trans hs)
  obtain ⟨hservs, hsame⟩ := hfold cfg.servs.zipIdx (s := { s with toDaemon := m })
    ⟨h.now, h.status⟩ rfl
  exact ⟨hservs, congrArg some hsame⟩

theorem Unreported.fsCfgs {cfgs : List (FsCfg R)} (hs : cfgs.foldlM Site.fsCfg s = some s')
    (h : Unreported now s) :
    Unreported now s' ∧ cfgs.foldlM Daemon.fsCfg s.toDaemon = some s'.toDaemon := by
  induction cfgs generalizing s with
  | nil =>
      cases hs
      exact ⟨h, rfl⟩
  | cons cfg cfgs ih =>
      obtain ⟨s₁, hs₁, hrest⟩ := Option.bind_eq_some_iff.1 hs
      obtain ⟨h₁, hm₁⟩ := h.fsCfg hs₁
      obtain ⟨h', hm'⟩ := ih hrest h₁
      exact ⟨h', Option.bind_eq_some_iff.2 ⟨_, hm₁, hm'⟩⟩

omit [Field R] [LinearOrder R] in
theorem clusCfgs_toDaemon (env : Env R) (interval : ℕ → R) (cfgs : List ClusCfg) (n : ℕ)
    (s : Site R) :
    let s' := (cfgs.zipIdx n).foldl (fun s clus => s.clusCfg env clus.1 (interval clus.2)) s
    s'.toDaemon = cfgs.foldl (Daemon.clusCfg env) s.toDaemon ∧ s'.servs = s.servs ∧
      s'.now = s.now := by
  induction cfgs generalizing n s with
  | nil => exact ⟨rfl, rfl, rfl⟩
  | cons cfg cfgs ih => exact ih (n + 1) (s.clusCfg env cfg (interval n))

/-- The site starts with the daemon, and with no status. -/
theorem boot_site {cfg : SiteConfig R} (hboot : Site.boot env cfg now = some s) :
    Daemon.boot env cfg.toConfig = some s.toDaemon ∧ Unreported now s := by
  rw [Site.boot] at hboot
  rw [Daemon.boot]
  split at hboot
  · cases hboot
  · next hconf =>
      rw [if_neg hconf]
      rcases hlookup : Daemon.clusLookup env (Daemon.start cfg.toConfig) (lit "NONE") with ⟨c, m₁⟩
      rw [hlookup] at hboot
      dsimp only at hboot ⊢
      obtain ⟨m, hm, hfs⟩ := Option.bind_eq_some_iff.1 hboot
      obtain ⟨hdaemon, hservs, hnow⟩ := clusCfgs_toDaemon env cfg.clusInterval cfg.clus 0
        { Site.start cfg now with toDaemon := { m₁ with clus0 := some c } }
      rw [hdaemon] at hm
      obtain ⟨h, hcfgs⟩ := Unreported.fsCfgs hfs ⟨hnow, fun x => by rw [hservs]; rfl⟩
      exact ⟨Option.bind_eq_some_iff.2 ⟨m, hm, hcfgs⟩, h⟩

end Boot

end Xltop.Master
