import Xltop.Master.Walks

/-!
# The master daemon

Clusters, jobs, lnets and servers on top of the node state, and the callbacks
that the event loop runs: a line of a PUT to a server or to a cluster, the
zombie timer of a job, a top query, and a GET of a server.

Everything that embeds an `x_node` is a field of the node in a table by node.
Authorisation, the status and the intervals of servers and clusters and the
times of their last PUT play no part.
-/

namespace Xltop.Master

open Function
open Xltop.Text
open Xltop.Hash
open Xltop.Heap
open Xltop.Rate

/-- What the daemon takes from outside: libm and the clock settings, the
number parsers, and the bit that `malloc` leaves where `j_fake` will be. -/
structure Env (R : Type*) where
  conf : KConf R
  strtod : CString → R
  /-- `sscanf(msg, "%lf %lf %lf", ..)` when it assigns all three. -/
  sscanfStats : CString → Option (Stats R)
  freshBit : XNode → Bool

/-- A `struct job_node`; `jZombieW` is the time at which the timer was started
while it is active. -/
structure JobNode (R : Type*) where
  jOwner : CString
  jTitle : CString
  jStartTime : R
  jZombieW : Option R
  jFake : Bool

/-- The state of the daemon. -/
structure Daemon (R : Type*) extends XState R where
  jobs : XNode → JobNode R
  /-- `c_idle_job` -/
  cIdleJob : XNode → Option XNode
  /-- `s_lnet`, by name -/
  sLnet : XNode → CString
  /-- `clus_0` -/
  clus0 : Option XNode
  domainClusTable : StrTable XNode
  /-- `lnet_list`, by name -/
  lnets : CString → Option (StrTable XNode)

namespace Daemon

variable {R : Type*} [Field R] [LinearOrder R] [FloorRing R]

/-! ## Jobs -/

section Jobs

omit [Field R] [LinearOrder R] [FloorRing R]

def setJob (m : Daemon R) (j : XNode) (f : JobNode R → JobNode R) : Daemon R :=
  { m with jobs := update m.jobs j (f (m.jobs j)) }

/-- `job_lookup`: an unknown job is created, with `j_fake` as `malloc` left
it. -/
def jobLookup (env : Env R) (m : Daemon R) (name : CString) (parent : XNode)
    (owner title start : CString) : XNode × Daemon R :=
  match m.xLookup .job name with
  | some j => (j, m)
  | none =>
      let (j, t) := m.xInit .job (some parent) (strHash name) name
      (j, { m with
        toXTree := t
        jobs := update m.jobs j
          { jOwner := owner
            jTitle := title
            jStartTime := env.strtod start
            jZombieW := none
            jFake := env.freshBit j } })

/-- `ev_timer_start`, which does nothing to an active timer. -/
def timerStart (now : R) (j : JobNode R) : JobNode R :=
  { j with jZombieW := some (j.jZombieW.getD now) }

def jobEnd (m : Daemon R) (j : XNode) (now : R) : Daemon R :=
  if (m.jobs j).jFake then m else m.setJob j (timerStart now)

/-- `job_zombie_cb`; the timer is inactive when the callback runs. -/
def jobZombieCb (m : Daemon R) (j : XNode) (now : R) : Daemon R :=
  let m := m.setJob j fun job => { job with jZombieW := none }
  if (m.jobs j).jFake then m
  else if 0 < (m.links j).xNrChild then m.setJob j (timerStart now)
  else { m with toXState := m.xDestroy j }

end Jobs

/-! ## Hosts and lnets -/

section Hosts

omit [Field R] [LinearOrder R] [FloorRing R]

/-- `clus_lookup_for_host`: what follows each dot in turn is looked up. -/
def clusLookupForHost (m : Daemon R) : CString → Option XNode
  | [] => m.clus0
  | c :: name =>
      if c = 46 then
        match strTableRef m.domainClusTable name with
        | some clus => some clus
        | none => m.clusLookupForHost name
      else m.clusLookupForHost name

/-- `x_host_lookup` with `L_CREATE` and without a parent, as it is called
everywhere. -/
def xHostLookup (m : Daemon R) (name : CString) : Option XNode × Daemon R :=
  match m.xLookup .host name with
  | some x => (some x, m)
  | none =>
      match (m.clusLookupForHost name).bind m.cIdleJob with
      | none => (none, m)
      | some p =>
          let (x, t) := m.xInit .host (some p) (strHash name) name
          (some x, { m with toXTree := t })

/-- `lnet_lookup_nid` with `L_CREATE`. -/
def lnetLookupNid (m : Daemon R) (l nid : CString) : Option XNode × Daemon R :=
  match m.lnets l with
  | none => (none, m)
  | some table =>
      match strTableRef table nid with
      | some x => (some x, m)
      | none =>
          match m.xHostLookup nid with
          | (none, m) =>
              let table := table.erase StrTableEntry.eKey strHash nid
              (none, { m with lnets := update m.lnets l (some table) })
          | (some x, m) =>
              let table := strTableAssign (strTableCreate table nid) nid x
              (some x, { m with lnets := update m.lnets l (some table) })

end Hosts

/-! ## Messages -/

omit [Field R] [LinearOrder R] [FloorRing R] in
/-- `serv_msg_cb` up to its last statement, with the arguments of
`x_update`. -/
def servMsg (env : Env R) (m : Daemon R) (s : XNode) (msg : CString) :
    Daemon R × Option (XNode × Stats R) :=
  match wsep (some msg) with
  | (some nid, some rest) =>
      match m.lnetLookupNid (m.sLnet s) nid with
      | (none, m) => (m, none)
      | (some x, m) => (m, (env.sscanfStats rest).map fun d => (x, d))
  | _ => (m, none)

def servMsgCb (env : Env R) (m : Daemon R) (s : XNode) (msg : CString) (now : R) :
    Daemon R :=
  match servMsg env m s msg with
  | (m, none) => m
  | (m, some (x, d)) => { m with toXState := m.xUpdate env.conf x s d now }

omit [Field R] [LinearOrder R] [FloorRing R] in
/-- `clus_msg_cb`: host, job, owner, title and start time. -/
def clusMsgCb (env : Env R) (m : Daemon R) (c : XNode) (msg : CString) (now : R) :
    Daemon R :=
  match (split 5 (some msg)).1 with
  | hostName :: jobName :: rest =>
      let (j, m) := jobLookup env m jobName c (rest[0]?.getD (lit "NONE"))
        (rest[1]?.getD (lit "NONE")) (rest[2]?.getD (lit "0"))
      let (x, t) := m.xLookupCreate .host hostName (some j)
      let m := { m with toXTree := t }
      let p := m.parent x
      if p = some j then m
      else
        let m := { m with toXTree := m.xSetParent x (some j) }
        match p with
        | none => m
        | some p =>
            if p.xType = .job ∧ (m.links p).xNrChild = 0 then m.jobEnd p now else m
  | _ => m

/-! ## Queries -/

/-- The fields of a top query. -/
structure TopQuery where
  x0 : CString
  x1 : CString
  d0 : ℕ
  d1 : ℕ
  limit : ℕ
  sort : TSpec
  owner : Option CString

omit [Field R] [LinearOrder R] [FloorRing R] in
/-- `k_heap_filt_owner`: a job decides for itself and all below. -/
def kHeapFiltOwner (m : Daemon R) (owner : CString) (k : KNode XNode R) : ℤ :=
  if k.kX0.xType = .job then
    if (m.jobs k.kX0).jOwner = owner then 1 else -1
  else 0

/-- `TOP_LIMIT_MAX`. -/
abbrev topLimitMax : ℕ := 4096

/-- `top_query_cb`: the statistics it prints, or none for an unknown node. -/
def topQueryCb (env : Env R) (m : Daemon R) (q : TopQuery) (now : R) :
    Daemon R × Option (List (KNode XNode R)) :=
  match m.xLookupStr q.x0, m.xLookupStr q.x1 with
  | some x0, some x1 =>
      let limit := if q.limit = 0 then topLimitMax else min q.limit topLimitMax
      let (σ, h) := kHeapTop env.conf (kTopCmp q.sort) now q.d0 q.d1
        (q.owner.map m.kHeapFiltOwner) (m.toXState, kHeapInit limit) x0 x1
      ({ m with toXState := σ }, some (kHeapArray (kHeapOrder (kTopCmp q.sort) h)))
  | _, _ => (m, none)

def servGetCb (env : Env R) (m : Daemon R) (s : XNode) (now : R) :
    Daemon R × List (KNode XNode R) :=
  let (σ, ks) := servGetR env.conf now nrXTypes (m.toXState, []) (m.xAll 0) s
  ({ m with toXState := σ }, ks)

end Daemon

/-! ## Events -/

/-- What the event loop may run next, at the time `now`. -/
inductive Event (R : Type*) where
  | servMsg (serv msg : CString) (now : R)
  | clusMsg (clus msg : CString) (now : R)
  | zombie (job : XNode) (now : R)
  | top (q : Daemon.TopQuery) (now : R)
  | servGet (serv : CString) (now : R)

namespace Daemon

variable {R : Type*} [Field R] [LinearOrder R] [FloorRing R]

/-- One event.  A request for an unknown server or cluster does nothing, and a
timer that is not active does not fire. -/
def step (env : Env R) (m : Daemon R) : Event R → Daemon R
  | .servMsg serv msg now =>
      match m.xLookup .serv serv with
      | some s => m.servMsgCb env s msg now
      | none => m
  | .clusMsg clus msg now =>
      match m.xLookup .clus clus with
      | some c => m.clusMsgCb env c msg now
      | none => m
  | .zombie job now =>
      if (m.jobs job).jZombieW.isSome then m.jobZombieCb job now else m
  | .top q now => (m.topQueryCb env q now).1
  | .servGet serv now =>
      match m.xLookup .serv serv with
      | some s => (m.servGetCb env s now).1
      | none => m

omit [Field R] [LinearOrder R] [FloorRing R] in
/-- The calls of `x_update` that an event makes. -/
def calls (env : Env R) (m : Daemon R) : Event R → List (Call R)
  | .servMsg serv msg _ =>
      match m.xLookup .serv serv with
      | some s =>
          match m.servMsg env s msg with
          | (m, some (x, d)) => [⟨m.toXTree, x, s, d⟩]
          | (_, none) => []
      | none => []
  | _ => []

/-- The state after a run of events. -/
def run (env : Env R) (m : Daemon R) (events : List (Event R)) : Daemon R :=
  events.foldl (step env) m

/-- All calls of `x_update` in a run, in order. -/
def history (env : Env R) (m : Daemon R) : List (Event R) → List (Call R)
  | [] => []
  | event :: events =>
      m.calls env event ++ history env (m.step env event) events

end Daemon

end Xltop.Master
