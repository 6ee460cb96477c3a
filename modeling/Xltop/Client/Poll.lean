import Xltop.Core.Hash
import Xltop.Master.XNode

/-!
# Polls of the client

`xltop` keeps the jobs of each cluster and, for each host, a pointer to its job.
A poll of a cluster asks the master for its hosts and jobs: the jobs it names
are moved to the list of the cluster, and the jobs that were on the list and are
not named are freed.  Hosts are never removed.
-/

namespace Xltop.Client

open Function
open Xltop.Hash
open Xltop.Text
open Xltop.Master (XType)

/-! ## Hosts and jobs -/

/-- A `struct xl_job *`: the number of the call of `malloc` it comes from. -/
abbrev JobRef := ℕ

structure XlHost where
  hJob : Option JobRef
  hName : CString

/-- A `struct xl_job` and its address; `jLinked` is `j_clus_link.next != NULL`. -/
structure XlJob (D : Type*) where
  jRef : JobRef
  jLinked : Bool
  jOwner : Option CString
  jTitle : Option CString
  jStart : D
  jNrHosts : ℕ
  jName : CString

/-- The host and job tables, the job list of each cluster by `c_name`, the
`tmp_list` of the poll under way, and the next address. -/
structure XlState (D : Type*) where
  xlHost : HashTable XlHost
  xlJob : HashTable (XlJob D)
  cJobList : CString → List JobRef
  tmpList : List JobRef
  nextRef : JobRef

/-- After `xl_hash_init` of the two tables. -/
def xlInit {D : Type*} (hintHost hintJob : UInt64) : XlState D where
  xlHost := hashTableInit hintHost
  xlJob := hashTableInit hintJob
  cJobList _ := []
  tmpList := []
  nextRef := 0

namespace XlState

variable {D : Type*}

def findHost (s : XlState D) (name : CString) : Option XlHost :=
  s.xlHost.lookup XlHost.hName strHash name

def findJob (s : XlState D) (name : CString) : Option (XlJob D) :=
  s.xlJob.lookup XlJob.jName strHash name

/-- `xl_lookup_host` with `create`, as far as the table goes. -/
def xlLookupHost (s : XlState D) (name : CString) : XlState D :=
  match s.findHost name with
  | some _ => s
  | none => { s with xlHost := s.xlHost.addHead (strHash name) ⟨none, name⟩ }

/-- `xl_lookup_job` with `create`; a new job is all zero. -/
def xlLookupJob [Zero D] (s : XlState D) (name : CString) : XlJob D × XlState D :=
  match s.findJob name with
  | some j => (j, s)
  | none =>
      let j := ⟨s.nextRef, false, none, none, 0, 0, name⟩
      (j, { s with
        xlJob := s.xlJob.addHead (strHash name) j
        nextRef := s.nextRef + 1 })

/-- `h->h_job = j` -/
def setHostJob (s : XlState D) (name : CString) (j : JobRef) : XlState D :=
  { s with
    xlHost := s.xlHost.modify XlHost.hName strHash name fun h => { h with hJob := some j } }

/-- A job is linked and gets its fields, on the first line that names it. -/
def initJob (s : XlState D) (name owner title : CString) (start : D) (nrHosts : ℕ) :
    XlState D :=
  { s with
    xlJob := s.xlJob.modify XlJob.jName strHash name fun j => { j with
      jLinked := true
      jOwner := some owner
      jTitle := some title
      jStart := start
      jNrHosts := nrHosts } }

/-- `list_move` to the head of the list of a cluster, from whatever list the job
is on. -/
def listMove (s : XlState D) (j : JobRef) (c : CString) : XlState D :=
  let lists := fun c => (s.cJobList c).filter (· != j)
  { s with
    cJobList := update lists c (j :: lists c)
    tmpList := s.tmpList.filter (· != j) }

/-- The job is taken out of its table and freed. -/
def freeJob (s : XlState D) (j : JobRef) : XlState D :=
  { s with xlJob := s.xlJob.remove fun job => job.jRef == j }

end XlState

/-! ## Polls -/

/-- `curl_x_get_iter` with a callback that never fails: it is called on the lines
of the reply, which is `none` when `curl_x_get` fails. -/
def curlXGetIter {S : Type*} (reply : Option (List CString)) (cb : S → CString → S)
    (s : S) : S :=
  (reply.getD []).foldl cb s

section Poll

variable {D : Type*} [Zero D] (strtod : CString → D)

def xlClusMsgCb (c : CString) (s : XlState D) (m : CString) : XlState D :=
  match (split 6 (some m)).1 with
  | [sHost, sJob, owner, title, sStart, sNrHosts] =>
      let s := s.xlLookupHost sHost
      let (j, s) := s.xlLookupJob sJob
      let s := s.setHostJob sHost j.jRef
      let s := if j.jLinked then s
        else s.initJob sJob owner title (strtod sStart) (strtoulAuto sNrHosts)
      s.listMove j.jRef c
  | _ => s

/-- The list of the cluster becomes the `tmp_list`. -/
def XlState.splice {D : Type*} (s : XlState D) (c : CString) : XlState D :=
  { s with
    cJobList := update s.cJobList c []
    tmpList := s.cJobList c }

/-- What is left on the `tmp_list` is freed. -/
def XlState.sweep {D : Type*} (s : XlState D) : XlState D :=
  s.tmpList.foldl XlState.freeJob { s with tmpList := [] }

/-- `xl_clus_cb` with the reply of the master. -/
def xlClusCb (s : XlState D) (c : CString) (reply : Option (List CString)) : XlState D :=
  (curlXGetIter reply (xlClusMsgCb strtod c) (s.splice c)).sweep

/-- A poll of a cluster. -/
structure Poll where
  clus : CString
  reply : Option (List CString)

def XlState.poll (s : XlState D) (p : Poll) : XlState D :=
  xlClusCb strtod s p.clus p.reply

def XlState.run (s : XlState D) (polls : List Poll) : XlState D :=
  polls.foldl (XlState.poll strtod) s

end Poll

/-! ## Readers -/

/-- A `struct xl_k`, as far as `k_get_job` reads it. -/
structure XlK where
  kX : Fin 2 → CString
  kType : Fin 2 → XType

namespace XlState

variable {D : Type*} (s : XlState D)

def kGetJob (k : XlK) : Option JobRef :=
  match k.kType 0 with
  | .host => (s.findHost (k.kX 0)).bind XlHost.hJob
  | .job => (s.findJob (k.kX 0)).map XlJob.jRef
  | _ => none

/-- What is at the address, `none` when it has been freed. -/
def job (j : JobRef) : Option (XlJob D) :=
  s.xlJob.toList.find? fun job => job.jRef = j

/-- `c_get_nr_hosts`: `none` when there is no job, and `some none` when the job
that it reads has been freed. -/
def cGetNrHosts (k : XlK) : Option (Option ℕ) :=
  (s.kGetJob k).map fun j => (s.job j).map XlJob.jNrHosts

end XlState

end Xltop.Client
