import Xltop.Core.Hash
import Xltop.Core.NBuf
import Xltop.Rate.KNode

/-!
# The collector on a server

`servd` reads the counters of every export of every Lustre target in rounds.
For each target it keeps the last reading of each nid, and for each nid it adds
up what the nid moved since the last readings.  A round prints these sums and
drops the targets and the nids it has not seen.

What a round finds in `/proc` is its input: opening and reading may fail for
any directory and any file.  Allocation does not fail, numbers are exact, and
the messages about single nids are left out.
-/

namespace Xltop.Servd

open Function
open Xltop.Text
open Xltop.Hash
open Xltop.Buffer
open Xltop.Rate

/-! ## Reading the counters of an export -/

/-- `STAT_WR_BYTES` -/
def statWrBytes : Fin nrStats := ⟨0, by decide⟩

/-- `STAT_RD_BYTES` -/
def statRdBytes : Fin nrStats := ⟨1, by decide⟩

/-- `STAT_NR_REQS` -/
def statNrReqs : Fin nrStats := ⟨2, by decide⟩

/-- `LXT_STATS_BUF_SIZE` -/
abbrev lxtStatsBufSize : ℕ := 4096

/-- `strtolc` -/
def strtolc (s : CString) : ℤ := strtol s

/-- The body of the loop of `nid_stats_read`: counter, number of requests, an
ignored word, unit, minimum, maximum and sum. -/
def statsMsg (stats : Stats ℤ) (msg : CString) : Stats ℤ :=
  match (split 7 (some msg)).1 with
  | ctr :: req :: _ :: unit :: rest =>
      if ctr = lit "ping" then stats
      else
        let stats := if unit = lit "[reqs]" then
            update stats statNrReqs (stats statNrReqs + strtolc req)
          else stats
        match rest with
        | [_, _, sum] =>
            if unit = lit "[bytes]" then
              if ctr = lit "write_bytes" then
                update stats statWrBytes (stats statWrBytes + strtolc sum)
              else if ctr = lit "read_bytes" then
                update stats statRdBytes (stats statRdBytes + strtolc sum)
              else stats
            else stats
        | _ => stats
  | _ => stats

/-- `nid_stats_read` of a file with the given bytes and what `read` does to it,
or of a file that cannot be opened.  It passes `&err` where `n_buf_fill` expects
`eof`, and the other way round. -/
def nidStatsRead (file : Option (List Byte × Rc)) : Option (Stats ℤ) :=
  match file with
  | none => none
  | some (bytes, rc) =>
      let filled := nBufFill (nBufInit (fun _ => 0) lxtStatsBufSize) bytes rc
      if filled.eof then none
      else some ((nBufMsgs filled.nb).foldl (fun stats msg => statsMsg stats (cstr msg)) 0)

/-! ## The tables -/

/-- A `struct nid_stats`. -/
structure NidStats (T : Type*) where
  nsStats : Stats ℤ
  nsTime : T
  nsNid : CString

abbrev NidTable (T : Type*) := HashTable (NidStats T)

/-- A `struct lxt`; `lType` is a field of one bit. -/
structure Lxt (T : Type*) where
  lHashTable : NidTable T
  lType : ℕ
  lName : CString

abbrev lxtTypeMds : ℕ := 0
abbrev lxtTypeMdt : ℕ := 1
abbrev lxtTypeOst : ℕ := 2

/-- The sums by nid: `nid_hash_table` and `ss_nr_nid`. -/
structure Sums (T : Type*) where
  nidHashTable : NidTable T
  ssNrNid : ℤ

/-- The globals of `servd`; the two lists are of targets, by name. -/
structure Collector (T : Type*) extends Sums T where
  nrNidHint : UInt64
  lxtHashTable : HashTable (Lxt T)
  lxtList : List CString
  tmpList : List CString
  ssNrMdt : ℤ
  ssNrOst : ℤ

/-- After the two tables have been initialised in `main`. -/
def servdInit (T : Type*) (nrNidHint : UInt64) : Collector T where
  nidHashTable := hashTableInit nrNidHint
  ssNrNid := 0
  nrNidHint := nrNidHint
  lxtHashTable := hashTableInit 16 -- NR_LXT_HINT
  lxtList := []
  tmpList := []
  ssNrMdt := 0
  ssNrOst := 0

/-! ## What a round finds -/

/-- An entry of a directory of exports: `d_name`, whether `d_type` is `DT_DIR`,
and the file `stats` in it. -/
structure Export where
  dName : CString
  isDir : Bool
  stats : Option (List Byte × Rc)

/-- An entry of a top directory; the directory of its exports may be out of
reach. -/
structure Target where
  dName : CString
  isDir : Bool
  exports : Option (List Export)

/-- A directory entry that is looked at. -/
def listed (isDir : Bool) (dName : CString) : Bool :=
  isDir && dName.head? != some 46

/-- A round at the time `now`; a top directory may fail to open. -/
structure Round (T : Type*) where
  now : T
  mds : Option (List Target)
  mdt : Option (List Target)
  obdfilter : Option (List Target)

/-! ## Collecting -/

section Collect

variable {T : Type*} [Zero T] [DecidableEq T]

omit [Zero T] [DecidableEq T] in
def nidFind (t : NidTable T) (nid : CString) : Option (NidStats T) :=
  t.lookup NidStats.nsNid strHash nid

omit [DecidableEq T] in
/-- `nid_stats_lookup`: the entry, all zero if it is new, and the table. -/
def nidStatsLookup (t : NidTable T) (nid : CString) : NidStats T × NidTable T :=
  match nidFind t nid with
  | some ns => (ns, t)
  | none => (⟨0, 0, nid⟩, t.addHead (strHash nid) ⟨0, 0, nid⟩)

omit [Zero T] [DecidableEq T] in
/-- Writes through the pointer to the entry of `nid`. -/
def nidStatsSet (t : NidTable T) (nid : CString) (stats : Stats ℤ) (time : T) :
    NidTable T :=
  t.modify NidStats.nsNid strHash nid fun ns => { ns with nsStats := stats, nsTime := time }

/-- The part of `lxt_collect_nid` that adds the difference of two readings to
the sum of a nid. -/
def addDelta (n : Sums T) (nid : CString) (delta : Stats ℤ) (now : T) : Sums T :=
  let (ns, t) := nidStatsLookup n.nidHashTable nid
  let nr := if ns.nsTime = 0 then n.ssNrNid + 1 else n.ssNrNid
  let stats := if ns.nsTime ≠ now then 0 else ns.nsStats
  { nidHashTable := nidStatsSet t nid (stats + delta) now, ssNrNid := nr }

def lxtCollectNid (now : T) (st : Lxt T × Sums T) (de : Export) : Lxt T × Sums T :=
  let (l, n) := st
  match nidStatsRead de.stats with
  | none => (l, n)
  | some stats =>
      let (ts, t) := nidStatsLookup l.lHashTable de.dName
      let n := if ts.nsTime = 0 then n
        else addDelta n de.dName (stats - ts.nsStats) now
      ({ l with lHashTable := nidStatsSet t de.dName stats now }, n)

/-- `lxt_collect`, and whether it returns 0. -/
def lxtCollect (now : T) (st : Lxt T × Sums T) (exports : Option (List Export)) :
    (Lxt T × Sums T) × Bool :=
  match exports with
  | none => (st, false)
  | some exports =>
      ((exports.filter fun de => listed de.isDir de.dName).foldl (lxtCollectNid now) st, true)

omit [Zero T] [DecidableEq T] in
def lxtFind (s : Collector T) (name : CString) : Option (Lxt T) :=
  s.lxtHashTable.lookup Lxt.lName strHash name

omit [Zero T] [DecidableEq T] in
/-- The update of `ss_nr_mdt` or `ss_nr_ost`, by the type of the target. -/
def lxtCount (s : Collector T) (lType : ℕ) (change : ℤ) : Collector T :=
  if lType = lxtTypeMdt then { s with ssNrMdt := s.ssNrMdt + change }
  else { s with ssNrOst := s.ssNrOst + change }

omit [Zero T] [DecidableEq T] in
/-- The target that `lxt_lookup` creates. -/
def lxtNew (s : Collector T) (name : CString) (type : ℕ) : Lxt T where
  lHashTable := hashTableInit (max (UInt64.ofNat s.ssNrNid.toNat) s.nrNidHint)
  lType := (if type = lxtTypeMds then lxtTypeMdt else type) % 2
  lName := name

omit [Zero T] [DecidableEq T] in
/-- `lxt_lookup`; a new target goes to the head of `lxt_list`. -/
def lxtLookup (s : Collector T) (name : CString) (type : ℕ) : Lxt T × Collector T :=
  match lxtFind s name with
  | some l => (l, s)
  | none =>
      let l := lxtNew s name type
      let s := { s with
        lxtHashTable := s.lxtHashTable.addHead (strHash name) l
        lxtList := name :: s.lxtList }
      (l, lxtCount s l.lType 1)

omit [Zero T] [DecidableEq T] in
/-- `list_move(&l->l_link, &lxt_list)` -/
def lxtMove (s : Collector T) (name : CString) : Collector T :=
  { s with
    lxtList := name :: s.lxtList.erase name
    tmpList := s.tmpList.erase name }

/-- The body of the inner loop of `collect_all`. -/
def collectTarget (now : T) (s : Collector T) (visit : ℕ × Target) : Collector T :=
  let (type, de) := visit
  if listed de.isDir de.dName then
    let (l, s) := lxtLookup s de.dName type
    let ((l, n), ok) := lxtCollect now (l, s.toSums) de.exports
    let s := { s with
      toSums := n
      lxtHashTable := s.lxtHashTable.modify Lxt.lName strHash de.dName
        fun old => { old with lHashTable := l.lHashTable } }
    if ok then lxtMove s de.dName else s
  else s

omit [Zero T] [DecidableEq T] in
def lxtDelete (s : Collector T) (name : CString) : Collector T :=
  match lxtFind s name with
  | none => s
  | some l =>
      { lxtCount s l.lType (-1) with
        lxtHashTable := s.lxtHashTable.erase Lxt.lName strHash name
        lxtList := s.lxtList.erase name
        tmpList := s.tmpList.erase name }

omit [Zero T] [DecidableEq T] in
/-- The entries of the three top directories in order, with the index of their
directory. -/
def Round.visits (r : Round T) : List (ℕ × Target) :=
  [(lxtTypeMds, r.mds), (lxtTypeMdt, r.mdt), (lxtTypeOst, r.obdfilter)].flatMap
    fun (type, dir) => (dir.getD []).map fun de => (type, de)

def collectAll (s : Collector T) (r : Round T) : Collector T :=
  let s := { s with tmpList := s.lxtList, lxtList := [] }
  let s := r.visits.foldl (collectTarget r.now) s
  s.tmpList.foldl lxtDelete s

omit [Zero T] in
/-- `print_stats`: the nids and the numbers of its lines, in order. -/
def printStats (s : Collector T) (now : T) : List (CString × Stats ℤ) × Collector T :=
  let stale := fun ns : NidStats T => decide (ns.nsTime ≠ now)
  let entries := s.nidHashTable.toList
  (((entries.filter fun ns => !stale ns).filter fun ns => ns.nsStats ≠ 0).map fun ns =>
      (ns.nsNid, ns.nsStats),
    { s with
      nidHashTable := s.nidHashTable.remove stale
      ssNrNid := s.ssNrNid - (entries.filter stale).length })

/-- A line of `print_stats`. -/
def statsText (line : CString × Stats ℤ) : CString :=
  line.1 ++ lit " " ++ decimalInt (line.2 statWrBytes) ++ lit " " ++
    decimalInt (line.2 statRdBytes) ++ lit " " ++ decimalInt (line.2 statNrReqs) ++ lit "\n"

/-- The part of `clock_cb` before anything is sent. -/
def round (s : Collector T) (r : Round T) : List (CString × Stats ℤ) × Collector T :=
  printStats (collectAll s r) r.now

end Collect

end Xltop.Servd
