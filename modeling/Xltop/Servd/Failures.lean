import Xltop.Servd.Rounds

/-!
# Readings that fail

`nid_stats_read` passes `&err` where `n_buf_fill` expects `eof`, and `&eof`
where it expects `err`.  So a read error gives counters that are all zero, and
an empty file counts as an error.
-/

namespace Xltop.Servd

open Xltop.Text
open Xltop.Hash
open Xltop.Buffer
open Xltop.Rate

/-- `read` fails with an error other than `EAGAIN`. -/
def ReadFails (file : Option (List Byte × Rc)) : Prop :=
  ∃ bytes, file = some (bytes, .error)

/-- `read` finds the end of the file at once. -/
def ReadsEmpty (file : Option (List Byte × Rc)) : Prop :=
  ∃ n, 0 < n ∧ file = some ([], .ok n)

theorem nBufPullup_init (block : ℕ → Byte) (size : ℕ) :
    nBufPullup (nBufInit block size) = nBufInit block size :=
  if_neg (lt_irrefl 0)

/-- A read error leaves the buffer of `nid_stats_read` empty, and the variable
`err` zero. -/
theorem nidStatsRead_of_fails {file : Option (List Byte × Rc)} (h : ReadFails file) :
    nidStatsRead file = some 0 := by
  obtain ⟨bytes, rfl⟩ := h
  have hroom : (nBufInit (fun _ => 0) lxtStatsBufSize).nbEnd ≠
      (nBufInit (fun _ => 0) lxtStatsBufSize).nbSize := by decide
  have hfill : nBufFill (nBufInit (fun _ => 0) lxtStatsBufSize) bytes .error =
      ⟨nBufInit (fun _ => 0) lxtStatsBufSize, bytes, false, true⟩ := by
    rw [nBufFill.eq_def, nBufPullup_init]
    exact if_neg hroom
  have hmsgs : nBufMsgs (nBufInit (fun _ => 0) lxtStatsBufSize) = [] := by
    rw [nBufMsgs]
    rfl
  rw [nidStatsRead]
  simp only [hfill, hmsgs]
  rfl

/-- The end of the file at once sets the variable `err`. -/
theorem nidStatsRead_of_empty {file : Option (List Byte × Rc)} (h : ReadsEmpty file) :
    nidStatsRead file = none := by
  obtain ⟨n, hn, rfl⟩ := h
  have hroom : (nBufInit (fun _ => 0) lxtStatsBufSize).nbEnd ≠
      (nBufInit (fun _ => 0) lxtStatsBufSize).nbSize := by decide
  have heof : (nBufFill (nBufInit (fun _ => 0) lxtStatsBufSize) [] (.ok n)).eof = true := by
    rw [nBufFill.eq_def, nBufPullup_init]
    simp only [if_neg hroom, List.isEmpty_nil, Bool.and_true, decide_eq_true hn]
  rw [nidStatsRead]
  simp only [heof, if_true]

section Collect

variable {T : Type*} [Zero T] [DecidableEq T]

/-- A failed read changes nothing, and an empty file is a reading of zeros. -/
structure FailureKept (now : T) (st : Lxt T × Sums T) (de : Export) : Prop where
  read : ReadFails de.stats → nidStatsRead de.stats = none
  baseline : ReadFails de.stats →
    baseline (lxtCollectNid now st de).1.lHashTable de.dName =
      baseline st.1.lHashTable de.dName
  aggregate : ReadFails de.stats →
    nidFind (lxtCollectNid now st de).2.nidHashTable de.dName =
      nidFind st.2.nidHashTable de.dName
  empty : ReadsEmpty de.stats → nidStatsRead de.stats = some 0

/-- Whatever the tables hold, no failed read and no empty file is handled so. -/
theorem failure_kept_iff (now : T) (st : Lxt T × Sums T) (de : Export) :
    FailureKept now st de ↔ ¬ ReadFails de.stats ∧ ¬ ReadsEmpty de.stats := by
  constructor
  · intro h
    constructor
    · intro hfails
      have hread := h.read hfails
      rw [nidStatsRead_of_fails hfails] at hread
      cases hread
    · intro hempty
      have hread := h.empty hempty
      rw [nidStatsRead_of_empty hempty] at hread
      cases hread
  · rintro ⟨hfails, hempty⟩
    exact
      { read := fun h => absurd h hfails
        baseline := fun h => absurd h hfails
        aggregate := fun h => absurd h hfails
        empty := fun h => absurd h hempty }

/-- A failed read takes all that a nid ever moved back out of its sum, and the
next reading counts from zero. -/
theorem lxtCollectNid_of_fails {now : T} (hnow : now ≠ 0) {st : Lxt T × Sums T}
    (htable : BaselineOk st.1.lHashTable)
    (hsums : st.2.nidHashTable.Keyed NidStats.nsNid strHash) {de : Export}
    (hlisted : listed de.isDir de.dName) (hfails : ReadFails de.stats)
    {old : Stats ℤ} (hold : baseline st.1.lHashTable de.dName = some old) :
    baseline (lxtCollectNid now st de).1.lHashTable de.dName = some 0 ∧
      (lxtCollectNid now st de).2.sumAt now de.dName =
        st.2.sumAt now de.dName - old := by
  have hcollected := lxtCollectNid_spec hnow htable hsums hlisted
  have hreads : de.reads de.dName = [0] := by
    rw [Export.reads, if_pos ⟨hlisted, rfl⟩, nidStatsRead_of_fails hfails,
      Option.toList_some]
  constructor
  · rw [hcollected.baseline, hreads]
    rfl
  · rw [hcollected.sumAt, hreads, hold]
    simp [Telescoping.gain_cons, Telescoping.gain_nil, Telescoping.advance, sub_eq_add_neg]

end Collect

/-- A nid that has read 100 bytes so far, and cannot be read at second 2. -/
def failingExport : Export where
  dName := lit "n1"
  isDir := true
  stats := some ([], .error)

def workingExport : Export where
  dName := lit "n1"
  isDir := true
  stats := sampleFile (lit "100")

def readOnce : Lxt ℕ × Sums ℕ :=
  lxtCollectNid 1 (⟨hashTableInit 16, lxtTypeMdt, lit "MDT0"⟩, ⟨hashTableInit 16, 0⟩)
    workingExport

theorem readOnce_collected :
    Collected 1 workingExport.reads
      (⟨hashTableInit 16, lxtTypeMdt, lit "MDT0"⟩, ⟨hashTableInit 16, 0⟩) readOnce :=
  lxtCollectNid_spec (by decide) (baselineOk_init 16) (HashTable.keyed_init 16) (by decide)

/-- The 100 bytes are taken back, and the last reading is lost. -/
theorem failed_read_changes :
    ¬ FailureKept 2 readOnce failingExport ∧
      (baseline readOnce.1.lHashTable (lit "n1")).map (· statRdBytes) = some 100 ∧
      baseline (lxtCollectNid 2 readOnce failingExport).1.lHashTable (lit "n1") = some 0 ∧
      (lxtCollectNid 2 readOnce failingExport).2.sumAt 2 (lit "n1") statRdBytes = -100 := by
  have hfails : ReadFails failingExport.stats := ⟨[], rfl⟩
  obtain ⟨old, hold, hbytes⟩ : ∃ old, baseline readOnce.1.lHashTable (lit "n1") = some old ∧
      old statRdBytes = 100 := by
    apply Option.map_eq_some_iff.1
    decide +kernel
  have hsum : readOnce.2.sumAt 2 (lit "n1") = 0 := by
    decide +kernel
  have hnow : (2 : ℕ) ≠ 0 := by decide
  obtain ⟨hlost, htaken⟩ := lxtCollectNid_of_fails hnow readOnce_collected.table
    readOnce_collected.sums (by decide) hfails hold
  refine ⟨fun h => ?_, ?_, hlost, ?_⟩
  · have hread := h.read hfails
    rw [nidStatsRead_of_fails hfails] at hread
    cases hread
  · rw [hold, Option.map_some, hbytes]
  · calc
      (lxtCollectNid 2 readOnce failingExport).2.sumAt 2 (lit "n1") statRdBytes
          = (readOnce.2.sumAt 2 (lit "n1") - old) statRdBytes := congrFun htaken statRdBytes
      _ = -100 := by rw [hsum, zero_sub, Pi.neg_apply, hbytes]

end Xltop.Servd
