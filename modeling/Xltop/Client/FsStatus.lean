import Mathlib.Data.UInt
import Xltop.Client.Mirror
import Xltop.Core.Split
import Xltop.Status.ServStatus

/-!
# The status of a filesystem

The client adds up what the servers of a filesystem report, line by line: how
many metadata and object servers there are with how many targets, and the
greatest load and number of tasks of each kind.
-/

namespace Xltop.Client

open Xltop.Status
open Xltop.Text

/-- The fields of a `struct xl_fs` that `xl_fs_cb` fills in. -/
structure XlFsTotals (D : Type*) where
  fMdsLoad : Fin 3 → D
  fOssLoad : Fin 3 → D
  fNrMds : UInt64
  fNrMdt : UInt64
  fMaxMdsTask : UInt64
  fNrOss : UInt64
  fNrOst : UInt64
  fMaxOssTask : UInt64
  fNrNid : UInt64

namespace XlFsTotals

variable {D : Type*} [LinearOrder D]

/-- `xl_fs_msg_cb` behind `sscanf`. -/
def add (f : XlFsTotals D) (ss : ServStatus D) : XlFsTotals D :=
  let f :=
    if 0 < ss.ssNrMdt then
      { f with
        fMdsLoad := fun i => max (f.fMdsLoad i) (ss.ssLoad i)
        fNrMds := f.fNrMds + 1
        fMaxMdsTask := max f.fMaxMdsTask ss.ssNrTask }
    else if 0 < ss.ssNrOst then
      { f with
        fOssLoad := fun i => max (f.fOssLoad i) (ss.ssLoad i)
        fNrOss := f.fNrOss + 1
        fMaxOssTask := max f.fMaxOssTask ss.ssNrTask }
    else f
  { f with
    fNrMdt := f.fNrMdt + ss.ssNrMdt
    fNrOst := f.fNrOst + ss.ssNrOst
    fNrNid := max f.fNrNid ss.ssNrNid }

/-- What `xl_fs_cb` starts with. -/
def zero (D : Type*) [Zero D] : XlFsTotals D :=
  ⟨fun _ => 0, fun _ => 0, 0, 0, 0, 0, 0, 0, 0⟩

end XlFsTotals

section Poll

variable {D : Type*} [LinearOrder D] (strtod : CString → D)

def xlFsMsgCb (f : XlFsTotals D) (msg : CString) : XlFsTotals D :=
  match split 1 (some msg) with
  | ([_], some msg) =>
      match scnServStatus strtod msg with
      | some ss => f.add ss
      | none => f
  | _ => f

/-- `xl_fs_cb` with the reply of the master. -/
def xlFsCb [Zero D] (reply : Option (List CString)) : XlFsTotals D :=
  curlXGetIter reply (xlFsMsgCb strtod) (.zero D)

end Poll

/-! ## Totals -/

section Totals

variable {D : Type*} [LinearOrder D] [Zero D]

/-- The servers with metadata targets. -/
def mdsOf (statuses : List (ServStatus D)) : List (ServStatus D) :=
  statuses.filter fun ss => 0 < ss.ssNrMdt

/-- The other servers with object targets. -/
def ossOf (statuses : List (ServStatus D)) : List (ServStatus D) :=
  statuses.filter fun ss => ss.ssNrMdt = 0 ∧ 0 < ss.ssNrOst

/-- The greatest of some values, and at least 0. -/
def greatest {A : Type*} [Max A] [Zero A] (values : List A) : A :=
  values.foldl max 0

/-- What a client should show of some servers. -/
def fsTotals (statuses : List (ServStatus D)) : XlFsTotals D where
  fMdsLoad i := greatest ((mdsOf statuses).map fun ss => ss.ssLoad i)
  fOssLoad i := greatest ((ossOf statuses).map fun ss => ss.ssLoad i)
  fNrMds := UInt64.ofNat (mdsOf statuses).length
  fNrMdt := (statuses.map ServStatus.ssNrMdt).sum
  fMaxMdsTask := greatest ((mdsOf statuses).map ServStatus.ssNrTask)
  fNrOss := UInt64.ofNat (ossOf statuses).length
  fNrOst := (statuses.map ServStatus.ssNrOst).sum
  fMaxOssTask := greatest ((ossOf statuses).map ServStatus.ssNrTask)
  fNrNid := greatest (statuses.map ServStatus.ssNrNid)

theorem greatest_concat {A : Type*} [Max A] [Zero A] (values : List A) (a : A) :
    greatest (values ++ [a]) = max (greatest values) a :=
  List.foldl_concat ..

theorem ofNat_length_concat {A : Type*} (l : List A) (a : A) :
    UInt64.ofNat (l ++ [a]).length = UInt64.ofNat l.length + 1 := by
  rw [List.length_append, List.length_singleton, UInt64.ofNat_add]
  rfl

omit [LinearOrder D] [Zero D] in
theorem mdsOf_concat (statuses : List (ServStatus D)) (ss : ServStatus D) :
    mdsOf (statuses ++ [ss]) = mdsOf statuses ++ if 0 < ss.ssNrMdt then [ss] else [] := by
  rw [mdsOf, mdsOf, List.filter_append, List.filter_singleton, Bool.cond_decide]

omit [LinearOrder D] [Zero D] in
theorem ossOf_concat (statuses : List (ServStatus D)) (ss : ServStatus D) :
    ossOf (statuses ++ [ss]) = ossOf statuses ++
      if ss.ssNrMdt = 0 ∧ 0 < ss.ssNrOst then [ss] else [] := by
  rw [ossOf, ossOf, List.filter_append, List.filter_singleton, Bool.cond_decide]

theorem fsTotals_concat (statuses : List (ServStatus D)) (ss : ServStatus D) :
    fsTotals (statuses ++ [ss]) = (fsTotals statuses).add ss := by
  have hkind : 0 < ss.ssNrMdt ∨ ss.ssNrMdt = 0 := by
    rcases Nat.eq_zero_or_pos ss.ssNrMdt.toNat with h | h
    · exact .inr (UInt64.toNat_inj.1 h)
    · exact .inl (UInt64.lt_iff_toNat_lt.2 h)
  simp only [fsTotals, XlFsTotals.add, mdsOf_concat, ossOf_concat, List.map_append,
    List.map_singleton, List.sum_append, List.sum_singleton, greatest_concat]
  rcases hkind with hmdt | hmdt
  · have hne : ¬ (ss.ssNrMdt = 0 ∧ 0 < ss.ssNrOst) := fun h => absurd (h.1 ▸ hmdt) (by decide)
    simp only [if_pos hmdt, if_neg hne, List.append_nil, List.map_nil, List.map_singleton,
      greatest_concat, ofNat_length_concat]
  · have hmdt' : ¬ 0 < ss.ssNrMdt := by
      rw [hmdt]
      decide
    by_cases host : 0 < ss.ssNrOst
    · simp only [if_neg hmdt', if_pos host, if_pos (And.intro hmdt host), List.append_nil,
        List.map_nil, List.map_singleton, greatest_concat, ofNat_length_concat]
    · have hne : ¬ (ss.ssNrMdt = 0 ∧ 0 < ss.ssNrOst) := fun h => host h.2
      simp only [if_neg hmdt', if_neg host, if_neg hne, List.append_nil, List.map_nil]

/-- The lines of a reply, one by one, give the totals. -/
theorem foldl_add (statuses : List (ServStatus D)) :
    statuses.foldl XlFsTotals.add (.zero D) = fsTotals statuses := by
  induction statuses using List.reverseRecOn with
  | nil => rfl
  | append_singleton statuses ss ih => rw [List.foldl_concat, ih, fsTotals_concat]

end Totals

/-! ## The lines of the master -/

variable {D R : Type*} [LinearOrder D]

/-- A line of `fs_status_get_cb`, without the newline. -/
def fsStatusLine (printf0 printf2 : R → CString) (name : CString) (ss : ServStatus R) : CString :=
  name ++ 32 :: ss.pri printf0 printf2

/-- A line is read as the status that was printed. -/
theorem xlFsMsgCb_line (strtod : CString → D) {printf0 printf2 : R → CString}
    (h : Printf printf0 printf2) {name : CString} (hname : IsWord name) (ss : ServStatus R)
    (f : XlFsTotals D) :
    xlFsMsgCb strtod f (fsStatusLine printf0 printf2 name ss) =
      f.add (ss.received strtod printf0 printf2) := by
  have hcut : wsep (some (fsStatusLine printf0 printf2 name ss)) =
      (some name, some (ss.pri printf0 printf2)) :=
    strsepNe_append (List.forall_mem_nil _) hname.ne_nil hname.space
      fun c hc => Option.some.inj hc ▸ rfl
  have hscan := scnServStatus_pri strtod h ss ends_nil
  rw [List.append_nil] at hscan
  rw [xlFsMsgCb, split_of_word hcut]
  simp only [split, hscan]

/-- What the client shows of a filesystem is the totals of the statuses that the
master has printed. -/
theorem xlFsCb_lines [Zero D] (strtod : CString → D) {printf0 printf2 : R → CString}
    (h : Printf printf0 printf2) (servs : List (CString × ServStatus R))
    (hservs : ∀ serv ∈ servs, IsWord serv.1) :
    xlFsCb strtod (some (servs.map fun serv => fsStatusLine printf0 printf2 serv.1 serv.2)) =
      fsTotals (servs.map fun serv => serv.2.received strtod printf0 printf2) := by
  rw [← foldl_add, List.foldl_map, xlFsCb, curlXGetIter, Option.getD_some, List.foldl_map]
  exact List.foldl_ext _ _ _ fun f serv hserv => xlFsMsgCb_line strtod h (hservs serv hserv) _ f

end Xltop.Client
