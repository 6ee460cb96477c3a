import Xltop.Http.Botz
import Xltop.Core.Hash
import Xltop.Core.Words
import Xltop.Library.Paths

/-!
# Entries of the HTTP server

The entries that a server serves, by path.  All are in one hash table, under
their name and the address of their parent; `botz_lookup` and `bx_lookup` cut a
path at its slashes and look up one component after the other.

An entry is named by the call of `malloc` that it comes from, and `block` says
what each call returns: an address, on which the chain of an entry depends, or
NULL.  The copies of paths do not fail.
-/

namespace Xltop.Http

open Function
open Xltop.Hash
open Xltop.Text

/-! ## Components -/

def isSlash (c : Byte) : Bool :=
  c == 47

def pathsep (s : Option CString) : Option CString × Option CString :=
  match strsepNe isSlash s with
  | (none, _) => (none, none)
  | (some [], _) => (none, none)
  | (some n, s) =>
      (some n, s.bind fun s =>
        match s.dropWhile isSlash with
        | [] => none
        | c :: rest => some (c :: rest))

theorem refSize_pathsep_lt {s n : CString} {rest : Option CString}
    (h : pathsep (some s) = (some n, rest)) : refSize rest < refSize (some s) := by
  have hlt := refSize_strsepNe_lt isSlash s
  rw [pathsep] at h
  split at h
  · cases h
  · cases h
  · next n' rest' _ hcut =>
      rw [hcut] at hlt
      obtain ⟨-, rfl⟩ := Prod.mk.inj h
      refine lt_of_le_of_lt ?_ hlt
      cases rest' with
      | none => exact Nat.zero_le _
      | some s' =>
          have hle := (List.dropWhile_sublist isSlash (l := s')).length_le
          rw [Option.bind_some]
          cases hdrop : s'.dropWhile isSlash with
          | nil => exact Nat.zero_le _
          | cons c tail =>
              rw [hdrop] at hle
              exact Nat.succ_le_succ hle

/-! ## Entries -/

/-- A `struct botz_entry *`: the number of its call of `malloc`, and `e_name`,
which never changes. -/
structure BotzEntry where
  malloc : ℕ
  eName : CString
  deriving DecidableEq, Repr

/-- The part of a `struct botz_listen` that look-up uses, and the fields of its
entries; `eHashed` is the negation of `hlist_unhashed`.  The operations `O` and
the data `D` are the application's. -/
structure BotzListen (O D : Type*) where
  mallocs : ℕ
  eHashed : BotzEntry → Bool
  eParent : BotzEntry → Option BotzEntry
  eOps : BotzEntry → Option O
  eData : BotzEntry → Option D
  blEntryTable : HashTable BotzEntry
  blRootEntry : BotzEntry

/-- What does not come from the server: what `malloc` returns, and the
operations that an entry without any gets. -/
structure EntryEnv (O : Type*) where
  block : ℕ → Option UInt64
  botzDefaultOps : O

variable {O D : Type*} (env : EntryEnv O)

/-- The chain of an entry, from its name and its parent. -/
def entryHash (tShift : ℕ) (key : CString × Option BotzEntry) : UInt64 :=
  let address := (key.2.bind fun e => env.block e.malloc).getD 0
  pairHash (strHash key.1) (address / 8) tShift

namespace BotzListen

variable (bl : BotzListen O D)

def key (e : BotzEntry) : CString × Option BotzEntry :=
  (e.eName, bl.eParent e)

def btAddEntry (e : BotzEntry) : BotzListen O D :=
  { bl with
    eHashed := update bl.eHashed e true
    blEntryTable :=
      bl.blEntryTable.addHead (entryHash env bl.blEntryTable.tShift (bl.key e)) e }

def botzNewEntry (name : CString) (ops : Option O) (data : Option D) :
    Option BotzEntry × BotzListen O D :=
  match env.block bl.mallocs with
  | none => (none, { bl with mallocs := bl.mallocs + 1 })
  | some _ =>
      let e : BotzEntry := ⟨bl.mallocs, name⟩
      (some e,
        { bl with
          mallocs := bl.mallocs + 1
          eHashed := update bl.eHashed e false
          eParent := update bl.eParent e none
          eOps := update bl.eOps e (some (ops.getD env.botzDefaultOps))
          eData := update bl.eData e data })

end BotzListen

/-- `botz_listen_init`, `none` when it returns -1. -/
def botzListenInit (nrEntries : UInt64) : Option (BotzListen O D) :=
  let bl : BotzListen O D :=
    { mallocs := 0
      eHashed := fun _ => false
      eParent := fun _ => none
      eOps := fun _ => none
      eData := fun _ => none
      blEntryTable := hashTableInit nrEntries
      blRootEntry := ⟨0, []⟩ }
  match bl.botzNewEntry env [] none none with
  | (none, _) => none
  | (some e, bl) =>
      let bl := { bl with blRootEntry := e, eParent := update bl.eParent e (some e) }
      some (bl.btAddEntry env e)

/-! ## Look-up -/

/-- A `struct botz_lookup` behind `bp_walk` when it returns 1; then neither
`p_entry` nor `p_name` is NULL. -/
structure BotzLookup where
  pEntry : BotzEntry
  pName : CString
  pRest : Option CString

/-- What `bp_walk` returns: 0, with the `p_entry` at which it stops, or 1. -/
inductive Walked where
  | stopped (pEntry : Option BotzEntry)
  | component (p : BotzLookup)

namespace BotzListen

variable (bl : BotzListen O D)

def bpWalk (pEntry : Option BotzEntry) (pRest : Option CString) : Walked :=
  match pEntry, pRest with
  | none, _ => .stopped none
  | some e, none => .stopped (some e)
  | some e, some s =>
      match _hcut : pathsep (some s) with
      | (none, _) => .stopped (some e)
      | (some name, rest) =>
          if name = lit "." then bpWalk (some e) rest
          else if name = lit ".." then bpWalk (bl.eParent e) rest
          else .component ⟨e, name, rest⟩
termination_by refSize pRest
decreasing_by all_goals exact refSize_pathsep_lt ‹_›

theorem refSize_bpWalk_lt {pEntry : Option BotzEntry} {pRest : Option CString}
    {p : BotzLookup} (h : bl.bpWalk pEntry pRest = .component p) :
    refSize p.pRest < refSize pRest := by
  fun_induction bpWalk bl pEntry pRest with
  | case1 => cases h
  | case2 => cases h
  | case3 => cases h
  | case4 e s rest hcut ih => exact (ih h).trans (refSize_pathsep_lt hcut)
  | case5 e s rest hcut _ ih => exact (ih h).trans (refSize_pathsep_lt hcut)
  | case6 e s name rest hcut =>
      cases h
      exact refSize_pathsep_lt hcut

def btLookup1 (pName : CString) (pEntry : BotzEntry) : Option BotzEntry :=
  bl.blEntryTable.lookup bl.key (entryHash env bl.blEntryTable.tShift)
    (pName, some pEntry)

/-- What both loops do with the entry of a component. -/
def link (e : Option BotzEntry) (pEntry : BotzEntry) : BotzListen O D :=
  match e with
  | none => bl
  | some e =>
      let bl := if bl.eParent e = none then
          { bl with eParent := update bl.eParent e (some pEntry) }
        else bl
      if bl.eHashed e then bl else bl.btAddEntry env e

/-- The loop of `botz_lookup`. -/
def botzLookupLoop (lCreate : Bool) (bl : BotzListen O D) (pEntry : Option BotzEntry)
    (pRest : Option CString) : Option BotzEntry × BotzListen O D :=
  match _hwalk : bl.bpWalk pEntry pRest with
  | .stopped pEntry => (pEntry, bl)
  | .component p =>
      let (e, bl) :=
        match bl.btLookup1 env p.pName p.pEntry with
        | some e => (some e, bl)
        | none => if lCreate then bl.botzNewEntry env p.pName none none else (none, bl)
      botzLookupLoop lCreate (bl.link env e p.pEntry) e p.pRest
termination_by refSize pRest
decreasing_by exact refSize_bpWalk_lt _ _hwalk

def botzLookup (path : Option CString) (lCreate : Bool) :
    Option BotzEntry × BotzListen O D :=
  match path with
  | none => (none, bl)
  | some s => botzLookupLoop env lCreate bl (some bl.blRootEntry) (some s)

/-- `botz_add`: whether it returns 0, and the entries then. -/
def botzAdd (path : Option CString) (ops : Option O) (data : Option D) :
    Bool × BotzListen O D :=
  match bl.botzLookup env path true with
  | (none, bl) => (false, bl)
  | (some e, bl) =>
      (true, { bl with eOps := update bl.eOps e ops, eData := update bl.eData e data })

end BotzListen

/-! ## Look-up for a request -/

/-- What an `o_lookup` returns: NULL, `BOTZ_RESPONSE_READY` or an entry. -/
inductive OLookup where
  | null
  | responseReady
  | entry (e : BotzEntry)

/-- The `o_lookup` of each of the application's operations, `none` for NULL: any
effect on the entries, the look-up and the response, except that it does not
lengthen what is left of the path. -/
structure EntryApp (O D : Type*) where
  oLookup : O → Option (BotzListen O D → BotzLookup → Request → Response →
    OLookup × BotzListen O D × BotzLookup × Response)
  pRest : ∀ {ops f}, oLookup ops = some f → ∀ bl p q r,
    refSize (f bl p q r).2.2.1.pRest ≤ refSize p.pRest

namespace BotzListen

/-- The loop of `bx_lookup`, `none` when it reads an `e_ops` that is NULL. -/
def bxLookupLoop (app : EntryApp O D) (bl : BotzListen O D) (x : BotzX)
    (pEntry : Option BotzEntry) (pRest : Option CString) :
    Option (Option BotzEntry × BotzListen O D × BotzX) :=
  match _hwalk : bl.bpWalk pEntry pRest with
  | .stopped pEntry => some (pEntry, bl, x)
  | .component p =>
      match bl.btLookup1 env p.pName p.pEntry with
      | some e => bxLookupLoop app (bl.link env (some e) p.pEntry) x (some e) p.pRest
      | none =>
          match bl.eOps p.pEntry with
          | none => none
          | some ops =>
              match _hops : app.oLookup ops with
              | none =>
                  let x := { x with xR := { x.xR with rStatus := 404 } }
                  bxLookupLoop app bl x none p.pRest
              | some f =>
                  let found := f bl p x.xQ x.xR
                  let p' := found.2.2.1
                  let bl := found.2.1
                  let x := { x with xR := found.2.2.2 }
                  match found.1 with
                  | .null =>
                      let x := { x with xR := { x.xR with rStatus := 404 } }
                      bxLookupLoop app bl x none p'.pRest
                  | .responseReady =>
                      bxLookupLoop app bl { x with xRReady := true } none p'.pRest
                  | .entry e =>
                      bxLookupLoop app (bl.link env (some e) p'.pEntry) x (some e) p'.pRest
termination_by refSize pRest
decreasing_by
  · exact refSize_bpWalk_lt _ _hwalk
  · exact refSize_bpWalk_lt _ _hwalk
  all_goals exact (app.pRest _hops _ _ _ _).trans_lt (refSize_bpWalk_lt _ _hwalk)

def bxLookup (app : EntryApp O D) (bl : BotzListen O D) (x : BotzX) :
    Option (Option BotzEntry × BotzListen O D × BotzX) :=
  match x.xQ.qPath with
  | none => some (none, bl, bxError x (-1))
  | some s => bl.bxLookupLoop env app x (some bl.blRootEntry) (some s)

end BotzListen

end Xltop.Http
