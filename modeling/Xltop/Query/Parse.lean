import Xltop.Core.Text
import Xltop.Library.Memory
import Mathlib.Logic.Function.Basic

/-!
# Queries

A client puts a query together from fields and values, escaping each byte that
might mean something in a query.  The master cuts the query into pieces and
decodes them, all in the block of memory that the query lies in; a string field
is a pointer into this block.

The block has `size` bytes, the last of which is the NUL at the end of the query,
and what is after them is not to be read.
-/

namespace Xltop.Query

open Function
open Xltop.Memory
open Xltop.Text

/-! ## Building a query -/

/-- `isalnum` in the C locale. -/
def isAlnum (c : Byte) : Bool :=
  isDigit c || (65 ≤ c && c ≤ 90) || (97 ≤ c && c ≤ 122)

/-- The bytes that `query_escape` leaves as they are. -/
def isPlain (c : Byte) : Bool :=
  isAlnum c || c == 46 || c == 45 || c == 126 || c == 95

/-- A digit of `%02hhX`. -/
def hexDigit (n : ℕ) : Byte :=
  if n < 10 then UInt8.ofNat (48 + n) else UInt8.ofNat (55 + n)

def escapeByte (c : Byte) : CString :=
  if isPlain c then [c] else [37, hexDigit (c.toNat / 16), hexDigit (c.toNat % 16)]

def queryEscape (s : CString) : CString :=
  s.flatMap escapeByte

/-- `query_add`; the query is NULL at first. -/
def queryAdd (s : Option CString) (f v : CString) : Option CString :=
  match s with
  | none => some (queryEscape f ++ [61] ++ queryEscape v)
  | some s0 => some (s0 ++ [38] ++ queryEscape f ++ [61] ++ queryEscape v)

/-- The query of some fields and values, added in this order. -/
def buildQuery (pairs : List (CString × CString)) : Option CString :=
  pairs.foldl (fun s pair => queryAdd s pair.1 pair.2) none

/-! ## Reading a block -/

/-- `strdup`: the block that a copy of the string is in. -/
def strdup (s : CString) : ℕ → Byte := fun i => s.getD i 0

/-- The first NUL or delimiter from `i` on. -/
def scan (size : ℕ) (mem : ℕ → Byte) (delim : Byte → Bool) (i : ℕ) : Option ℕ :=
  if i < size then
    if mem i = 0 ∨ delim (mem i) then some i else scan size mem delim (i + 1)
  else none
termination_by size - i

/-- The string that a pointer into the block points to. -/
def stringAt (size : ℕ) (mem : ℕ → Byte) (i : ℕ) : Option CString :=
  (scan size mem (fun _ => false) i).map fun e => slice mem i (e - i)

/-- `strsep` of a pointer into the block: where it points to afterwards. -/
def strsepAt (size : ℕ) (mem : ℕ → Byte) (delim : Byte → Bool) (s : ℕ) :
    Option (Option ℕ × (ℕ → Byte)) :=
  (scan size mem delim s).map fun e =>
    if mem e = 0 then (none, mem) else (some (e + 1), update mem e 0)

/-- `isxdigit` in the C locale. -/
def isXDigit (c : Byte) : Bool :=
  isDigit c || (65 ≤ c && c ≤ 70) || (97 ≤ c && c ≤ 102)

/-- `strtoul` of two digits in base 16, cut to a `char`. -/
def hexValue (c1 c2 : Byte) : Byte :=
  UInt8.ofNat (digitValue c1 * 16 + digitValue c2)

/-- The `do` loop of `q_decode`, and `*p = 0` after it; it returns whether `*s`
is NUL. -/
def qDecodeLoop (size : ℕ) (mem : ℕ → Byte) (p s : ℕ) : Option ((ℕ → Byte) × Bool) :=
  if s < size then
    let mem := if mem s = 43 then update mem s 32 else mem
    if mem s ≠ 37 then
      let mem := update mem p (mem s)
      if s + 1 < size then
        if mem (s + 1) ≠ 0 then qDecodeLoop size mem (p + 1) (s + 1)
        else some (update mem (p + 1) 0, true)
      else none
    else if s + 1 < size then
      if isXDigit (mem (s + 1)) then
        if s + 2 < size then
          if isXDigit (mem (s + 2)) then
            let mem := update mem p (hexValue (mem (s + 1)) (mem (s + 2)))
            if s + 3 < size then
              if mem (s + 3) ≠ 0 then qDecodeLoop size mem (p + 1) (s + 3)
              else some (update mem (p + 1) 0, true)
            else none
          else some (update mem p 0, decide (p = s))
        else none
      else some (update mem p 0, decide (p = s))
    else none
  else none
termination_by size - s

def qDecode (size : ℕ) (mem : ℕ → Byte) (s : ℕ) : Option ((ℕ → Byte) × Bool) :=
  qDecodeLoop size mem s s

/-! ## Fields -/

/-- A `struct query`; its parser gets what is in the union, and the pointer to
the value with the string there. -/
structure Field (V : Type*) where
  qField : CString
  qU : V
  qParse : V → ℕ → CString → Option V
  qIsReq : Bool
  qIsSet : Bool

/-- What comes of parsing: a read past the end of the block, -1, or a result. -/
inductive Outcome (α : Type*) where
  | fault
  | error
  | ok (result : α)

def Outcome.bind {α β : Type*} : Outcome α → (α → Outcome β) → Outcome β
  | .ok a, f => f a
  | .error, _ => .error
  | .fault, _ => .fault

/-- What follows a reading that may be out of the block. -/
def Outcome.reading {α β : Type*} (o : Option α) (f : α → Outcome β) : Outcome β :=
  o.elim .fault f

section Parse

variable {V : Type*}

/-- The `for` loop that looks for a field, and the check of unknown fields after
it. -/
def setField (ignoreUnknown : Bool) (f : CString) (ptr : ℕ) (value : CString) :
    List (Field V) → Outcome (List (Field V))
  | [] => if ignoreUnknown then .ok [] else .error
  | q :: table =>
      if q.qField = f then
        match q.qParse q.qU ptr value with
        | none => .error
        | some u => .ok ({ q with qU := u, qIsSet := true } :: table)
      else
        (setField ignoreUnknown f ptr value table).bind fun table => .ok (q :: table)

/-- The memory and the fields. -/
structure Parsed (V : Type*) where
  mem : ℕ → Byte
  table : List (Field V)

/-- The body of the loop of `query_parse` after the first `strsep`. -/
def component (size : ℕ) (ignoreUnknown : Bool) (st : Parsed V) (f : ℕ) :
    Outcome (Parsed V) :=
  if st.mem f = 0 then .ok st
  else
    .reading (strsepAt size st.mem (· == 61) f) fun (v, mem) =>
      if mem f = 0 then .ok { st with mem := mem }
      else
        .reading (qDecode size mem f) fun (mem, _) =>
          .reading (v.or ((stringAt size mem f).map fun s => f + s.length)) fun v =>
            .reading (qDecode size mem v) fun (mem, _) =>
              .reading (stringAt size mem f) fun field =>
                .reading (stringAt size mem v) fun value =>
                  (setField ignoreUnknown field v value st.table).bind fun table =>
                    .ok ⟨mem, table⟩

theorem scan_bounds {size : ℕ} {mem : ℕ → Byte} {delim : Byte → Bool} {i e : ℕ}
    (h : scan size mem delim i = some e) : i ≤ e ∧ e < size := by
  fun_induction scan size mem delim i with
  | case1 i hlt hstop => exact ⟨(Option.some.inj h).le, Option.some.inj h ▸ hlt⟩
  | case2 i hlt hstop ih =>
      obtain ⟨hle, hsize⟩ := ih h
      exact ⟨by omega, hsize⟩
  | case3 i hlt => cases h

theorem strsepAt_lt {size : ℕ} {mem mem' : ℕ → Byte} {delim : Byte → Bool} {s s' : ℕ}
    (h : strsepAt size mem delim s = some (some s', mem')) : s < s' ∧ s < size := by
  rw [strsepAt, Option.map_eq_some_iff] at h
  obtain ⟨e, he, hstep⟩ := h
  obtain ⟨hle, hlt⟩ := scan_bounds he
  split at hstep
  · cases hstep
  · cases hstep
    exact ⟨by omega, by omega⟩

/-- The loop of `query_parse`. -/
def queryLoop (size : ℕ) (ignoreUnknown : Bool) (st : Parsed V) (s : ℕ) :
    Outcome (Parsed V) :=
  match _hsep : strsepAt size st.mem (fun c => c == 38 || c == 59) s with
  | none => .fault
  | some (none, mem) => component size ignoreUnknown { st with mem := mem } s
  | some (some next, mem) =>
      (component size ignoreUnknown { st with mem := mem } s).bind fun st =>
        queryLoop size ignoreUnknown st next
termination_by size - s
decreasing_by
  have hlt := strsepAt_lt _hsep
  omega

/-- `query_parse`, of NULL or of the string at the start of the block. -/
def queryParse (size : ℕ) (ignoreUnknown : Bool) (table : List (Field V))
    (s : Option (ℕ → Byte)) : Outcome (Parsed V) :=
  let parsed : Outcome (Parsed V) := match s with
    | none => .ok ⟨fun _ => 0, table⟩
    | some mem => queryLoop size ignoreUnknown ⟨mem, table⟩ 0
  parsed.bind fun st =>
    if st.table.any fun q => q.qIsReq && !q.qIsSet then .error else .ok st

end Parse

/-- `u_string`: what is there before, or a pointer into the query. -/
inductive UString where
  | initial (s : Option CString)
  | pointer (ptr : ℕ)

/-- `q_string_parse` -/
def qStringParse (_ : UString) (ptr : ℕ) (_ : CString) : Option UString :=
  some (.pointer ptr)

end Xltop.Query
