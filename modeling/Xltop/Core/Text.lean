import Mathlib.Data.List.Basic
import Mathlib.Algebra.Group.Int.Defs
import Mathlib.Algebra.Group.Nat.Defs
import Mathlib.Data.List.TakeWhile

/-!
# C strings

A `char *` is the list of bytes before its terminating NUL, and a `char **`
that a tokeniser moves along is an optional string, `none` for NULL.  The
tokenisers of `string1.h` cut the string in place; here they return the token
and the reference they leave behind.
-/

namespace Xltop.Text

abbrev Byte := UInt8

abbrev CString := List Byte

/-- A string literal of the source. -/
def lit (s : String) : CString :=
  s.toList.map fun c => UInt8.ofNat c.toNat

/-- What a string function sees of bytes that may contain a NUL. -/
def cstr (bytes : List Byte) : CString :=
  bytes.takeWhile (· != 0)

theorem cstr_of_nul {s : CString} (h : 0 ∉ s) : cstr s = s := by
  rw [cstr, List.takeWhile_eq_self_iff]
  intro c hc
  rw [bne_iff_ne]
  exact fun heq => h (heq ▸ hc)

/-- `isspace` in the C locale, and the delimiters of `wsep`. -/
def isSpace (c : Byte) : Bool :=
  c == 32 || (9 ≤ c && c ≤ 13)

def isDigit (c : Byte) : Bool :=
  48 ≤ c && c ≤ 57

def toLower (c : Byte) : Byte :=
  if 65 ≤ c && c ≤ 90 then c + 32 else c

/-- `strcasecmp(s, t) == 0`. -/
def strcaseEq (s t : CString) : Bool :=
  s.map toLower == t.map toLower

/-! ## Tokens -/

/-- `strsep(ref, delim)`: the bytes before the first delimiter, and what
follows it. -/
def strsep (delim : Byte → Bool) : Option CString → Option CString × Option CString
  | none => (none, none)
  | some s =>
      (some (s.takeWhile fun c => !delim c),
        match s.dropWhile fun c => !delim c with
        | [] => none
        | _ :: rest => some rest)

/-- Bytes left to cut, one more for the NUL. -/
def refSize : Option CString → ℕ
  | none => 0
  | some s => s.length + 1

theorem refSize_strsep_lt (delim : Byte → Bool) (s : CString) :
    refSize (strsep delim (some s)).2 < refSize (some s) := by
  have hdrop := (List.dropWhile_sublist (fun c => !delim c) (l := s)).length_le
  simp only [strsep]
  cases hrest : s.dropWhile fun c => !delim c with
  | nil => simp [refSize]
  | cons c rest =>
      rw [hrest, List.length_cons] at hdrop
      simp only [refSize]
      omega

/-- `strsep_ne`: the next token that is not empty. -/
def strsepNe (delim : Byte → Bool) (ref : Option CString) :
    Option CString × Option CString :=
  match ref with
  | none => (none, none)
  | some s =>
      match (strsep delim (some s)).1 with
      | some [] => strsepNe delim (strsep delim (some s)).2
      | _ => strsep delim (some s)
termination_by refSize ref
decreasing_by exact refSize_strsep_lt delim s

/-- `wsep`: the next word. -/
def wsep (ref : Option CString) : Option CString × Option CString :=
  strsepNe isSpace ref

/-- `split` with `targets` targets: the words it assigns, in order, and the
reference it leaves; its return value is the number of words. -/
def split : ℕ → Option CString → List CString × Option CString
  | 0, ref => ([], ref)
  | targets + 1, ref =>
      match wsep ref with
      | (none, rest) => ([], rest)
      | (some word, rest) =>
          (word :: (split targets rest).1, (split targets rest).2)

/-- `chop(s, c)`: the string up to the first `c`. -/
def chop (s : CString) (c : Byte) : CString :=
  s.takeWhile (· != c)

/-! ## Numbers -/

def digitsValue (digits : CString) : ℕ :=
  digits.foldl (fun n c => n * 10 + (c.toNat - 48)) 0

/-- The optional sign and the digits that `strtol` and `strtoul` read in base
10, as "is negative" and magnitude. -/
def scanDecimal (s : CString) : Bool × ℕ :=
  let t := s.dropWhile isSpace
  let neg := t.head? == some 45
  let u := if neg || t.head? == some 43 then t.tail else t
  (neg, digitsValue (u.takeWhile isDigit))

/-- `strtoul(s, NULL, 10)`: saturates, and negates modulo `2 ^ 64`. -/
def strtoul (s : CString) : ℕ :=
  let (neg, n) := scanDecimal s
  if 2 ^ 64 ≤ n then 2 ^ 64 - 1
  else if neg then (2 ^ 64 - n) % 2 ^ 64 else n

/-- `strtol(s, NULL, 10)`, which saturates. -/
def strtol (s : CString) : ℤ :=
  let (neg, n) := scanDecimal s
  if neg then max (-2 ^ 63) (-n) else min (2 ^ 63 - 1) n

/-- The value of a digit in a base up to 36, and 36 for other bytes. -/
def digitValue (c : Byte) : ℕ :=
  if isDigit c then c.toNat - 48
  else if 97 ≤ c && c ≤ 122 then c.toNat - 87
  else if 65 ≤ c && c ≤ 90 then c.toNat - 55
  else 36

/-- The base that a prefix selects, and the digits after the prefix. -/
def baseOf : CString → ℕ × CString
  | 48 :: x :: c :: rest =>
      if toLower x == 120 && digitValue c < 16 then (16, c :: rest)
      else (8, 48 :: x :: c :: rest)
  | 48 :: rest => (8, 48 :: rest)
  | digits => (10, digits)

/-- `strtoul(s, NULL, 0)`: like `strtoul`, in the base of the prefix. -/
def strtoulAuto (s : CString) : ℕ :=
  let t := s.dropWhile isSpace
  let neg := t.head? == some 45
  let (base, digits) := baseOf (if neg || t.head? == some 43 then t.tail else t)
  let n := (digits.takeWhile fun c => digitValue c < base).foldl
    (fun n c => n * base + digitValue c) 0
  if 2 ^ 64 ≤ n then 2 ^ 64 - 1
  else if neg then (2 ^ 64 - n) % 2 ^ 64 else n

/-- `(size_t) atoi(s)`: `strtol` cut to an `int`, then widened. -/
def atoiSize (s : CString) : ℕ :=
  ((strtol s).bmod (2 ^ 32) % 2 ^ 64).toNat

/-- `%zu` -/
def decimal (n : ℕ) : CString :=
  lit (Nat.repr n)

/-- `%d` -/
def decimalInt (n : ℤ) : CString :=
  if n < 0 then 45 :: decimal n.natAbs else decimal n.natAbs

example : split 2 (some (lit "  a bc d")) = ([lit "a", lit "bc"], some (lit "d")) := by
  decide +kernel

end Xltop.Text
