import Xltop.Core.Decimal

/-!
# Numbers that are read by `%lf`

`sscanf` reads the longest text that can still become a number, and fails if it
has not become one.  The numbers are kept here as the texts that were read.
-/

namespace Xltop.Text

/-! ## The longest text -/

section Scan

variable {Q : Type*} (next : Q → Byte → Option Q)

/-- What an automaton can read of a text, the state it is in then, and what it
leaves. -/
def scanFrom : Q → CString → CString × Q × CString
  | q, [] => ([], q, [])
  | q, c :: s =>
      match next q c with
      | none => ([], q, c :: s)
      | some q' => (c :: (scanFrom q' s).1, (scanFrom q' s).2)

variable {next} {q q' : Q} {token after : CString}

theorem scanFrom_append (hrun : token.foldlM next q = some q')
    (hstop : ∀ c ∈ after.head?, next q' c = none) :
    scanFrom next q (token ++ after) = (token, q', after) := by
  induction token generalizing q with
  | nil =>
      obtain rfl : q = q' := Option.some.inj hrun
      cases after with
      | nil => rfl
      | cons c after => rw [List.nil_append, scanFrom, hstop c rfl]
  | cons c token ih =>
      rw [List.foldlM_cons] at hrun
      obtain ⟨q₁, hstep, hrest⟩ := Option.bind_eq_some_iff.1 hrun
      rw [List.cons_append, scanFrom, hstep]
      simp only [ih hrest]

end Scan

/-! ## Numbers -/

/-- How much of a number has been read. -/
inductive Lf where
  | start
  | signed
  | zero
  | whole
  | point
  | fraction
  | exponent
  | exponentSign
  | exponentDigits
  | hex
  | hexWhole
  | hexPoint
  | hexFraction
  | letters (left : CString)

namespace Lf

def afterSign (c : Byte) : Option Lf :=
  if c = 48 then some zero
  else if isDigit c then some whole
  else if c = 46 then some point
  else if toLower c = 105 then some (letters (lit "nfinity"))
  else if toLower c = 110 then some (letters (lit "an"))
  else none

def afterWhole (c : Byte) : Option Lf :=
  if isDigit c then some whole
  else if c = 46 then some fraction
  else if toLower c = 101 then some exponent
  else none

/-- One more byte of a number. -/
def next : Lf → Byte → Option Lf
  | start, c => if c = 43 ∨ c = 45 then some signed else afterSign c
  | signed, c => afterSign c
  | zero, c => if toLower c = 120 then some hex else afterWhole c
  | whole, c => afterWhole c
  | point, c => if isDigit c then some fraction else none
  | fraction, c =>
      if isDigit c then some fraction
      else if toLower c = 101 then some exponent
      else none
  | exponent, c =>
      if c = 43 ∨ c = 45 then some exponentSign
      else if isDigit c then some exponentDigits
      else none
  | exponentSign, c => if isDigit c then some exponentDigits else none
  | exponentDigits, c => if isDigit c then some exponentDigits else none
  | hex, c =>
      if digitValue c < 16 then some hexWhole
      else if c = 46 then some hexPoint
      else none
  | hexWhole, c =>
      if digitValue c < 16 then some hexWhole
      else if c = 46 then some hexFraction
      else if toLower c = 112 then some exponent
      else none
  | hexPoint, c => if digitValue c < 16 then some hexFraction else none
  | hexFraction, c =>
      if digitValue c < 16 then some hexFraction
      else if toLower c = 112 then some exponent
      else none
  | letters left, c => if left.head? = some (toLower c) then some (letters left.tail) else none

/-- The text is a number; `inf` is one, and so is `infinity`. -/
def accepts : Lf → Bool
  | zero | whole | fraction | exponentDigits | hexWhole | hexFraction => true
  | letters left => left = [] ∨ left = lit "inity"
  | _ => false

end Lf

/-- A conversion `%lf`: the number, and what is behind it. -/
def scanLf (s : CString) : Option (CString × CString) :=
  match scanFrom Lf.next .start (s.dropWhile isSpace) with
  | (number, q, rest) => if q.accepts then some (number, rest) else none

/-- The numbers that `sscanf` assigns with `n` conversions `%lf`. -/
def sscanfLf : ℕ → CString → List CString
  | 0, _ => []
  | n + 1, s =>
      match scanLf s with
      | none => []
      | some (number, rest) => number :: sscanfLf n rest

/-! ## Printed numbers -/

/-- A number as `%f` prints it, unless it is infinite or no number. -/
def IsDecimal (s : CString) : Prop :=
  ∃ sign whole fraction, (sign = [] ∨ sign = [45]) ∧ whole ≠ [] ∧
    (∀ c ∈ whole, isDigit c = true) ∧ (∀ c ∈ fraction, isDigit c = true) ∧
    s = sign ++ whole ++ 46 :: fraction

namespace Lf

theorem run_fraction {digits : CString} (h : ∀ c ∈ digits, isDigit c = true) :
    digits.foldlM next fraction = some fraction := by
  induction digits with
  | nil => rfl
  | cons c digits ih =>
      rw [List.forall_mem_cons] at h
      rw [List.foldlM_cons, next, if_pos h.1]
      exact ih h.2

theorem run_whole {digits : CString} (h : ∀ c ∈ digits, isDigit c = true) :
    digits.foldlM next whole = some whole := by
  induction digits with
  | nil => rfl
  | cons c digits ih =>
      rw [List.forall_mem_cons] at h
      rw [List.foldlM_cons, next, afterWhole, if_pos h.1]
      exact ih h.2

theorem toLower_digit {c : Byte} (h : isDigit c = true) : toLower c = c := by
  apply if_neg
  rw [isDigit, Bool.and_eq_true, decide_eq_true_eq, decide_eq_true_eq] at h
  rw [Bool.and_eq_true, decide_eq_true_eq, decide_eq_true_eq]
  rw [UInt8.le_iff_toNat_le, UInt8.le_iff_toNat_le] at h ⊢
  have hlt : UInt8.toNat 57 < UInt8.toNat 65 := by decide
  omega

/-- The digits in front of the point; after a first `0` there may be an `x`. -/
theorem run_digits {digits : CString} (hne : digits ≠ [])
    (h : ∀ c ∈ digits, isDigit c = true) :
    ∃ q, (q = zero ∨ q = whole) ∧ digits.foldlM next signed = some q := by
  obtain ⟨c, rest, rfl⟩ := List.exists_cons_of_ne_nil hne
  rw [List.forall_mem_cons] at h
  rw [List.foldlM_cons, next, afterSign]
  split
  · cases rest with
    | nil => exact ⟨zero, .inl rfl, rfl⟩
    | cons d rest =>
        rw [List.forall_mem_cons] at h
        have hx : toLower d ≠ 120 := by
          rw [toLower_digit h.2.1]
          rintro rfl
          exact absurd h.2.1 (by decide)
        refine ⟨whole, .inr rfl, ?_⟩
        change (d :: rest).foldlM next zero = _
        rw [List.foldlM_cons, next, if_neg hx, afterWhole, if_pos h.2.1]
        exact run_whole h.2.2
  · rw [if_pos h.1]
    exact ⟨whole, .inr rfl, run_whole h.2⟩

theorem run_unsigned {digits frac : CString} (hne : digits ≠ [])
    (hdigits : ∀ c ∈ digits, isDigit c = true) (hfrac : ∀ c ∈ frac, isDigit c = true) :
    (digits ++ 46 :: frac).foldlM next signed = some fraction := by
  obtain ⟨q, hq, hrun⟩ := run_digits hne hdigits
  rw [List.foldlM_append, hrun]
  rcases hq with rfl | rfl <;> exact run_fraction hfrac

/-- A number may do without a sign. -/
theorem run_start {c : Byte} {s : CString} (hc : isDigit c = true) :
    (c :: s).foldlM next start = (c :: s).foldlM next signed := by
  have hsign : ¬ (c = 43 ∨ c = 45) := by
    rintro (rfl | rfl) <;> exact absurd hc (by decide)
  rw [List.foldlM_cons, List.foldlM_cons, next, if_neg hsign, next]

theorem run_decimal {s : CString} (h : IsDecimal s) : s.foldlM next start = some fraction := by
  obtain ⟨sign, digits, frac, hsign, hne, hdigits, hfrac, rfl⟩ := h
  have hrun := run_unsigned hne hdigits hfrac
  rcases hsign with rfl | rfl
  · obtain ⟨c, rest, rfl⟩ := List.exists_cons_of_ne_nil hne
    exact (run_start (hdigits c List.mem_cons_self)).trans hrun
  · exact hrun

theorem toNat_le_of_isSpace {c : Byte} (h : isSpace c = true) : c.toNat ≤ 32 := by
  rw [isSpace, Bool.or_eq_true, beq_iff_eq, Bool.and_eq_true, decide_eq_true_eq,
    decide_eq_true_eq, UInt8.le_iff_toNat_le, UInt8.le_iff_toNat_le] at h
  rcases h with rfl | ⟨-, hle⟩
  · exact le_rfl
  · exact hle.trans (by decide)

/-- A number in front of a blank is read up to there. -/
theorem next_space {c : Byte} (h : isSpace c = true) : next fraction c = none := by
  have hle := toNat_le_of_isSpace h
  have hlower : toLower c = c := by
    apply if_neg
    rw [Bool.and_eq_true, decide_eq_true_eq, UInt8.le_iff_toNat_le]
    exact fun hupper => absurd (hupper.1.trans hle) (by decide)
  have hexp : toLower c ≠ 101 := by
    rw [hlower]
    rintro rfl
    exact absurd hle (by decide)
  have hdigit : ¬ isDigit c = true := fun hdigit => by
    rw [(isDigit_plain hdigit).1] at h
    cases h
  rw [next, if_neg hdigit, if_neg hexp]

end Lf

theorem IsDecimal.isToken {s : CString} (h : IsDecimal s) : IsToken s := by
  obtain ⟨sign, digits, frac, hsign, hne, hdigits, hfrac, rfl⟩ := h
  have hplain : ∀ c ∈ sign ++ digits ++ 46 :: frac, isSpace c = false ∧ c ≠ 0 := by
    have hdigit : ∀ {c : Byte}, isDigit c = true → isSpace c = false ∧ c ≠ 0 := fun hc =>
      ⟨(isDigit_plain hc).1, (isDigit_plain hc).2.2.2⟩
    intro c hc
    rcases List.mem_append.1 hc with hc | hc
    · rcases List.mem_append.1 hc with hc | hc
      · rcases hsign with rfl | rfl
        · cases hc
        · rw [List.mem_singleton.1 hc]
          decide
      · exact hdigit (hdigits c hc)
    · rcases List.mem_cons.1 hc with rfl | hc
      · decide
      · exact hdigit (hfrac c hc)
  exact ⟨⟨by simp, fun c hc => (hplain c hc).1⟩, fun hnul => (hplain 0 hnul).2 rfl⟩

/-- A printed number is read whole, up to a blank or to the end. -/
theorem scanLf_decimal {s after : CString} (h : IsDecimal s)
    (hstop : ∀ c ∈ after.head?, isSpace c = true) : scanLf (s ++ after) = some (s, after) := by
  have hword := h.isToken
  obtain ⟨c, rest, rfl⟩ := List.exists_cons_of_ne_nil hword.ne_nil
  have hc : ¬ isSpace c = true := by
    rw [hword.space c List.mem_cons_self]
    exact Bool.false_ne_true
  have hscan := scanFrom_append (Lf.run_decimal h) fun d hd => Lf.next_space (hstop d hd)
  rw [scanLf, List.cons_append, List.dropWhile_cons_of_neg hc, ← List.cons_append, hscan]
  rfl

theorem scanLf_blank (s : CString) {c : Byte} (hc : isSpace c = true) :
    scanLf (c :: s) = scanLf s := by
  rw [scanLf, List.dropWhile_cons_of_pos hc, scanLf]

theorem sscanfLf_blank (n : ℕ) (s : CString) {c : Byte} (hc : isSpace c = true) :
    sscanfLf n (c :: s) = sscanfLf n s := by
  cases n with
  | zero => rfl
  | succ n => rw [sscanfLf, scanLf_blank s hc, sscanfLf]

/-- Numbers that were printed with single blanks are read back. -/
theorem sscanfLf_joinWords {numbers : List CString} (h : ∀ number ∈ numbers, IsDecimal number) :
    sscanfLf numbers.length (joinWords numbers) = numbers := by
  fun_induction joinWords numbers with
  | case1 => rfl
  | case2 number =>
      have hscan : scanLf (number ++ []) = some (number, []) :=
        scanLf_decimal (h number List.mem_cons_self) (by simp)
      rw [List.append_nil] at hscan
      rw [List.length_singleton, sscanfLf, hscan]
      rfl
  | case3 number numbers hne ih =>
      rw [List.forall_mem_cons] at h
      have hscan : scanLf (number ++ 32 :: joinWords numbers) =
          some (number, 32 :: joinWords numbers) :=
        scanLf_decimal h.1 fun c hc => Option.some.inj hc ▸ rfl
      rw [List.length_cons, sscanfLf, hscan]
      simp only [sscanfLf_blank numbers.length _ (show isSpace 32 = true by decide), ih h.2]

example : sscanfLf 3 (lit " 1.5 -2e3x") = [lit "1.5", lit "-2e3"] := by decide +kernel

end Xltop.Text
