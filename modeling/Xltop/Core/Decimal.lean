import Xltop.Core.Words

/-!
# Printed numbers

What `%zu` prints is a word of digits without a leading zero, so `strtoul` in
base 0 takes it for a decimal number and reads it back.
-/

namespace Xltop.Text

/-- What `strtoul` makes of digits in a base. -/
def valueIn (base : ℕ) (digits : CString) : ℕ :=
  digits.foldl (fun n c => n * base + digitValue c) 0

theorem decimal_of_lt {n : ℕ} (h : n < 10) : decimal n = [48 + UInt8.ofNat n] := by
  rw [decimal, Nat.repr_of_lt h]
  revert n
  decide

theorem decimal_of_ge {n : ℕ} (h : 10 ≤ n) :
    decimal n = decimal (n / 10) ++ [48 + UInt8.ofNat (n % 10)] := by
  rw [← decimal_of_lt (Nat.mod_lt n (by decide)), decimal, Nat.repr_eq_repr_append_repr h]
  simp only [decimal, lit, String.toList_append, List.map_append]

/-- Induction along the digits, from the first to the last. -/
theorem decimal_induction {P : ℕ → Prop} (small : ∀ n < 10, P n)
    (digit : ∀ n, 10 ≤ n → P (n / 10) → P n) (n : ℕ) : P n := by
  induction n using Nat.strong_induction_on with
  | _ n ih =>
      by_cases h : n < 10
      · exact small n h
      · have hge : 10 ≤ n := not_lt.1 h
        exact digit n hge (ih (n / 10) (by omega))

theorem digit_last {d : ℕ} (h : d < 10) :
    isDigit (48 + UInt8.ofNat d) = true ∧ digitValue (48 + UInt8.ofNat d) = d := by
  revert d
  decide

theorem isDigit_decimal (n : ℕ) : ∀ c ∈ decimal n, isDigit c = true := by
  induction n using decimal_induction with
  | small n h =>
      rw [decimal_of_lt h]
      intro c hc
      rw [List.mem_singleton.1 hc]
      exact (digit_last h).1
  | digit n h ih =>
      rw [decimal_of_ge h]
      intro c hc
      rcases List.mem_append.1 hc with hfirst | hlast
      · exact ih c hfirst
      · rw [List.mem_singleton.1 hlast]
        exact (digit_last (Nat.mod_lt n (by decide))).1

theorem decimal_ne_nil (n : ℕ) : decimal n ≠ [] := by
  induction n using decimal_induction with
  | small n h =>
      rw [decimal_of_lt h]
      exact List.cons_ne_nil _ _
  | digit n h ih =>
      rw [decimal_of_ge h]
      exact List.append_ne_nil_of_left_ne_nil ih _

/-- Only zero begins with a zero. -/
theorem head?_decimal {n : ℕ} (hn : 0 < n) : (decimal n).head? ≠ some 48 := by
  induction n using decimal_induction with
  | small n h =>
      rw [decimal_of_lt h]
      revert n
      decide
  | digit n h ih =>
      rw [decimal_of_ge h, List.head?_append_of_ne_nil _ (decimal_ne_nil _)]
      exact ih (by omega)

theorem valueIn_decimal (n : ℕ) : valueIn 10 (decimal n) = n := by
  induction n using decimal_induction with
  | small n h =>
      rw [decimal_of_lt h]
      change 0 * 10 + digitValue (48 + UInt8.ofNat n) = n
      rw [(digit_last h).2, Nat.zero_mul, Nat.zero_add]
  | digit n h ih =>
      have hlast := (digit_last (Nat.mod_lt n (by decide : 0 < 10))).2
      rw [valueIn] at ih
      rw [decimal_of_ge h, valueIn, List.foldl_append, ih]
      change n / 10 * 10 + digitValue (48 + UInt8.ofNat (n % 10)) = n
      rw [hlast, Nat.div_add_mod']

theorem digitValue_lt {c : Byte} (h : isDigit c = true) : digitValue c < 10 := by
  rw [digitValue, if_pos h]
  simp only [isDigit, Bool.and_eq_true, decide_eq_true_eq, UInt8.le_iff_toNat_le] at h
  have hlow : (48 : UInt8).toNat = 48 := rfl
  have hhigh : (57 : UInt8).toNat = 57 := rfl
  omega

/-- A digit is neither white space nor a sign nor a NUL. -/
theorem isDigit_plain {c : Byte} (h : isDigit c = true) :
    isSpace c = false ∧ c ≠ 45 ∧ c ≠ 43 ∧ c ≠ 0 := by
  simp only [isDigit, Bool.and_eq_true, decide_eq_true_eq, UInt8.le_iff_toNat_le] at h
  have hlow : (48 : UInt8).toNat = 48 := rfl
  have hne : ∀ b : UInt8, b.toNat < 48 → c ≠ b := by
    rintro b hb rfl
    omega
  refine ⟨?_, hne 45 (by decide), hne 43 (by decide), hne 0 (by decide)⟩
  have hspace : c ≠ 32 := hne 32 (by decide)
  have hrange : ¬ c ≤ 13 := by
    rw [UInt8.le_iff_toNat_le]
    change ¬ c.toNat ≤ 13
    omega
  simp [isSpace, hspace, hrange]

theorem isWord_decimal (n : ℕ) : IsWord (decimal n) :=
  ⟨decimal_ne_nil n, fun c hc => (isDigit_plain (isDigit_decimal n c hc)).1⟩

theorem baseOf_of_ne {digits : CString} (h : digits.head? ≠ some 48) :
    baseOf digits = (10, digits) := by
  rw [baseOf]
  · rintro x c rest rfl
    exact h rfl
  · rintro rest rfl
    exact h rfl

/-- A printed `size_t` is read back. -/
theorem strtoulAuto_decimal {n : ℕ} (h : n < 2 ^ 64) : strtoulAuto (decimal n) = n := by
  obtain rfl | hpos := Nat.eq_zero_or_pos n
  · decide
  · have hplain := fun c hc => isDigit_plain (isDigit_decimal n c hc)
    have hfirst : ∀ c ∈ (decimal n).head?, c ∈ decimal n := fun c hc =>
      List.mem_of_mem_head? hc
    have hspace : (decimal n).dropWhile isSpace = decimal n := by
      cases hn : decimal n with
      | nil => rfl
      | cons c rest =>
          rw [hn] at hplain
          exact List.dropWhile_cons_of_neg (by simp [(hplain c List.mem_cons_self).1])
    have hneg : ((decimal n).head? == some 45) = false := by
      rw [beq_eq_false_iff_ne]
      exact fun heq => (hplain 45 (hfirst 45 heq)).2.1 rfl
    have hplus : ((decimal n).head? == some 43) = false := by
      rw [beq_eq_false_iff_ne]
      exact fun heq => (hplain 43 (hfirst 43 heq)).2.2.1 rfl
    have htake : (decimal n).takeWhile (fun c => digitValue c < 10) = decimal n := by
      rw [List.takeWhile_eq_self_iff]
      exact fun c hc => decide_eq_true (digitValue_lt (isDigit_decimal n c hc))
    have hvalue := valueIn_decimal n
    rw [valueIn] at hvalue
    rw [strtoulAuto]
    simp only [hspace, hneg, hplus, Bool.or_false, Bool.false_eq_true, if_false,
      baseOf_of_ne (head?_decimal hpos), htake, hvalue]
    rw [if_neg (not_le.2 h)]

end Xltop.Text
