import Xltop.Query.Parse

/-!
# Decoding in place

What `q_decode` writes is said by a function on strings.  It moves no byte behind
the NUL at which it stops; only at an empty string it goes on with the string
behind it.
-/

namespace Xltop.Query

open Function
open Xltop.Memory
open Xltop.Text

/-- The bytes that decoding a string gives. -/
def decoded : CString → CString
  | [] => []
  | c :: rest =>
      if c ≠ 37 then (if c = 43 then 32 else c) :: decoded rest
      else
        match rest with
        | c1 :: c2 :: rest =>
            if isXDigit c1 && isXDigit c2 then hexValue c1 c2 :: decoded rest else []
        | _ => []

theorem decoded_byte {c : Byte} (hc : c ≠ 37) (rest : CString) :
    decoded (c :: rest) = (if c = 43 then 32 else c) :: decoded rest := by
  rcases rest with - | ⟨c1, - | ⟨c2, rest⟩⟩ <;> simp [decoded, hc]

/-- A string without escapes and pluses is decoded as it is. -/
theorem decoded_eq_self {text : CString} (h : ∀ c ∈ text, c ≠ 37 ∧ c ≠ 43) :
    decoded text = text := by
  induction text with
  | nil => rfl
  | cons c text ih =>
      rw [List.forall_mem_cons] at h
      rw [decoded_byte h.1.1, if_neg h.1.2, ih h.2]

theorem decoded_escape (c1 c2 : Byte) (rest : CString) :
    decoded (37 :: c1 :: c2 :: rest) =
      if isXDigit c1 && isXDigit c2 then hexValue c1 c2 :: decoded rest else [] := by
  rw [decoded, if_neg (not_not_intro rfl)]

/-- A string that ends in the block. -/
structure StrAt (size : ℕ) (mem : ℕ → Byte) (s : ℕ) (text : CString) : Prop where
  holds : Holds mem s (text ++ [0])
  nonzero : ∀ c ∈ text, c ≠ 0
  lt : s + text.length < size

variable {size p s : ℕ} {mem mem' : ℕ → Byte} {text : CString}

theorem StrAt.congr (h : StrAt size mem s text)
    (hsame : ∀ i, s ≤ i → i ≤ s + text.length → mem' i = mem i) : StrAt size mem' s text where
  holds := h.holds.congr fun i hle hlt => hsame i hle (by simp at hlt; omega)
  nonzero := h.nonzero
  lt := h.lt

theorem StrAt.end_eq (h : StrAt size mem s text) : mem (s + text.length) = 0 :=
  (holds_append.1 h.holds).2.1

theorem StrAt.head (h : StrAt size mem s text) : mem s = text.headD 0 := by
  cases text with
  | nil => exact h.holds.1
  | cons c rest => exact h.holds.1

theorem StrAt.head_eq_zero (h : StrAt size mem s text) : mem s = 0 ↔ text = [] := by
  rw [h.head]
  cases text with
  | nil => exact iff_of_true rfl rfl
  | cons c rest => exact iff_of_false (h.nonzero c List.mem_cons_self) (List.cons_ne_nil c rest)

theorem StrAt.tail {c : Byte} (h : StrAt size mem s (c :: text)) : StrAt size mem (s + 1) text where
  holds := h.holds.2
  nonzero := fun c hc => h.nonzero c (List.mem_cons_of_mem _ hc)
  lt := by
    have hlt := h.lt
    rw [List.length_cons] at hlt
    omega

/-- The loop has written the string at `p`, and nothing from the end of the
text at `s` on. -/
structure Written (mem : ℕ → Byte) (p e : ℕ) (text : CString) (mem' : ℕ → Byte) : Prop where
  holds : Holds mem' p (text ++ [0])
  before : ∀ i < p, mem' i = mem i
  after : ∀ i, e ≤ i → mem' i = mem i

theorem length_decoded_le (text : CString) : (decoded text).length ≤ text.length := by
  fun_induction decoded text with
  | case1 => exact le_rfl
  | case2 c rest hc ih => simpa using ih
  | case3 c hc c1 c2 rest hx ih => simp only [List.length_cons]; omega
  | case4 => exact Nat.zero_le _
  | case5 => exact Nat.zero_le _

theorem isXDigit_zero : isXDigit 0 = false := by
  decide

/-- The test of the loop, and what is done after it. -/
theorem StrAt.test (h : StrAt size mem s text) (hp : p ≤ s)
    (hrun : text ≠ [] → ∃ mem' b, qDecodeLoop size mem p s = some (mem', b) ∧
      Written mem p (s + text.length) (decoded text) mem') :
    ∃ mem' b, (if mem s ≠ 0 then qDecodeLoop size mem p s else some (update mem p 0, true)) =
      some (mem', b) ∧ Written mem p (s + text.length) (decoded text) mem' := by
  by_cases hnil : text = []
  · subst hnil
    rw [if_neg (not_not_intro h.holds.1)]
    refine ⟨_, _, rfl, ⟨update_self .., trivial⟩, fun i hi => ?_, fun i hi => ?_⟩
    · exact update_of_ne hi.ne _ _
    · by_cases hip : i = p
      · subst hip
        obtain rfl : i = s := le_antisymm hp hi
        rw [update_self, h.holds.1]
      · exact update_of_ne hip _ _
  · rw [if_pos (mt h.head_eq_zero.1 hnil)]
    exact hrun hnil

theorem Written.cons {mem₁ : ℕ → Byte} {e : ℕ} {c : Byte} (hc : mem₁ p = c)
    (hsame : ∀ i, i < p ∨ e ≤ i → mem₁ i = mem i) (h : Written mem₁ (p + 1) e text mem') :
    Written mem p e (c :: text) mem' where
  holds := ⟨(h.before p (Nat.lt_succ_self p)).trans hc, h.holds⟩
  before i hi := (h.before i (Nat.lt_succ_of_lt hi)).trans (hsame i (.inl hi))
  after i hi := (h.after i hi).trans (hsame i (.inr hi))

/-- A bad escape ends the string. -/
theorem Written.stop {e : ℕ} (he : p < e) : Written mem p e [] (update mem p 0) where
  holds := ⟨update_self .., trivial⟩
  before i hi := update_of_ne hi.ne _ _
  after i hi := update_of_ne (by omega) _ _

theorem qDecodeLoop_spec (h : StrAt size mem s text) (hne : text ≠ []) (hp : p ≤ s) :
    ∃ mem' b, qDecodeLoop size mem p s = some (mem', b) ∧
      Written mem p (s + text.length) (decoded text) mem' := by
  induction hlength : text.length using Nat.strong_induction_on generalizing p s mem text with
  | _ n ih =>
      subst hlength
      obtain ⟨c, rest, rfl⟩ := List.exists_cons_of_ne_nil hne
      have hlt := h.lt
      have hc : mem s = c := h.holds.1
      rw [List.length_cons] at hlt ⊢
      rw [qDecodeLoop, if_pos (by omega)]
      simp only
      by_cases hescape : c = 37
      · subst hescape
        have hplus : (if mem s = 43 then update mem s 32 else mem) = mem :=
          if_neg (by rw [hc]; decide)
        rw [hplus, if_neg (not_not_intro hc), if_pos (by omega)]
        have hstop : Written mem p (s + (rest.length + 1)) [] (update mem p 0) :=
          Written.stop (by omega)
        rcases rest with - | ⟨c1, rest⟩
        · rw [h.tail.holds.1, isXDigit_zero, if_neg Bool.false_ne_true]
          exact ⟨_, _, rfl, hstop⟩
        rw [h.tail.holds.1]
        by_cases h1 : isXDigit c1
        · rw [if_pos h1, if_pos (by simp at hlt; omega)]
          rcases rest with - | ⟨c2, rest⟩
          · rw [h.tail.tail.holds.1, isXDigit_zero, if_neg Bool.false_ne_true]
            exact ⟨_, _, rfl, hstop⟩
          rw [h.tail.tail.holds.1, decoded_escape]
          by_cases h2 : isXDigit c2
          · have hboth : (isXDigit c1 && isXDigit c2) = true := by rw [h1, h2]; rfl
            rw [if_pos h2, if_pos hboth, if_pos (by simp at hlt; omega)]
            have hrest : StrAt size (update mem p (hexValue c1 c2)) (s + 3) rest :=
              h.tail.tail.tail.congr fun i hle _ => update_of_ne (by omega) _ _
            obtain ⟨mem', b, hrun, hwritten⟩ := hrest.test (by omega : p + 1 ≤ s + 3)
              fun hne' => ih rest.length (by simp; omega) hrest hne' (by omega) rfl
            have he : s + 3 + rest.length = s + ((c1 :: c2 :: rest).length + 1) := by
              simp only [List.length_cons]
              omega
            refine ⟨mem', b, hrun, (he ▸ hwritten).cons (update_self ..) fun i hi => ?_⟩
            exact update_of_ne (by omega) _ _
          · rw [if_neg h2, if_neg (by simp [h2])]
            exact ⟨_, _, rfl, hstop⟩
        · have hnone : decoded (37 :: c1 :: rest) = [] := by
            rcases rest with - | ⟨c2, rest⟩
            · rfl
            · rw [decoded_escape, if_neg (by simp [h1])]
          rw [if_neg h1, hnone]
          exact ⟨_, _, rfl, hstop⟩
      · -- one byte is copied, a plus as a blank
        have hplus : (if mem s = 43 then update mem s 32 else mem) s =
            if c = 43 then 32 else c := by
          rw [← hc]
          split
          · rw [update_self]
          · rfl
        have hother : ∀ i, i ≠ s →
            (if mem s = 43 then update mem s 32 else mem) i = mem i := by
          intro i hi
          split
          · rw [update_of_ne hi]
          · rfl
        have hnot : (if mem s = 43 then update mem s 32 else mem) s ≠ 37 := by
          rw [hplus]
          split
          · decide
          · exact hescape
        generalize (if mem s = 43 then update mem s 32 else mem) = mem₀ at *
        rw [if_pos hnot, if_pos (by omega), decoded_byte hescape]
        have hrest : StrAt size (update mem₀ p (mem₀ s)) (s + 1) rest :=
          h.tail.congr fun i hle _ => by
            rw [update_of_ne (by omega), hother i (by omega)]
        obtain ⟨mem', b, hrun, hwritten⟩ := hrest.test (Nat.succ_le_succ hp)
          fun hne' => ih rest.length (by simp) hrest hne' (by omega) rfl
        have he : s + 1 + rest.length = s + (rest.length + 1) := by omega
        refine ⟨mem', b, hrun, (he ▸ hwritten).cons ?_ fun i hi => ?_⟩
        · rw [update_self, hplus]
        · rw [update_of_ne (by omega), hother i (by omega)]

/-- Decoding a string that is not empty. -/
theorem qDecode_spec (h : StrAt size mem s text) (hne : text ≠ []) :
    ∃ mem' b, qDecode size mem s = some (mem', b) ∧
      Written mem s (s + text.length) (decoded text) mem' :=
  qDecodeLoop_spec h hne le_rfl

/-- Decoding an empty string at the end of the block reads past it. -/
theorem qDecode_fault (hs : mem s = 0) (hsize : s + 1 = size) : qDecode size mem s = none := by
  rw [qDecode, qDecodeLoop, if_pos (by omega)]
  simp [hs, hsize]

/-- Decoding an empty string decodes the string behind it. -/
theorem qDecode_nul (hs : mem s = 0) (h : StrAt size mem (s + 1) text) :
    ∃ mem' b, qDecode size mem s = some (mem', b) ∧
      Written mem (s + 1) (s + 1 + text.length) (decoded text) mem' := by
  have hlt := h.lt
  have hsame : update mem s 0 = mem := by rw [← hs, update_eq_self]
  have hplus : (if mem s = 43 then update mem s 32 else mem) = mem :=
    if_neg (by rw [hs]; decide)
  rw [qDecode, qDecodeLoop, if_pos (by omega)]
  simp only [hplus]
  rw [if_pos (by rw [hs]; decide), if_pos (by omega), hs, hsame]
  exact h.test le_rfl fun hne => qDecodeLoop_spec h hne le_rfl

end Xltop.Query
