import Xltop.Query.Component
import Mathlib.Algebra.Order.BigOperators.Group.List
import Mathlib.Algebra.Order.Group.Nat
import Mathlib.Algebra.GroupWithZero.Nat

/-!
# How much a query can give

Every byte of a name or a value has been paid for by bytes of the query: a byte
that means something in a query by the three bytes of an escape, any other byte
by itself.  So a query that is too short for some fields and values cannot give
them, whatever decoding does to it on the way.
-/

namespace Xltop.Query

open Function
open Xltop.Memory
open Xltop.Text

/-- Equal signs count nothing: a component has one that is in no name. -/
def rawWeight (c : Byte) : ℕ :=
  if c = 61 then 0 else 1

/-- The bytes that a value has only from an escape. -/
def isCut (c : Byte) : Bool :=
  c == 37 || c == 43 || c == 38 || c == 59

def valueWeight (c : Byte) : ℕ :=
  if isCut c then 3 else rawWeight c

def nameWeight (c : Byte) : ℕ :=
  if c = 61 then 3 else valueWeight c

def weight (w : Byte → ℕ) (s : CString) : ℕ :=
  (s.map w).sum

/-- What a field and its value take of a query. -/
def cost (pair : CString × CString) : ℕ :=
  weight nameWeight pair.1 + weight valueWeight pair.2

@[simp]
theorem weight_cons (w : Byte → ℕ) (c : Byte) (s : CString) :
    weight w (c :: s) = w c + weight w s := by
  rw [weight, List.map_cons, List.sum_cons, weight]

@[simp]
theorem weight_append (w : Byte → ℕ) (s t : CString) :
    weight w (s ++ t) = weight w s + weight w t := by
  rw [weight, List.map_append, List.sum_append, weight, weight]

theorem weight_cstr_le (w : Byte → ℕ) (s : CString) : weight w (cstr s) ≤ weight w s := by
  conv_rhs => rw [← List.takeWhile_append_dropWhile (p := (· != (0 : Byte))) (l := s)]
  rw [weight_append]
  exact Nat.le_add_right ..

theorem rawWeight_of_isXDigit {c : Byte} (h : isXDigit c) : rawWeight c = 1 :=
  if_neg fun heq => by
    subst heq
    exact absurd h (by decide)

/-- Decoding pays for each byte. -/
theorem weight_decoded_le {w : Byte → ℕ} (hescape : ∀ c, w c ≤ 3) {text : CString}
    (hbyte : ∀ c ∈ text, c ≠ 37 → w (if c = 43 then 32 else c) ≤ rawWeight c) :
    weight w (decoded text) ≤ weight rawWeight text := by
  fun_induction decoded text with
  | case1 => exact le_rfl
  | case2 c rest hc ih =>
      rw [List.forall_mem_cons] at hbyte
      rw [weight_cons, weight_cons]
      exact Nat.add_le_add (hbyte.1 hc) (ih hbyte.2)
  | case3 c hc c1 c2 rest hx ih =>
      rw [List.forall_mem_cons, List.forall_mem_cons, List.forall_mem_cons] at hbyte
      rw [Bool.and_eq_true] at hx
      have hpercent : rawWeight c = 1 := by
        rw [not_not.1 hc]
        rfl
      have hle := hescape (hexValue c1 c2)
      have hrest := ih hbyte.2.2.2
      simp only [weight_cons, hpercent, rawWeight_of_isXDigit hx.1, rawWeight_of_isXDigit hx.2]
      omega
  | case4 => exact Nat.zero_le _
  | case5 => exact Nat.zero_le _

theorem rawWeight_le (c : Byte) : rawWeight c ≤ 1 := by
  rw [rawWeight]
  split <;> omega

theorem valueWeight_le (c : Byte) : valueWeight c ≤ 3 := by
  rw [valueWeight]
  have hle := rawWeight_le c
  split <;> omega

theorem nameWeight_le (c : Byte) : nameWeight c ≤ 3 := by
  rw [nameWeight]
  have hle := valueWeight_le c
  split <;> omega

theorem weight_value_le {text : CString} (h : ∀ c ∈ text, c ≠ 38 ∧ c ≠ 59) :
    weight valueWeight (cstr (decoded text)) ≤ weight rawWeight text := by
  apply (weight_cstr_le ..).trans
  apply weight_decoded_le valueWeight_le
  intro c hc hpercent
  split
  · next hplus =>
      subst hplus
      decide
  · next hplus =>
      have hcut : isCut c = false := by
        simp [isCut, hpercent, hplus, h c hc]
      rw [valueWeight, hcut, if_neg Bool.false_ne_true]

theorem weight_name_le {text : CString} (h : ∀ c ∈ text, c ≠ 38 ∧ c ≠ 59)
    (hequal : 61 ∉ text) :
    weight nameWeight (cstr (decoded text)) ≤ weight rawWeight text := by
  apply (weight_cstr_le ..).trans
  apply weight_decoded_le nameWeight_le
  intro c hc hpercent
  split
  · next hplus =>
      subst hplus
      decide
  · next hplus =>
      have hcut : isCut c = false := by
        simp [isCut, hpercent, hplus, h c hc]
      have hne : c ≠ 61 := fun heq => hequal (heq ▸ hc)
      rw [nameWeight, if_neg hne, valueWeight, hcut, if_neg Bool.false_ne_true]

theorem weight_rest_le (text : CString) :
    weight rawWeight (cstr (decoded text)) ≤ weight rawWeight text := by
  apply (weight_cstr_le ..).trans
  apply weight_decoded_le fun c => (rawWeight_le c).trans (by decide)
  intro c _ _
  split
  · next hplus =>
      subst hplus
      decide
  · exact le_rfl

theorem rawWeight_le_valueWeight (c : Byte) : rawWeight c ≤ valueWeight c := by
  rw [valueWeight]
  split
  · exact (rawWeight_le c).trans (by decide)
  · exact le_rfl

theorem rawWeight_le_nameWeight (c : Byte) : rawWeight c ≤ nameWeight c := by
  rw [nameWeight]
  split
  · exact (rawWeight_le c).trans (by decide)
  · exact rawWeight_le_valueWeight c

theorem rawWeight_lt_valueWeight {c : Byte} (h : isCut c) : rawWeight c < valueWeight c := by
  have hle := rawWeight_le c
  rw [valueWeight, if_pos h]
  omega

theorem rawWeight_lt_nameWeight {c : Byte} (h : isCut c ∨ c = 61) :
    rawWeight c < nameWeight c := by
  have hle := rawWeight_le c
  rw [nameWeight]
  split
  · omega
  · next hne => exact rawWeight_lt_valueWeight (h.resolve_right hne)

theorem le_cost (f v : CString) : weight rawWeight f + weight rawWeight v ≤ cost (f, v) :=
  Nat.add_le_add (List.sum_le_sum fun c _ => rawWeight_le_nameWeight c)
    (List.sum_le_sum fun c _ => rawWeight_le_valueWeight c)

/-- A field and its value take more of a query than the bytes they are, if one
of these bytes means something in a query. -/
theorem lt_cost {f v : CString} (h : (∃ c ∈ f, isCut c ∨ c = 61) ∨ ∃ c ∈ v, isCut c) :
    weight rawWeight f + weight rawWeight v < cost (f, v) := by
  have hname : weight rawWeight f ≤ weight nameWeight f :=
    List.sum_le_sum fun c _ => rawWeight_le_nameWeight c
  have hvalue : weight rawWeight v ≤ weight valueWeight v :=
    List.sum_le_sum fun c _ => rawWeight_le_valueWeight c
  rcases h with ⟨c, hc, hcut⟩ | ⟨c, hc, hcut⟩
  · have hlt : weight rawWeight f < weight nameWeight f :=
      List.sum_lt_sum _ _ (fun c _ => rawWeight_le_nameWeight c)
        ⟨c, hc, rawWeight_lt_nameWeight hcut⟩
    exact Nat.add_lt_add_of_lt_of_le hlt hvalue
  · have hlt : weight rawWeight v < weight valueWeight v :=
      List.sum_lt_sum _ _ (fun c _ => rawWeight_le_valueWeight c)
        ⟨c, hc, rawWeight_lt_valueWeight hcut⟩
    exact Nat.add_lt_add_of_le_of_lt hname hlt

/-! ## Components -/

section Component

variable {size s : ℕ} {mem mem' : ℕ → Byte} {text : CString}

/-- Where a string ends at the latest. -/
theorem StrAt.le_of_zero {j : ℕ} (h : StrAt size mem s text) (hj : mem j = 0) (hle : s ≤ j) :
    s + text.length ≤ j := by
  induction text generalizing s with
  | nil => simpa using hle
  | cons c text ih =>
      have hne : s ≠ j := by
        rintro rfl
        exact h.nonzero c List.mem_cons_self (h.holds.1.symm.trans hj)
      have hlater := ih h.tail (by omega)
      rw [List.length_cons]
      omega

/-- Decoding an empty string, when it does not read past the end of the block. -/
theorem qDecode_stray {v : ℕ} {b : Bool} (hend : mem (size - 1) = 0) (hv : mem v = 0)
    (hrun : qDecode size mem v = some (mem', b)) :
    ∃ text, StrAt size mem (v + 1) text ∧
      Written mem (v + 1) (v + 1 + text.length) (decoded text) mem' := by
  have hlt : v < size := by
    by_contra hnot
    rw [qDecode, qDecodeLoop, if_neg hnot] at hrun
    cases hrun
  have hnext : v + 1 < size := by
    by_contra hnot
    rw [qDecode_fault hv (by omega)] at hrun
    cases hrun
  obtain ⟨text, htext⟩ := exists_strAt hend hnext
  obtain ⟨mem₁, b₁, hrun₁, hwritten⟩ := qDecode_nul hv htext
  rw [hrun] at hrun₁
  cases hrun₁
  exact ⟨text, htext, hwritten⟩

/-- What a component does to the block and the fields, when it does not fail. -/
structure Weighed (size s : ℕ) (ignoreUnknown : Bool) (text : CString)
    (st st' : Parsed UString) : Prop where
  ends : st'.mem (size - 1) = 0
  before : ∀ i < s, st'.mem i = st.mem i
  rest : ∀ {rest}, StrAt size st.mem (s + text.length + 1) rest →
    ∃ rest', StrAt size st'.mem (s + text.length + 1) rest' ∧
      weight rawWeight rest' ≤ weight rawWeight rest
  table : st'.table = st.table ∨ ∃ f ptr value,
    setField ignoreUnknown f ptr value st.table = .ok st'.table ∧
      StrAt size st'.mem ptr value ∧ ptr + value.length ≤ s + text.length ∧
      cost (f, value) ≤ weight rawWeight text

theorem Outcome.bind_eq_ok {α β : Type*} {o : Outcome α} {f : α → Outcome β} {b : β}
    (h : o.bind f = .ok b) : ∃ a, o = .ok a ∧ f a = .ok b := by
  cases o with
  | fault => cases h
  | error => cases h
  | ok a => exact ⟨a, rfl, h⟩

variable {st st' : Parsed UString} {ignoreUnknown : Bool}

theorem weighed_value {name raw : CString} (hend : st.mem (size - 1) = 0)
    (h : StrAt size st.mem s (name ++ 61 :: raw)) (hname : name ≠ []) (hequal : 61 ∉ name)
    (hraw : raw ≠ []) (htext : ∀ c ∈ name ++ 61 :: raw, c ≠ 38 ∧ c ≠ 59)
    (hrun : component size ignoreUnknown st s = .ok st') :
    Weighed size s ignoreUnknown (name ++ 61 :: raw) st st' := by
  obtain ⟨mem', hok, hvalue, hbefore, hafter⟩ :=
    component_value ignoreUnknown h hname hequal hraw
  obtain ⟨table', hset, hst⟩ := Outcome.bind_eq_ok (hok.symm.trans hrun)
  cases hst
  have hlt := h.lt
  have hle := length_cstr_decoded_le raw
  have hlength : (name ++ 61 :: raw).length = name.length + 1 + raw.length := by
    rw [List.length_append, List.length_cons]
    omega
  rw [List.forall_mem_append, List.forall_mem_cons] at htext
  refine
    { ends := (hafter _ (by omega)).trans hend
      before := hbefore
      rest := fun {rest} hrest =>
        ⟨rest, hrest.congr fun i hi _ => hafter i (by omega), le_rfl⟩
      table := .inr ⟨_, _, _, hset, hvalue, by omega, ?_⟩ }
  rw [weight_append, weight_cons]
  exact Nat.add_le_add (weight_name_le htext.1 hequal)
    ((weight_value_le htext.2.2).trans (Nat.le_add_left ..))

theorem weighed_empty {name : CString} (hend : st.mem (size - 1) = 0)
    (h : StrAt size st.mem s (name ++ [61])) (hname : name ≠ []) (hequal : 61 ∉ name)
    (htext : ∀ c ∈ name ++ [61], c ≠ 38 ∧ c ≠ 59)
    (hrun : component size ignoreUnknown st s = .ok st') :
    Weighed size s ignoreUnknown (name ++ [61]) st st' := by
  have hlength : (name ++ [61]).length = name.length + 1 := by
    rw [List.length_append, List.length_singleton]
  have hlt := h.lt
  have hnext : s + name.length + 2 < size := by
    by_contra hlast
    rw [component_fault ignoreUnknown h hname hequal (by omega)] at hrun
    cases hrun
  obtain ⟨rest, hrest⟩ := exists_strAt hend hnext
  obtain ⟨mem', hok, hvalue, hbefore, hdecoded, hafter⟩ :=
    component_empty ignoreUnknown h hname hequal hrest
  obtain ⟨table', hset, hst⟩ := Outcome.bind_eq_ok (hok.symm.trans hrun)
  cases hst
  have hlt' := hrest.lt
  have hle := length_decoded_le rest
  rw [List.forall_mem_append] at htext
  refine
    { ends := (hafter _ (by omega)).trans hend
      before := hbefore
      rest := fun {rest'} hrest' => ⟨cstr (decoded rest), ?_, ?_⟩
      table := .inr ⟨_, _, _, hset, hvalue, by simp only [List.length_nil]; omega, ?_⟩ }
  · have he : s + (name ++ [61]).length + 1 = s + name.length + 2 := by omega
    rw [he]
    exact strAt_cstr hdecoded (by omega)
  · have he : s + (name ++ [61]).length + 1 = s + name.length + 2 := by omega
    rw [he] at hrest'
    rw [hrest'.unique hrest]
    exact weight_rest_le rest
  · rw [weight_append]
    exact Nat.add_le_add (weight_name_le htext.1 hequal) (Nat.zero_le _)

theorem weighed_bare (hend : st.mem (size - 1) = 0) (h : StrAt size st.mem s text)
    (hname : text ≠ []) (hequal : 61 ∉ text) (htext : ∀ c ∈ text, c ≠ 38 ∧ c ≠ 59)
    (hrun : component size ignoreUnknown st s = .ok st') :
    Weighed size s ignoreUnknown text st st' := by
  obtain ⟨mem₁, hfield, hbefore, hafter, hfault, hdecoded⟩ :=
    component_bare ignoreUnknown h hname hequal
  have hlt := h.lt
  have hle' := length_cstr_decoded_le text
  have hend₁ : mem₁ (size - 1) = 0 := (hafter _ (by omega)).trans hend
  cases hdecode : qDecode size mem₁ (s + (cstr (decoded text)).length) with
  | none =>
      rw [hfault hdecode] at hrun
      cases hrun
  | some result =>
      obtain ⟨mem₂, b⟩ := result
      obtain ⟨behind, hbehind, hwritten⟩ := qDecode_stray hend₁ hfield.end_eq hdecode
      have hkept : ∀ i ≤ s + (cstr (decoded text)).length, mem₂ i = mem₁ i := fun i hi =>
        hwritten.before i (Nat.lt_succ_of_le hi)
      rw [hdecoded mem₂ b hdecode hkept] at hrun
      obtain ⟨table', hset, hst⟩ := Outcome.bind_eq_ok hrun
      cases hst
      have hzero := hfield.end_eq
      generalize hv : s + (cstr (decoded text)).length = v at hbehind hwritten hkept hzero hset
      have hve : v ≤ s + text.length := by omega
      have hlt₂ := hbehind.lt
      have hle₂ := length_decoded_le behind
      have hnil : StrAt size mem₂ v [] :=
        ⟨⟨(hkept v le_rfl).trans hzero, trivial⟩, fun c hc => absurd hc List.not_mem_nil,
          by simp only [List.length_nil]; omega⟩
      refine
        { ends := (hwritten.after _ (by omega)).trans hend₁
          before := fun i hi => (hkept i (by omega)).trans (hbefore i hi)
          rest := fun {rest} hrest => ?_
          table := .inr ⟨_, v, [], hset, hnil, hve, weight_name_le htext hequal⟩ }
      have hrest₁ : StrAt size mem₁ (s + text.length + 1) rest :=
        hrest.congr fun i hi _ => hafter i (by omega)
      rcases hve.eq_or_lt with heq | hlt'
      · rw [heq] at hbehind hwritten
        obtain rfl := hbehind.unique hrest₁
        exact ⟨_, hwritten.strAt (by omega), weight_rest_le behind⟩
      · have hend₂ : mem₁ (s + text.length) = 0 := (hafter _ le_rfl).trans h.end_eq
        have hshort := hbehind.le_of_zero hend₂ hlt'
        exact ⟨rest, hrest₁.congr fun i hi _ => hwritten.after i (by omega), le_rfl⟩

theorem component_weighed (hend : st.mem (size - 1) = 0) (h : StrAt size st.mem s text)
    (htext : ∀ c ∈ text, c ≠ 38 ∧ c ≠ 59)
    (hrun : component size ignoreUnknown st s = .ok st') :
    Weighed size s ignoreUnknown text st st' := by
  by_cases hskip : ∀ c ∈ text.head?, c = 61
  · have hlt := h.lt
    obtain ⟨mem', hok, hsame⟩ := component_skip ignoreUnknown h hskip
    rw [hok] at hrun
    cases hrun
    exact
      { ends := (hsame _ (.inr (by omega))).trans hend
        before := fun i hi => hsame i (.inl hi)
        rest := fun {rest} hrest => ⟨rest, hrest.congr fun i hi _ => hsame i (.inr (by omega)),
          le_rfl⟩
        table := .inl rfl }
  · have hne : text ≠ [] := by
      rintro rfl
      exact hskip fun c hc => by cases hc
    by_cases hequal : 61 ∈ text
    · obtain ⟨name, raw, rfl, hnot⟩ := List.eq_append_cons_of_mem hequal
      have hname : name ≠ [] := by
        rintro rfl
        exact hskip fun c hc => (Option.some.inj hc).symm
      by_cases hraw : raw = []
      · subst hraw
        exact weighed_empty hend h hname hnot htext hrun
      · exact weighed_value hend h hname hnot hraw htext hrun
    · exact weighed_bare hend h hne hequal htext hrun

/-- What a component gives, and what it has paid for that. -/
theorem Weighed.fields (h : Weighed size s ignoreUnknown text st st') (hfields : Fields size st s) :
    Fields size st' (s + text.length + 1) ∧
      ∃ gives : List (CString × CString), gives.length ≤ 1 ∧
        (gives.map cost).sum ≤ weight rawWeight text ∧
        ∀ g v, given size st' g = some v → given size st g = some v ∨ (g, v) ∈ gives := by
  have hle : s ≤ s + text.length + 1 := by omega
  have hnothing : st'.table = st.table → Fields size st' (s + text.length + 1) ∧
      ∃ gives : List (CString × CString), gives.length ≤ 1 ∧
        (gives.map cost).sum ≤ weight rawWeight text ∧
        ∀ g v, given size st' g = some v → given size st g = some v ∨ (g, v) ∈ gives := by
    intro htable
    obtain ⟨hfields', hgiven⟩ := hfields.mono h.before hle
    rw [← htable] at hfields' hgiven
    exact ⟨hfields', [], Nat.zero_le _, Nat.zero_le _, fun g v hg => .inl (hgiven g ▸ hg)⟩
  rcases h.table with htable | ⟨f, ptr, value, hset, hvalue, hlt, hcost⟩
  · exact hnothing htable
  · by_cases hknown : f ∈ st.table.map Field.qField
    · obtain ⟨table', hset', hgave⟩ := setField_known hfields.parse hknown ignoreUnknown ptr value
      rw [hset] at hset'
      cases hset'
      obtain ⟨hfields', hgiven⟩ :=
        hfields.set h.before hle hgave hvalue (Nat.lt_succ_of_le hlt) hknown
      refine ⟨hfields', [(f, value)], le_rfl, by simpa using hcost, fun g v hg => ?_⟩
      rw [hgiven] at hg
      split at hg
      · next heq =>
          cases hg
          rw [heq]
          exact .inr List.mem_cons_self
      · exact .inl hg
    · exact hnothing (setField_unknown hknown hset)

/-- A string up to the first byte that satisfies `p`. -/
theorem split_first (p : Byte → Bool) (text : CString) :
    (∀ c ∈ text, p c = false) ∨ ∃ first c rest, text = first ++ c :: rest ∧
      (∀ c ∈ first, p c = false) ∧ p c = true := by
  induction text with
  | nil => exact .inl fun c hc => absurd hc List.not_mem_nil
  | cons c text ih =>
      cases hc : p c with
      | true => exact .inr ⟨[], c, text, rfl, fun c hc => absurd hc List.not_mem_nil, hc⟩
      | false =>
          rcases ih with hnone | ⟨first, c', rest, rfl, hfirst, hc'⟩
          · exact .inl (List.forall_mem_cons.2 ⟨hc, hnone⟩)
          · exact .inr ⟨c :: first, c', rest, rfl, List.forall_mem_cons.2 ⟨hc, hfirst⟩, hc'⟩

/-- The fields and values that a query gives take no more of it than there is. -/
theorem queryLoop_weighed (hend : st.mem (size - 1) = 0) (h : StrAt size st.mem s text)
    (hfields : Fields size st s) (hrun : queryLoop size ignoreUnknown st s = .ok st') :
    ∃ gives : List (CString × CString),
      (gives.map cost).sum + gives.length ≤ weight rawWeight text + 1 ∧
      ∀ g v, given size st' g = some v → given size st g = some v ∨ (g, v) ∈ gives := by
  induction hn : size - s using Nat.strong_induction_on generalizing s text st with
  | _ n ih =>
      rcases split_first (fun c => c == 38 || c == 59) text with
        hnone | ⟨first, c, rest, rfl, hfirst, hc⟩
      · have hplain : ∀ c ∈ text, c ≠ 38 ∧ c ≠ 59 := fun c hc => by simpa using hnone c hc
        rw [queryLoop_last h hplain] at hrun
        obtain ⟨-, gives, hlength, hcost, hgiven⟩ :=
          (component_weighed hend h hplain hrun).fields hfields
        exact ⟨gives, by omega, hgiven⟩
      · have hplain : ∀ c ∈ first, c ≠ 38 ∧ c ≠ 59 := fun c hc => by simpa using hfirst c hc
        have hcut : c = 38 ∨ c = 59 := by simpa using hc
        rw [queryLoop_next h hplain hcut] at hrun
        obtain ⟨st₁, hcomponent, hrun⟩ := Outcome.bind_eq_ok hrun
        have hlt := h.cut_rest.lt
        have hend₀ : update st.mem (s + first.length) 0 (size - 1) = 0 :=
          (update_of_ne (by omega) _ _).trans hend
        have hbefore₀ : ∀ i < s, update st.mem (s + first.length) 0 i = st.mem i :=
          fun i hi => update_of_ne (by omega) _ _
        obtain ⟨hfields₀, hgiven₀⟩ := hfields.mono hbefore₀ le_rfl
        have hweighed := component_weighed hend₀ h.cut_first hplain hcomponent
        obtain ⟨hfields₁, gives, hlength, hcost, hgiven⟩ := hweighed.fields hfields₀
        obtain ⟨rest', hrest', hweight⟩ := hweighed.rest h.cut_rest
        obtain ⟨more, hmore, hgiven'⟩ := ih _ (by omega) hweighed.ends hrest' hfields₁ hrun rfl
        have hone : rawWeight c = 1 := by rcases hcut with rfl | rfl <;> rfl
        refine ⟨gives ++ more, ?_, fun g v hg => ?_⟩
        · rw [List.map_append, List.sum_append, List.length_append, weight_append, weight_cons,
            hone]
          omega
        · rcases hgiven' g v hg with hold | hmem
          · rcases hgiven g v hold with hold | hmem
            · exact .inl (hgiven₀ g ▸ hold)
            · exact .inr (List.mem_append_left _ hmem)
          · exact .inr (List.mem_append_right _ hmem)

end Component

end Xltop.Query
