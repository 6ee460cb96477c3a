import Xltop.Query.Decode
import Mathlib.Data.List.TakeWhile

/-!
# One component of a query

What happens between two `strsep`s of the loop: the component is cut into field
and value, both are decoded, and the field is set.  Nothing before the component
changes.  Nothing after it changes either, unless the value is empty: then the
rest of the query is decoded.
-/

namespace Xltop.Query

open Function
open Xltop.Memory
open Xltop.Text

variable {size s e : ℕ} {mem mem' : ℕ → Byte} {text : CString}

/-! ## Strings in the block -/

theorem scan_spec (h : StrAt size mem s text) (delim : Byte → Bool) :
    scan size mem delim s = some (s + (text.takeWhile fun c => !delim c).length) := by
  induction text generalizing s with
  | nil =>
      rw [scan, if_pos (by simpa using h.lt), if_pos (.inl h.holds.1)]
      rfl
  | cons c text ih =>
      have hlt := h.lt
      have hc : mem s = c := h.holds.1
      have hne : c ≠ 0 := h.nonzero c List.mem_cons_self
      rw [scan, if_pos (by omega), hc]
      by_cases hdelim : delim c
      · rw [if_pos (.inr hdelim), List.takeWhile_cons_of_neg (by simpa using hdelim)]
        rfl
      · rw [if_neg (by simp [hne, hdelim]), ih h.tail,
          List.takeWhile_cons_of_pos (by simpa using hdelim), List.length_cons]
        congr 1
        omega

theorem StrAt.stringAt_eq (h : StrAt size mem s text) : stringAt size mem s = some text := by
  have htake : (text.takeWhile fun _ => !false) = text :=
    List.takeWhile_eq_self_iff.2 fun _ _ => rfl
  rw [stringAt, scan_spec h, htake, Option.map_some, Nat.add_sub_cancel_left,
    (holds_append.1 h.holds).1.slice_eq]

theorem StrAt.unique {text' : CString} (h : StrAt size mem s text) (h' : StrAt size mem s text') :
    text = text' :=
  Option.some.inj (h.stringAt_eq.symm.trans h'.stringAt_eq)

/-- What a string function sees of a list that lies in the block. -/
theorem strAt_cstr (h : Holds mem s (text ++ [0])) (hlt : s + text.length < size) :
    StrAt size mem s (cstr text) := by
  have happend := List.takeWhile_append_dropWhile (p := (· != (0 : Byte))) (l := text)
  refine ⟨?_, fun c hc => by simpa using List.mem_takeWhile_imp hc, ?_⟩
  · rw [← happend, List.append_assoc, holds_append] at h
    rw [holds_append]
    refine ⟨h.1, ?_, trivial⟩
    have hnot := List.head?_dropWhile_not (· != (0 : Byte)) text
    cases hdrop : text.dropWhile (· != 0) with
    | nil =>
        rw [hdrop] at h
        exact h.2.1
    | cons c rest =>
        rw [hdrop] at h hnot
        exact h.2.1.trans (by simpa using hnot)
  · have hle := (List.takeWhile_sublist (· != (0 : Byte)) (l := text)).length_le
    rw [cstr]
    omega

theorem Written.strAt (h : Written mem s e text mem') (hlt : s + text.length < size) :
    StrAt size mem' s (cstr text) :=
  strAt_cstr h.holds hlt

theorem strAt_strdup {text : CString} (h : ∀ c ∈ text, c ≠ 0) :
    StrAt (text.length + 1) (strdup text) 0 text where
  holds := by
    apply holds_of_getElem
    intro i hi
    rw [Nat.zero_add, strdup, List.getElem_append]
    split
    · next hlt => exact List.getD_eq_getElem _ _ hlt
    · next hle =>
        rw [List.getD_eq_default _ _ (by omega)]
        simp
  nonzero := h
  lt := by omega

/-- Some string starts at every byte of a block that ends in a NUL. -/
theorem exists_strAt (hend : mem (size - 1) = 0) (hs : s < size) :
    ∃ text, StrAt size mem s text := by
  induction hn : size - s using Nat.strong_induction_on generalizing s with
  | _ n ih =>
      by_cases hzero : mem s = 0
      · exact ⟨[], ⟨hzero, trivial⟩, fun c hc => absurd hc List.not_mem_nil, by simpa using hs⟩
      · have hnext : s + 1 < size := by
          by_contra hlast
          have heq : s = size - 1 := by omega
          exact hzero (heq ▸ hend)
        obtain ⟨text, htext⟩ := ih (size - (s + 1)) (by omega) hnext rfl
        refine ⟨mem s :: text, ⟨rfl, htext.holds⟩, ?_, ?_⟩
        · rw [List.forall_mem_cons]
          exact ⟨hzero, htext.nonzero⟩
        · have hlt := htext.lt
          rw [List.length_cons]
          omega

/-! ## Cutting -/

/-- A string without delimiters. -/
theorem strsepAt_last (h : StrAt size mem s text) {delim : Byte → Bool}
    (hnone : ∀ c ∈ text, delim c = false) : strsepAt size mem delim s = some (none, mem) := by
  have htake : (text.takeWhile fun c => !delim c) = text :=
    List.takeWhile_eq_self_iff.2 fun c hc => by rw [hnone c hc]; rfl
  rw [strsepAt, scan_spec h, htake, Option.map_some, if_pos h.end_eq]

/-- A string up to its first delimiter. -/
theorem strsepAt_next {first rest : CString} {c : Byte} {delim : Byte → Bool}
    (h : StrAt size mem s (first ++ c :: rest)) (hnone : ∀ c ∈ first, delim c = false)
    (hc : delim c = true) :
    strsepAt size mem delim s =
      some (some (s + first.length + 1), update mem (s + first.length) 0) := by
  have htake : ((first ++ c :: rest).takeWhile fun c => !delim c) = first := by
    rw [List.takeWhile_append_of_pos fun c hc => by rw [hnone c hc]; rfl,
      List.takeWhile_cons_of_neg (by simpa using hc), List.append_nil]
  have hmem : mem (s + first.length) = c := (holds_append.1
    (holds_append.1 h.holds).1).2.1
  have hne : c ≠ 0 := h.nonzero c (by simp)
  rw [strsepAt, scan_spec h, htake, Option.map_some, if_neg (hmem ▸ hne)]

theorem StrAt.cut_first {first rest : CString} {c : Byte}
    (h : StrAt size mem s (first ++ c :: rest)) :
    StrAt size (update mem (s + first.length) 0) s first where
  holds := by
    rw [holds_append]
    refine ⟨?_, update_self .., trivial⟩
    exact ((holds_append.1 (holds_append.1 h.holds).1).1).congr fun i _ hi =>
      update_of_ne hi.ne _ _
  nonzero c hc := h.nonzero c (List.mem_append_left _ hc)
  lt := by
    have hlt := h.lt
    rw [List.length_append] at hlt
    omega

theorem StrAt.cut_rest {first rest : CString} {c : Byte}
    (h : StrAt size mem s (first ++ c :: rest)) :
    StrAt size (update mem (s + first.length) 0) (s + first.length + 1) rest where
  holds := by
    have hholds := h.holds
    rw [List.append_assoc, holds_append] at hholds
    exact hholds.2.2.congr fun i hi _ => update_of_ne (by omega) _ _
  nonzero c hc := h.nonzero c (List.mem_append_right _ (List.mem_cons_of_mem _ hc))
  lt := by
    have hlt := h.lt
    rw [List.length_append, List.length_cons] at hlt
    omega

/-! ## Fields and values -/

theorem length_cstr_decoded_le (text : CString) : (cstr (decoded text)).length ≤ text.length :=
  ((List.takeWhile_sublist (· != (0 : Byte))).length_le).trans (length_decoded_le text)

section Component

variable {V : Type*} {st : Parsed V} {name raw rest : CString} (ignoreUnknown : Bool)

/-- A component after it is cut at its equal sign and the name is decoded. -/
structure Named (size s : ℕ) (st : Parsed V) (name raw : CString) (mem' : ℕ → Byte) :
    Prop where
  head : st.mem s ≠ 0
  cut : strsepAt size st.mem (· == 61) s =
    some (some (s + name.length + 1), update st.mem (s + name.length) 0)
  head' : update st.mem (s + name.length) 0 s ≠ 0
  decode : ∃ b, qDecode size (update st.mem (s + name.length) 0) s = some (mem', b)
  field : StrAt size mem' s (cstr (decoded name))
  value : StrAt size mem' (s + name.length + 1) raw
  before : ∀ i < s, mem' i = st.mem i
  after : ∀ i, s + name.length < i → mem' i = st.mem i

theorem named_spec (h : StrAt size st.mem s (name ++ 61 :: raw)) (hname : name ≠ [])
    (hequal : 61 ∉ name) : ∃ mem', Named size s st name raw mem' := by
  have hnone : ∀ c ∈ name, (c == 61) = false := fun c hc => by
    rw [beq_eq_false_iff_ne]
    intro heq
    exact hequal (heq ▸ hc)
  have hfirst := h.cut_first
  obtain ⟨mem', b, hrun, hwritten⟩ := qDecode_spec hfirst hname
  have hle := length_decoded_le name
  have hlt := hfirst.lt
  exact ⟨mem',
    { head := fun hzero => by simpa using h.head_eq_zero.1 hzero
      cut := strsepAt_next h hnone rfl
      head' := fun hzero => hname (hfirst.head_eq_zero.1 hzero)
      decode := ⟨b, hrun⟩
      field := hwritten.strAt (by omega)
      value := h.cut_rest.congr fun i hi _ => hwritten.after i (by omega)
      before := fun i hi => (hwritten.before i hi).trans (update_of_ne (by omega) _ _)
      after := fun i hi => (hwritten.after i hi.le).trans (update_of_ne (by omega) _ _) }⟩

/-- Once the value is decoded, too, the field is set. -/
theorem Named.component_eq {mem₁ mem₂ : ℕ → Byte} {b : Bool} {value : CString}
    (h : Named size s st name raw mem₁)
    (hdecode : qDecode size mem₁ (s + name.length + 1) = some (mem₂, b))
    (hbefore : ∀ i < s + name.length + 1, mem₂ i = mem₁ i)
    (hvalue : StrAt size mem₂ (s + name.length + 1) value) :
    component size ignoreUnknown st s =
      (setField ignoreUnknown (cstr (decoded name)) (s + name.length + 1) value st.table).bind
        fun table => .ok ⟨mem₂, table⟩ := by
  obtain ⟨b', hname⟩ := h.decode
  have hfield : StrAt size mem₂ s (cstr (decoded name)) :=
    h.field.congr fun i _ hi => hbefore i (by
      have hle := length_cstr_decoded_le name
      omega)
  rw [component, if_neg h.head, h.cut]
  simp only [Outcome.reading, Option.elim_some, if_neg h.head', hname, Option.some_or, hdecode,
    hfield.stringAt_eq, hvalue.stringAt_eq]

/-- A component with a value. -/
theorem component_value (h : StrAt size st.mem s (name ++ 61 :: raw)) (hname : name ≠ [])
    (hequal : 61 ∉ name) (hraw : raw ≠ []) :
    ∃ mem', component size ignoreUnknown st s =
        (setField ignoreUnknown (cstr (decoded name)) (s + name.length + 1)
          (cstr (decoded raw)) st.table).bind (fun table => .ok ⟨mem', table⟩) ∧
      StrAt size mem' (s + name.length + 1) (cstr (decoded raw)) ∧
      (∀ i < s, mem' i = st.mem i) ∧
      ∀ i, s + name.length + 1 + raw.length ≤ i → mem' i = st.mem i := by
  obtain ⟨mem₁, hnamed⟩ := named_spec h hname hequal
  obtain ⟨mem₂, b, hrun, hwritten⟩ := qDecode_spec hnamed.value hraw
  have hlt := hnamed.value.lt
  have hle := length_decoded_le raw
  have hvalue : StrAt size mem₂ (s + name.length + 1) (cstr (decoded raw)) :=
    hwritten.strAt (by omega)
  refine ⟨mem₂, hnamed.component_eq ignoreUnknown hrun hwritten.before hvalue, hvalue,
    fun i hi => ?_, fun i hi => ?_⟩
  · rw [hwritten.before i (by omega), hnamed.before i hi]
  · rw [hwritten.after i hi, hnamed.after i (by omega)]

/-- A component with an empty value decodes the string behind it. -/
theorem component_empty (h : StrAt size st.mem s (name ++ [61])) (hname : name ≠ [])
    (hequal : 61 ∉ name) (hrest : StrAt size st.mem (s + name.length + 2) rest) :
    ∃ mem', component size ignoreUnknown st s =
        (setField ignoreUnknown (cstr (decoded name)) (s + name.length + 1) []
          st.table).bind (fun table => .ok ⟨mem', table⟩) ∧
      StrAt size mem' (s + name.length + 1) [] ∧
      (∀ i < s, mem' i = st.mem i) ∧
      Holds mem' (s + name.length + 2) (decoded rest ++ [0]) ∧
      ∀ i, s + name.length + 2 + rest.length ≤ i → mem' i = st.mem i := by
  obtain ⟨mem₁, hnamed⟩ := named_spec h hname hequal
  have hrest₁ : StrAt size mem₁ (s + name.length + 1 + 1) rest :=
    hrest.congr fun i hi _ => hnamed.after i (by omega)
  obtain ⟨mem₂, b, hrun, hwritten⟩ := qDecode_nul hnamed.value.holds.1 hrest₁
  have hvalue : StrAt size mem₂ (s + name.length + 1) [] :=
    hnamed.value.congr fun i _ hi => hwritten.before i (Nat.lt_succ_of_le hi)
  have hbefore : ∀ i < s + name.length + 1, mem₂ i = mem₁ i := fun i hi =>
    hwritten.before i (by omega)
  refine ⟨mem₂, hnamed.component_eq ignoreUnknown hrun hbefore hvalue, hvalue, fun i hi => ?_,
    hwritten.holds, fun i hi => ?_⟩
  · rw [hbefore i (by omega), hnamed.before i hi]
  · rw [hwritten.after i (by omega), hnamed.after i (by omega)]

/-- At the end of the block, it reads past this end. -/
theorem component_fault (h : StrAt size st.mem s (name ++ [61])) (hname : name ≠ [])
    (hequal : 61 ∉ name) (hend : s + name.length + 2 = size) :
    component size ignoreUnknown st s = .fault := by
  obtain ⟨mem₁, hnamed⟩ := named_spec h hname hequal
  obtain ⟨b, hdecode⟩ := hnamed.decode
  have hfault := qDecode_fault hnamed.value.holds.1 (by omega)
  rw [component, if_neg hnamed.head, hnamed.cut]
  simp only [Outcome.reading, Option.elim_some, if_neg hnamed.head', hdecode, Option.some_or,
    hfault, Option.elim_none]

/-- A component without a name is left out. -/
theorem component_skip (h : StrAt size st.mem s text) (htext : ∀ c ∈ text.head?, c = 61) :
    ∃ mem', component size ignoreUnknown st s = .ok ⟨mem', st.table⟩ ∧
      ∀ i, i < s ∨ s + text.length ≤ i → mem' i = st.mem i := by
  cases text with
  | nil =>
      rw [component, if_pos h.holds.1]
      exact ⟨st.mem, rfl, fun _ _ => rfl⟩
  | cons c text =>
      obtain rfl : c = 61 := htext c rfl
      have hcut : strsepAt size st.mem (· == 61) s = some (some (s + 1), update st.mem s 0) :=
        strsepAt_next (show StrAt size st.mem s ([] ++ 61 :: text) from h) (by simp) rfl
      rw [component, if_neg (mt h.head_eq_zero.1 (List.cons_ne_nil _ _)), hcut]
      refine ⟨update st.mem s 0, ?_, fun i hi => update_of_ne (by simp at hi; omega) _ _⟩
      simp [Outcome.reading]

/-- A component without an equal sign has its value where its decoded name ends. -/
theorem component_bare (h : StrAt size st.mem s name) (hname : name ≠ [])
    (hequal : 61 ∉ name) :
    ∃ mem₁, StrAt size mem₁ s (cstr (decoded name)) ∧ (∀ i < s, mem₁ i = st.mem i) ∧
      (∀ i, s + name.length ≤ i → mem₁ i = st.mem i) ∧
      (qDecode size mem₁ (s + (cstr (decoded name)).length) = none →
        component size ignoreUnknown st s = .fault) ∧
      ∀ mem₂ b, qDecode size mem₁ (s + (cstr (decoded name)).length) = some (mem₂, b) →
        (∀ i ≤ s + (cstr (decoded name)).length, mem₂ i = mem₁ i) →
        component size ignoreUnknown st s =
          (setField ignoreUnknown (cstr (decoded name)) (s + (cstr (decoded name)).length) []
            st.table).bind fun table => .ok ⟨mem₂, table⟩ := by
  have hhead : st.mem s ≠ 0 := fun hzero => hname (h.head_eq_zero.1 hzero)
  have hcut : strsepAt size st.mem (· == 61) s = some (none, st.mem) :=
    strsepAt_last h fun c hc => by
      rw [beq_eq_false_iff_ne]
      intro heq
      exact hequal (heq ▸ hc)
  obtain ⟨mem₁, b₁, hdecode, hwritten⟩ := qDecode_spec h hname
  have hlt := h.lt
  have hle := length_decoded_le name
  have hle' := length_cstr_decoded_le name
  have hfield : StrAt size mem₁ s (cstr (decoded name)) := hwritten.strAt (by omega)
  refine ⟨mem₁, hfield, hwritten.before, hwritten.after, fun hnone => ?_,
    fun mem₂ b hrun hsame => ?_⟩
  · rw [component, if_neg hhead, hcut]
    simp only [Outcome.reading, Option.elim_some, if_neg hhead, hdecode, Option.none_or,
      hfield.stringAt_eq, Option.map_some, hnone, Option.elim_none]
  · have hfield₂ : StrAt size mem₂ s (cstr (decoded name)) :=
      hfield.congr fun i _ hi => hsame i hi
    have hvalue : StrAt size mem₂ (s + (cstr (decoded name)).length) [] :=
      ⟨⟨(hsame _ le_rfl).trans hfield.end_eq, trivial⟩, fun c hc => absurd hc List.not_mem_nil,
        by simp only [List.length_nil]; omega⟩
    rw [component, if_neg hhead, hcut]
    simp only [Outcome.reading, Option.elim_some, if_neg hhead, hdecode, Option.none_or,
      hfield.stringAt_eq, Option.map_some, hrun, hfield₂.stringAt_eq, hvalue.stringAt_eq]

/-! ## The loop -/

/-- The last component. -/
theorem queryLoop_last {ignoreUnknown : Bool} (h : StrAt size st.mem s text)
    (htext : ∀ c ∈ text, c ≠ 38 ∧ c ≠ 59) :
    queryLoop size ignoreUnknown st s = component size ignoreUnknown st s := by
  have hsep : strsepAt size st.mem (fun c => c == 38 || c == 59) s = some (none, st.mem) :=
    strsepAt_last h fun c hc => by simp [htext c hc]
  rw [queryLoop]
  split <;> simp_all

/-- A component and the rest of the query. -/
theorem queryLoop_next {ignoreUnknown : Bool} {first rest : CString} {c : Byte}
    (h : StrAt size st.mem s (first ++ c :: rest)) (hfirst : ∀ c ∈ first, c ≠ 38 ∧ c ≠ 59)
    (hc : c = 38 ∨ c = 59) :
    queryLoop size ignoreUnknown st s =
      (component size ignoreUnknown { st with mem := update st.mem (s + first.length) 0 }
        s).bind fun st => queryLoop size ignoreUnknown st (s + first.length + 1) := by
  have hsep : strsepAt size st.mem (fun c => c == 38 || c == 59) s =
      some (some (s + first.length + 1), update st.mem (s + first.length) 0) :=
    strsepAt_next h (fun c hc => by simp [hfirst c hc]) (by simpa using hc)
  rw [queryLoop]
  split <;> simp_all

end Component

/-! ## What the fields have been given -/

/-- The strings of a field table after a field has been set. -/
structure Gave (table : List (Field UString)) (f : CString) (ptr : ℕ)
    (table' : List (Field UString)) : Prop where
  same : (table'.map fun q => (q.qField, q.qIsReq)) = table.map fun q => (q.qField, q.qIsReq)
  parse : ∀ q ∈ table', q.qParse = qStringParse
  find : ∀ g, (table'.find? fun q => q.qField = g) =
    if g = f then (table.find? fun q => q.qField = g).map fun q =>
      { q with qU := .pointer ptr, qIsSet := true }
    else table.find? fun q => q.qField = g

theorem setField_known {table : List (Field UString)}
    (hparse : ∀ q ∈ table, q.qParse = qStringParse) {f : CString}
    (hknown : f ∈ table.map Field.qField) (ignoreUnknown : Bool) (ptr : ℕ) (value : CString) :
    ∃ table', setField ignoreUnknown f ptr value table = .ok table' ∧ Gave table f ptr table' := by
  induction table with
  | nil => cases hknown
  | cons q table ih =>
      rw [List.forall_mem_cons] at hparse
      rw [setField]
      by_cases hq : q.qField = f
      · have hstring : q.qParse q.qU ptr value = some (.pointer ptr) := by
          rw [hparse.1]
          rfl
        rw [if_pos hq, hstring]
        refine ⟨_, rfl, ⟨rfl, ?_, fun g => ?_⟩⟩
        · rw [List.forall_mem_cons]
          exact ⟨hparse.1, hparse.2⟩
        · by_cases hg : g = f
          · rw [if_pos hg, List.find?_cons_of_pos (by simp [hq, hg]),
              List.find?_cons_of_pos (by simp [hq, hg])]
            rfl
          · rw [if_neg hg, List.find?_cons_of_neg (by simp [hq, Ne.symm hg]),
              List.find?_cons_of_neg (by simp [hq, Ne.symm hg])]
      · have hlater : f ∈ table.map Field.qField := by
          rw [List.map_cons, List.mem_cons] at hknown
          exact hknown.resolve_left (Ne.symm hq)
        obtain ⟨table', hset, hgave⟩ := ih hparse.2 hlater
        rw [if_neg hq, hset]
        refine ⟨_, rfl, ⟨?_, ?_, fun g => ?_⟩⟩
        · rw [List.map_cons, List.map_cons, hgave.same]
        · rw [List.forall_mem_cons]
          exact ⟨hparse.1, hgave.parse⟩
        · by_cases hqg : q.qField = g
          · have hg : g ≠ f := fun hg => hq (hqg.trans hg)
            rw [if_neg hg, List.find?_cons_of_pos (by simpa using hqg),
              List.find?_cons_of_pos (by simpa using hqg)]
          · rw [List.find?_cons_of_neg (by simpa using hqg),
              List.find?_cons_of_neg (by simpa using hqg), hgave.find]

theorem setField_unknown {V : Type*} {table table' : List (Field V)} {f : CString}
    (hunknown : f ∉ table.map Field.qField) {ignoreUnknown : Bool} {ptr : ℕ} {value : CString}
    (hset : setField ignoreUnknown f ptr value table = .ok table') : table' = table := by
  induction table generalizing table' with
  | nil =>
      rw [setField] at hset
      split at hset
      · cases hset
        rfl
      · cases hset
  | cons q table ih =>
      rw [List.map_cons, List.mem_cons, not_or] at hunknown
      rw [setField, if_neg (Ne.symm hunknown.1)] at hset
      cases hrest : setField ignoreUnknown f ptr value table with
      | fault => rw [hrest] at hset; cases hset
      | error => rw [hrest] at hset; cases hset
      | ok rest =>
          rw [hrest] at hset
          cases hset
          rw [ih hunknown.2 hrest]

/-- The string that a field has been given. -/
def given (size : ℕ) (st : Parsed UString) (g : CString) : Option CString :=
  (st.table.find? fun q => q.qField = g).bind fun q =>
    if q.qIsSet then
      match q.qU with
      | .pointer ptr => stringAt size st.mem ptr
      | .initial s => s
    else none

/-- Every field that is set points to a string before `s`. -/
structure Fields (size : ℕ) (st : Parsed UString) (s : ℕ) : Prop where
  parse : ∀ q ∈ st.table, q.qParse = qStringParse
  below : ∀ {g q}, (st.table.find? fun q => q.qField = g) = some q → q.qIsSet = true →
    ∃ ptr text, q.qU = .pointer ptr ∧ StrAt size st.mem ptr text ∧ ptr + text.length < s

variable {st : Parsed UString} {table' : List (Field UString)} {f value : CString} {ptr s' : ℕ}

/-- Later strings and decoding do not disturb what the fields have. -/
theorem Fields.mono (h : Fields size st s) (hmem : ∀ i < s, mem' i = st.mem i) (hle : s ≤ s') :
    Fields size ⟨mem', st.table⟩ s' ∧ ∀ g, given size ⟨mem', st.table⟩ g = given size st g := by
  have hkept : ∀ {ptr text}, StrAt size st.mem ptr text → ptr + text.length < s →
      StrAt size mem' ptr text := fun htext hlt =>
    htext.congr fun i _ hi => hmem i (by omega)
  refine ⟨⟨h.parse, fun hfind hset => ?_⟩, fun g => ?_⟩
  · obtain ⟨ptr, text, hptr, htext, hlt⟩ := h.below hfind hset
    exact ⟨ptr, text, hptr, hkept htext hlt, hlt.trans_le hle⟩
  · rw [given, given]
    cases hfind : st.table.find? fun q => q.qField = g with
    | none => rfl
    | some q =>
        simp only [Option.bind_some]
        split
        · next hset =>
            obtain ⟨ptr, text, hptr, htext, hlt⟩ := h.below hfind hset
            rw [hptr]
            simp only [htext.stringAt_eq, (hkept htext hlt).stringAt_eq]
        · rfl

/-- A field that is in the table gets its value. -/
theorem Fields.set (h : Fields size st s) (hmem : ∀ i < s, mem' i = st.mem i) (hle : s ≤ s')
    (hgave : Gave st.table f ptr table') (hvalue : StrAt size mem' ptr value)
    (hlt : ptr + value.length < s') (hknown : f ∈ st.table.map Field.qField) :
    Fields size ⟨mem', table'⟩ s' ∧
      ∀ g, given size ⟨mem', table'⟩ g = if g = f then some value else given size st g := by
  obtain ⟨hfields, hgiven⟩ := h.mono hmem hle
  refine ⟨⟨hgave.parse, fun {g q} hfind hset => ?_⟩, fun g => ?_⟩
  · rw [hgave.find] at hfind
    split at hfind
    · obtain ⟨q', -, rfl⟩ := Option.map_eq_some_iff.1 hfind
      exact ⟨ptr, value, rfl, hvalue, hlt⟩
    · exact hfields.below hfind hset
  · rw [given, hgave.find]
    by_cases hg : g = f
    · obtain ⟨q, hq, hname⟩ := List.mem_map.1 hknown
      have hsome : (st.table.find? fun q => q.qField = g).isSome :=
        List.find?_isSome.2 ⟨q, hq, by simpa [hg] using hname⟩
      obtain ⟨q', hfind⟩ := Option.isSome_iff_exists.1 hsome
      rw [if_pos hg, if_pos hg, hfind, Option.map_some, Option.bind_some, if_pos rfl]
      exact hvalue.stringAt_eq
    · rw [if_neg hg, if_neg hg, ← hgiven, given]

end Xltop.Query
