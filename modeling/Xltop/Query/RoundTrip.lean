import Xltop.Query.Weight
import Mathlib.Data.List.Nodup

/-!
# From a query back to its fields

A query that was put together from fields and values is parsed pair by pair.  An
empty value decodes all that comes after it, so what follows the first one is
parsed as if it had never been escaped.
-/

namespace Xltop.Query

open Function
open Xltop.Memory
open Xltop.Text

/-! ## Escaping -/

theorem hexDigit_spec : ∀ n < 16, isXDigit (hexDigit n) = true ∧ digitValue (hexDigit n) = n ∧
    hexDigit n ≠ 0 ∧ hexDigit n ≠ 38 ∧ hexDigit n ≠ 59 ∧ hexDigit n ≠ 61 := by
  decide

theorem isPlain_ne {c : Byte} (h : isPlain c) :
    c ≠ 37 ∧ c ≠ 43 ∧ c ≠ 0 ∧ c ≠ 38 ∧ c ≠ 59 ∧ c ≠ 61 := by
  refine ⟨?_, ?_, ?_, ?_, ?_, ?_⟩ <;>
  · rintro rfl
    exact absurd h (by decide)

theorem hexValue_hexDigit (c : Byte) :
    hexValue (hexDigit (c.toNat / 16)) (hexDigit (c.toNat % 16)) = c := by
  have hlt := c.toNat_lt
  rw [hexValue, (hexDigit_spec _ (by omega)).2.1, (hexDigit_spec _ (by omega)).2.1,
    Nat.div_add_mod', UInt8.ofNat_toNat]

theorem decoded_escapeByte (c : Byte) (rest : CString) :
    decoded (escapeByte c ++ rest) = c :: decoded rest := by
  rw [escapeByte]
  have hlt := c.toNat_lt
  split
  · next hplain =>
      obtain ⟨hpercent, hplus, -⟩ := isPlain_ne hplain
      rw [List.singleton_append, decoded_byte hpercent, if_neg hplus]
  · have hboth : (isXDigit (hexDigit (c.toNat / 16)) && isXDigit (hexDigit (c.toNat % 16))) =
        true := by
      rw [(hexDigit_spec _ (by omega)).1, (hexDigit_spec _ (by omega)).1]
      rfl
    rw [List.cons_append, List.cons_append, List.singleton_append, decoded_escape, if_pos hboth,
      hexValue_hexDigit]

theorem decoded_queryEscape (s rest : CString) :
    decoded (queryEscape s ++ rest) = s ++ decoded rest := by
  induction s with
  | nil => rfl
  | cons c s ih =>
      rw [queryEscape, List.flatMap_cons, List.append_assoc, decoded_escapeByte]
      exact congrArg (List.cons c) ih

/-- The bytes of an escaped string. -/
theorem queryEscape_ne {s : CString} {c : Byte} (hc : c ∈ queryEscape s) :
    c ≠ 0 ∧ c ≠ 38 ∧ c ≠ 59 ∧ c ≠ 61 := by
  obtain ⟨b, -, hb⟩ := List.mem_flatMap.1 hc
  have hlt := b.toNat_lt
  rw [escapeByte] at hb
  split at hb
  · next hplain =>
      rw [List.mem_singleton.1 hb]
      exact (isPlain_ne hplain).2.2
  · simp only [List.mem_cons, List.not_mem_nil, or_false] at hb
    rcases hb with rfl | rfl | rfl
    · decide
    · exact (hexDigit_spec _ (by omega)).2.2
    · exact (hexDigit_spec _ (by omega)).2.2

theorem length_escapeByte (c : Byte) :
    (escapeByte c).length = if isPlain c then 1 else 3 := by
  rw [escapeByte]
  split <;> rfl

/-! ## Pairs in a query -/

/-- A field and a value that can be listed. -/
structure Listed (pair : CString × CString) : Prop where
  name_ne : pair.1 ≠ []
  nonzero : ∀ c ∈ pair.1 ++ pair.2, c ≠ 0

/-- A pair that decoding gives back from what `code` makes of it. -/
structure Coded (code : CString → CString) (pair : CString × CString) : Prop where
  name : decoded (code pair.1) = pair.1
  value : decoded (code pair.2) = pair.2
  name_ne : code pair.1 ≠ []
  value_nil : code pair.2 = [] ↔ pair.2 = []
  plain : ∀ c ∈ code pair.1 ++ code pair.2, c ≠ 38 ∧ c ≠ 59
  equal : 61 ∉ code pair.1

/-- A pair in a query. -/
def piece (code : CString → CString) (pair : CString × CString) : CString :=
  code pair.1 ++ 61 :: code pair.2

/-- The pairs before the last one. -/
def front (code : CString → CString) (pairs : List (CString × CString)) : CString :=
  pairs.flatMap fun pair => piece code pair ++ [38]

theorem front_cons (code : CString → CString) (pair : CString × CString)
    (pairs : List (CString × CString)) :
    front code (pair :: pairs) = piece code pair ++ 38 :: front code pairs := by
  rw [front, List.flatMap_cons, List.append_assoc]
  rfl

/-- The query of some pairs. -/
theorem buildQuery_concat (pairs : List (CString × CString)) (last : CString × CString) :
    buildQuery (pairs ++ [last]) = some (front queryEscape pairs ++ piece queryEscape last) := by
  induction pairs using List.reverseRecOn generalizing last with
  | nil => simp [buildQuery, queryAdd, front, piece]
  | append_singleton pairs pair ih =>
      have hprev := ih pair
      rw [buildQuery] at hprev ⊢
      rw [List.foldl_append, hprev]
      simp [queryAdd, front, piece]

theorem queryEscape_eq_nil {s : CString} : queryEscape s = [] ↔ s = [] := by
  constructor
  · intro h
    have hdecoded := decoded_queryEscape s []
    rw [h] at hdecoded
    simpa [decoded] using hdecoded.symm
  · rintro rfl
    rfl

theorem Listed.coded {pair : CString × CString} (h : Listed pair) : Coded queryEscape pair where
  name := by simpa [decoded] using decoded_queryEscape pair.1 []
  value := by simpa [decoded] using decoded_queryEscape pair.2 []
  name_ne := mt queryEscape_eq_nil.1 h.name_ne
  value_nil := queryEscape_eq_nil
  plain c hc := by
    rcases List.mem_append.1 hc with hc | hc
    · exact ⟨(queryEscape_ne hc).2.1, (queryEscape_ne hc).2.2.1⟩
    · exact ⟨(queryEscape_ne hc).2.1, (queryEscape_ne hc).2.2.1⟩
  equal h := (queryEscape_ne h).2.2.2 rfl

/-- A pair that need not have been escaped. -/
def Harmless (pair : CString × CString) : Prop :=
  (∀ c ∈ pair.1, isCut c = false ∧ c ≠ 61) ∧ ∀ c ∈ pair.2, isCut c = false

theorem isCut_eq_false {c : Byte} : isCut c = false ↔ c ≠ 37 ∧ c ≠ 43 ∧ c ≠ 38 ∧ c ≠ 59 := by
  simp [isCut, and_assoc]

theorem Listed.coded_id {pair : CString × CString} (h : Listed pair) (hharmless : Harmless pair) :
    Coded id pair where
  name := decoded_eq_self fun c hc => by
    obtain ⟨h37, h43, -⟩ := isCut_eq_false.1 (hharmless.1 c hc).1
    exact ⟨h37, h43⟩
  value := decoded_eq_self fun c hc => by
    obtain ⟨h37, h43, -⟩ := isCut_eq_false.1 (hharmless.2 c hc)
    exact ⟨h37, h43⟩
  name_ne := h.name_ne
  value_nil := Iff.rfl
  plain c hc := by
    rcases List.mem_append.1 hc with hc | hc
    · exact (isCut_eq_false.1 (hharmless.1 c hc).1).2.2
    · exact (isCut_eq_false.1 (hharmless.2 c hc)).2.2
  equal hc := (hharmless.1 61 hc).2 rfl

/-! ## Parsing pairs -/

/-- The last value that is listed for a field. -/
def lastValue (pairs : List (CString × CString)) (g : CString) : Option CString :=
  pairs.reverse.lookup g

theorem lastValue_append (pairs more : List (CString × CString)) (g : CString) :
    lastValue (pairs ++ more) g = (lastValue more g).or (lastValue pairs g) := by
  rw [lastValue, List.reverse_append, List.lookup_append, lastValue, lastValue]

theorem lastValue_singleton (pair : CString × CString) (g : CString) :
    lastValue [pair] g = if g = pair.1 then some pair.2 else none := by
  obtain ⟨f, v⟩ := pair
  by_cases hg : g = f
  · simp [lastValue, hg]
  · simp [lastValue, hg]

section Run

variable {size s e : ℕ} {st st' : Parsed UString} {pair : CString × CString}
  {pairs : List (CString × CString)} {code : CString → CString} {rest : CString}
  (ignoreUnknown : Bool)

/-- The fields after some pairs have been parsed, up to `s`. -/
structure Ran (size s : ℕ) (pairs : List (CString × CString)) (st st' : Parsed UString) :
    Prop where
  fields : Fields size st' s
  given : ∀ g, given size st' g = (lastValue pairs g).or (given size st g)
  same : (st'.table.map fun q => (q.qField, q.qIsReq)) =
    st.table.map fun q => (q.qField, q.qIsReq)

theorem qField_same {table table' : List (Field UString)}
    (h : (table'.map fun q => (q.qField, q.qIsReq)) = table.map fun q => (q.qField, q.qIsReq)) :
    table'.map Field.qField = table.map Field.qField := by
  have hnames := congrArg (List.map Prod.fst) h
  simpa [List.map_map, comp_def] using hnames

theorem Ran.trans {s₁ : ℕ} {st₁ : Parsed UString} {more : List (CString × CString)}
    (h : Ran size s pairs st st₁) (h' : Ran size s₁ more st₁ st') :
    Ran size s₁ (pairs ++ more) st st' where
  fields := h'.fields
  given g := by rw [h'.given, h.given, lastValue_append, Option.or_assoc]
  same := h'.same.trans h.same

/-- Setting the field of one pair. -/
theorem ran_singleton {mem' : ℕ → Byte} {ptr s' : ℕ} (hfields : Fields size st s)
    (hknown : pair.1 ∈ st.table.map Field.qField) (hmem : ∀ i < s, mem' i = st.mem i)
    (hle : s ≤ s') (hvalue : StrAt size mem' ptr pair.2) (hlt : ptr + pair.2.length < s') :
    ∃ table', (setField ignoreUnknown pair.1 ptr pair.2 st.table).bind
        (fun table => .ok (⟨mem', table⟩ : Parsed UString)) = .ok ⟨mem', table'⟩ ∧
      Ran size s' [pair] st ⟨mem', table'⟩ := by
  obtain ⟨table', hset, hgave⟩ := setField_known hfields.parse hknown ignoreUnknown ptr pair.2
  obtain ⟨hfields', hgiven⟩ := hfields.set hmem hle hgave hvalue hlt hknown
  rw [hset]
  refine ⟨table', rfl, hfields', fun g => ?_, hgave.same⟩
  rw [hgiven, lastValue_singleton]
  split <;> rfl

theorem Listed.cstr_eq (h : Listed pair) : cstr pair.1 = pair.1 ∧ cstr pair.2 = pair.2 := by
  constructor
  · exact cstr_of_nul fun hnul => h.nonzero 0 (List.mem_append_left _ hnul) rfl
  · exact cstr_of_nul fun hnul => h.nonzero 0 (List.mem_append_right _ hnul) rfl

/-- A pair whose value is not empty. -/
theorem component_pair (hlisted : Listed pair) (hcoded : Coded code pair)
    (hvalue : pair.2 ≠ []) (hfields : Fields size st s)
    (hknown : pair.1 ∈ st.table.map Field.qField) (h : StrAt size st.mem s (piece code pair)) :
    ∃ st', component size ignoreUnknown st s = .ok st' ∧
      Ran size (s + (piece code pair).length + 1) [pair] st st' ∧
      ∀ i, s + (piece code pair).length ≤ i → st'.mem i = st.mem i := by
  obtain ⟨mem', hok, hstring, hbefore, hafter⟩ := component_value ignoreUnknown h hcoded.name_ne
    hcoded.equal (mt hcoded.value_nil.1 hvalue)
  have hlength : (piece code pair).length =
      (code pair.1).length + 1 + (code pair.2).length := by
    rw [piece, List.length_append, List.length_cons]
    omega
  have hle := length_decoded_le (code pair.2)
  rw [hcoded.name, hcoded.value, hlisted.cstr_eq.1, hlisted.cstr_eq.2] at hok
  rw [hcoded.value, hlisted.cstr_eq.2] at hstring
  rw [hcoded.value] at hle
  obtain ⟨table', hset, hran⟩ := ran_singleton ignoreUnknown hfields hknown hbefore
    (by omega : s ≤ s + (piece code pair).length + 1) hstring (by omega)
  exact ⟨⟨mem', table'⟩, hok.trans hset, hran, fun i hi => hafter i (by omega)⟩

/-- A pair whose value is empty: what comes behind it is decoded. -/
theorem component_pair_empty (hlisted : Listed pair) (hcoded : Coded code pair)
    (hvalue : pair.2 = []) (hfields : Fields size st s)
    (hknown : pair.1 ∈ st.table.map Field.qField) (h : StrAt size st.mem s (piece code pair))
    (hrest : StrAt size st.mem (s + (piece code pair).length + 1) rest) :
    ∃ st', component size ignoreUnknown st s = .ok st' ∧
      Ran size (s + (piece code pair).length + 1) [pair] st st' ∧
      Holds st'.mem (s + (piece code pair).length + 1) (decoded rest ++ [0]) ∧
      ∀ i, s + (piece code pair).length + 1 + rest.length ≤ i → st'.mem i = st.mem i := by
  have hpiece : piece code pair = code pair.1 ++ [61] := by
    rw [piece, hcoded.value_nil.2 hvalue]
  have hlength : (piece code pair).length = (code pair.1).length + 1 := by
    rw [hpiece, List.length_append, List.length_singleton]
  have he : s + (piece code pair).length + 1 = s + (code pair.1).length + 2 := by omega
  rw [he] at hrest ⊢
  rw [hpiece] at h
  obtain ⟨mem', hok, hstring, hbefore, hdecoded, hafter⟩ :=
    component_empty ignoreUnknown h hcoded.name_ne hcoded.equal hrest
  rw [hcoded.name, hlisted.cstr_eq.1, ← hvalue] at hok
  rw [← hvalue] at hstring
  obtain ⟨table', hset, hran⟩ := ran_singleton ignoreUnknown hfields hknown hbefore
    (by omega : s ≤ s + (code pair.1).length + 2) hstring (by rw [hvalue, List.length_nil]; omega)
  exact ⟨⟨mem', table'⟩, hok.trans hset, hran, hdecoded, hafter⟩

theorem Coded.piece_plain (h : Coded code pair) : ∀ c ∈ piece code pair, c ≠ 38 ∧ c ≠ 59 := by
  intro c hc
  rcases List.mem_append.1 hc with hname | hvalue
  · exact h.plain c (List.mem_append_left _ hname)
  · rcases List.mem_cons.1 hvalue with rfl | hvalue
    · decide
    · exact h.plain c (List.mem_append_right _ hvalue)

/-- A pair that is not the last one. -/
theorem queryLoop_pair (hlisted : Listed pair) (hcoded : Coded code pair)
    (hknown : pair.1 ∈ st.table.map Field.qField) (hfields : Fields size st s)
    (h : StrAt size st.mem s (piece code pair ++ 38 :: rest))
    (hnonzero : pair.2 = [] → ∀ c ∈ decoded rest, c ≠ 0) :
    ∃ st', queryLoop size ignoreUnknown st s =
        queryLoop size ignoreUnknown st' (s + (piece code pair).length + 1) ∧
      Ran size (s + (piece code pair).length + 1) [pair] st st' ∧
      StrAt size st'.mem (s + (piece code pair).length + 1)
        (if pair.2 = [] then decoded rest else rest) ∧
      ∀ i, s + (piece code pair).length + 1 + rest.length ≤ i → st'.mem i = st.mem i := by
  have hbefore : ∀ i < s, update st.mem (s + (piece code pair).length) 0 i = st.mem i :=
    fun i hi => update_of_ne (by omega) _ _
  have hafter : ∀ i, s + (piece code pair).length < i →
      update st.mem (s + (piece code pair).length) 0 i = st.mem i :=
    fun i hi => update_of_ne (by omega) _ _
  obtain ⟨hfields₀, hgiven₀⟩ := hfields.mono hbefore le_rfl
  have hran : ∀ {st' s'}, Ran size s' [pair]
      { st with mem := update st.mem (s + (piece code pair).length) 0 } st' →
      Ran size s' [pair] st st' := fun h =>
    ⟨h.fields, fun g => by rw [h.given, hgiven₀], h.same⟩
  rw [queryLoop_next h hcoded.piece_plain (.inl rfl)]
  by_cases hvalue : pair.2 = []
  · obtain ⟨st', hok, hran', hholds, hsame⟩ := component_pair_empty ignoreUnknown hlisted hcoded
      hvalue hfields₀ hknown h.cut_first h.cut_rest
    have hlt := h.cut_rest.lt
    have hle := length_decoded_le rest
    rw [hok, if_pos hvalue]
    exact ⟨st', rfl, hran hran', ⟨hholds, hnonzero hvalue, by omega⟩, fun i hi =>
      (hsame i hi).trans (hafter i (by omega))⟩
  · obtain ⟨st', hok, hran', hsame⟩ := component_pair ignoreUnknown hlisted hcoded hvalue hfields₀
      hknown h.cut_first
    rw [hok, if_neg hvalue]
    exact ⟨st', rfl, hran hran', h.cut_rest.congr fun i hi _ => hsame i (by omega), fun i hi =>
      (hsame i (by omega)).trans (hafter i (by omega))⟩

/-- The last pair, when something comes after its empty value. -/
theorem queryLoop_end (hlisted : Listed pair) (hcoded : Coded code pair)
    (hknown : pair.1 ∈ st.table.map Field.qField) (hfields : Fields size st s)
    (h : StrAt size st.mem s (piece code pair)) (hend : st.mem (size - 1) = 0)
    (hroom : pair.2 ≠ [] ∨ s + (piece code pair).length + 1 < size) :
    ∃ st', queryLoop size ignoreUnknown st s = .ok st' ∧
      Ran size (s + (piece code pair).length + 1) [pair] st st' := by
  rw [queryLoop_last h hcoded.piece_plain]
  by_cases hvalue : pair.2 = []
  · obtain ⟨rest, hrest⟩ := exists_strAt hend (hroom.resolve_left (not_not_intro hvalue))
    obtain ⟨st', hok, hran, -⟩ := component_pair_empty ignoreUnknown hlisted hcoded hvalue hfields
      hknown h hrest
    exact ⟨st', hok, hran⟩
  · obtain ⟨st', hok, hran, -⟩ := component_pair ignoreUnknown hlisted hcoded hvalue hfields
      hknown h
    exact ⟨st', hok, hran⟩

/-- The last pair, when its empty value is at the end of the block. -/
theorem queryLoop_fault (hcoded : Coded code pair) (hvalue : pair.2 = [])
    (h : StrAt size st.mem s (piece code pair))
    (hend : s + (piece code pair).length + 1 = size) :
    queryLoop size ignoreUnknown st s = .fault := by
  rw [queryLoop_last h hcoded.piece_plain]
  have hpiece : piece code pair = code pair.1 ++ [61] := by
    rw [piece, hcoded.value_nil.2 hvalue]
  rw [hpiece] at h hend
  rw [List.length_append, List.length_singleton] at hend
  exact component_fault ignoreUnknown h hcoded.name_ne hcoded.equal (by omega)

/-- The pairs before the last one, when no value of them is empty or decoding
changes nothing. -/
theorem queryLoop_front (hlisted : ∀ pair ∈ pairs, Listed pair)
    (hcoded : ∀ pair ∈ pairs, Coded code pair)
    (hknown : ∀ pair ∈ pairs, pair.1 ∈ st.table.map Field.qField) (hfields : Fields size st s)
    (h : StrAt size st.mem s (front code pairs ++ rest))
    (hstable : (∀ pair ∈ pairs, pair.2 ≠ []) ∨
      ∀ c ∈ front code pairs ++ rest, c ≠ 37 ∧ c ≠ 43) :
    ∃ st', queryLoop size ignoreUnknown st s =
        queryLoop size ignoreUnknown st' (s + (front code pairs).length) ∧
      Ran size (s + (front code pairs).length) pairs st st' ∧
      StrAt size st'.mem (s + (front code pairs).length) rest ∧
      ∀ i, s + (front code pairs ++ rest).length ≤ i → st'.mem i = st.mem i := by
  induction pairs generalizing st s with
  | nil =>
      refine ⟨st, rfl, ⟨hfields, fun g => rfl, rfl⟩, h, fun _ _ => rfl⟩
  | cons pair pairs ih =>
      rw [List.forall_mem_cons] at hlisted hcoded hknown
      rw [front_cons, List.append_assoc, List.cons_append] at h hstable ⊢
      have hkept : pair.2 = [] → decoded (front code pairs ++ rest) = front code pairs ++ rest := by
        intro hvalue
        have hplain := hstable.resolve_left fun hall => hall pair List.mem_cons_self hvalue
        exact decoded_eq_self fun c hc => hplain c (by simp [hc])
      obtain ⟨st₁, hloop, hran, hstring, hafter⟩ := queryLoop_pair ignoreUnknown hlisted.1 hcoded.1
        hknown.1 hfields h fun hvalue => by
          rw [hkept hvalue]
          exact h.cut_rest.nonzero
      have hstring' : StrAt size st₁.mem (s + (piece code pair).length + 1)
          (front code pairs ++ rest) := by
        split at hstring
        · next hvalue => rwa [hkept hvalue] at hstring
        · exact hstring
      have hstable' : (∀ pair ∈ pairs, pair.2 ≠ []) ∨
          ∀ c ∈ front code pairs ++ rest, c ≠ 37 ∧ c ≠ 43 := by
        rcases hstable with hall | hplain
        · exact .inl fun pair hpair => hall pair (List.mem_cons_of_mem _ hpair)
        · exact .inr fun c hc => hplain c (by simp [hc])
      have hknown' : ∀ pair ∈ pairs, pair.1 ∈ st₁.table.map Field.qField := by
        rw [qField_same hran.same]
        exact hknown.2
      obtain ⟨st', hloop', hran', hrest, hafter'⟩ :=
        ih hlisted.2 hcoded.2 hknown' hran.fields hstring' hstable'
      have he : s + (piece code pair).length + 1 + (front code pairs).length =
          s + (piece code pair ++ 38 :: front code pairs).length := by
        rw [List.length_append, List.length_cons]
        omega
      rw [he] at hloop' hran' hrest
      refine ⟨st', hloop.trans hloop', hran.trans hran', hrest, fun i hi => ?_⟩
      simp only [List.length_append, List.length_cons] at hi hafter hafter'
      rw [hafter' i (by omega), hafter i (by omega)]

end Run

/-! ## The round trip -/

/-- A table of string fields before a query is parsed. -/
structure StringFields (table : List (Field UString)) : Prop where
  nodup : (table.map Field.qField).Nodup
  parse : ∀ q ∈ table, q.qParse = qStringParse
  unset : ∀ q ∈ table, q.qIsSet = false

/-- The size of the block that the query of some pairs is in. -/
def blockSize (pairs : List (CString × CString)) : ℕ :=
  ((buildQuery pairs).getD []).length + 1

/-- The query of some pairs is built, copied and parsed. -/
def parsePairs (ignoreUnknown : Bool) (table : List (Field UString))
    (pairs : List (CString × CString)) : Outcome (Parsed UString) :=
  queryParse (blockSize pairs) ignoreUnknown table ((buildQuery pairs).map strdup)

/-- Parsing succeeds, stays in the block and gives each field the last value
that is listed for it. -/
def RoundTrips (ignoreUnknown : Bool) (table : List (Field UString))
    (pairs : List (CString × CString)) : Prop :=
  ∃ st, parsePairs ignoreUnknown table pairs = .ok st ∧
    ∀ f v, lastValue pairs f = some v → given (blockSize pairs) st f = some v

/-- The required fields are listed. -/
def Required (table : List (Field UString)) (pairs : List (CString × CString)) : Prop :=
  ∀ q ∈ table, q.qIsReq = true → q.qField ∈ pairs.map Prod.fst

/-- The pairs after the first empty value. -/
def behind (pairs : List (CString × CString)) : List (CString × CString) :=
  (pairs.dropWhile fun pair => pair.2 ≠ []).tail

/-- No value is empty, or nothing after the first empty value means something in
a query, and the last value is not empty or some byte before it was escaped. -/
def Clear (pairs : List (CString × CString)) : Prop :=
  (∀ pair ∈ pairs, pair.2 ≠ []) ∨
    (∀ pair ∈ behind pairs, Harmless pair) ∧
      ((∀ last ∈ pairs.getLast?, last.2 ≠ []) ∨
        ∃ pair ∈ behind pairs, ∃ c ∈ pair.1 ++ pair.2, isPlain c = false)

section RoundTrip

variable {table : List (Field UString)} {pairs : List (CString × CString)}
  {ignoreUnknown : Bool}

theorem lastValue_eq_none {g : CString} :
    lastValue pairs g = none ↔ g ∉ pairs.map Prod.fst := by
  rw [lastValue, List.lookup_eq_none_iff]
  simp only [List.mem_reverse, List.mem_map, not_exists, not_and, bne_iff_ne]
  exact forall_congr' fun pair => imp_congr_right fun _ => ne_comm

theorem lastValue_of_mem (hnodup : (pairs.map Prod.fst).Nodup) {pair : CString × CString}
    (hpair : pair ∈ pairs) : lastValue pairs pair.1 = some pair.2 := by
  obtain ⟨init, rest, rfl⟩ := List.append_of_mem hpair
  rw [List.map_append, List.map_cons, List.nodup_append, List.nodup_cons] at hnodup
  have hnone : lastValue rest pair.1 = none := lastValue_eq_none.2 hnodup.2.1.1
  rw [lastValue_append, ← List.singleton_append, lastValue_append, hnone, lastValue_singleton,
    if_pos rfl]
  rfl

/-- The start of the loop. -/
theorem StringFields.start (h : StringFields table) (size : ℕ) (mem : ℕ → Byte) :
    Fields size ⟨mem, table⟩ 0 ∧ ∀ g, given size ⟨mem, table⟩ g = none := by
  have hunset : ∀ {g q}, (table.find? fun q => q.qField = g) = some q → q.qIsSet = false :=
    fun hfind => h.unset _ (List.mem_of_find?_eq_some hfind)
  refine ⟨⟨h.parse, fun hfind hset => ?_⟩, fun g => ?_⟩
  · rw [hunset hfind] at hset
    cases hset
  · rw [given]
    cases hfind : table.find? fun q => q.qField = g with
    | none => rfl
    | some q => rw [Option.bind_some, hunset hfind, if_neg Bool.false_ne_true]

theorem find?_qField {fields : List (Field UString)} (h : (fields.map Field.qField).Nodup)
    {q : Field UString} (hq : q ∈ fields) :
    (fields.find? fun q' => q'.qField = q.qField) = some q := by
  induction fields with
  | nil => cases hq
  | cons q' fields ih =>
      rw [List.map_cons, List.nodup_cons] at h
      rcases List.mem_cons.1 hq with rfl | hq
      · exact List.find?_cons_of_pos (by simp)
      · have hne : q'.qField ≠ q.qField := fun heq => h.1 (heq ▸ List.mem_map_of_mem hq)
        rw [List.find?_cons_of_neg (by simpa using hne)]
        exact ih h.2 hq

/-- A field is set when it is listed. -/
theorem isSet_iff {size s : ℕ} {mem : ℕ → Byte} {st : Parsed UString} (h : StringFields table)
    (hran : Ran size s pairs ⟨mem, table⟩ st) {q : Field UString} (hq : q ∈ st.table) :
    q.qIsSet = true ↔ q.qField ∈ pairs.map Prod.fst := by
  have hnodup : (st.table.map Field.qField).Nodup := (qField_same hran.same).symm ▸ h.nodup
  have hfind := find?_qField hnodup hq
  have hgiven : given size st q.qField = lastValue pairs q.qField := by
    rw [hran.given, (h.start size mem).2, Option.or_none]
  rw [given, hfind, Option.bind_some] at hgiven
  rw [← not_iff_not, ← lastValue_eq_none]
  constructor
  · intro hset
    rw [← hgiven, if_neg hset]
  · intro hnone hset
    obtain ⟨ptr, text, hptr, htext, -⟩ := hran.fields.below hfind hset
    rw [hnone, if_pos hset, hptr] at hgiven
    simp only [htext.stringAt_eq] at hgiven
    cases hgiven

/-- The check of the required fields. -/
theorem required_iff {size s : ℕ} {mem : ℕ → Byte} {st : Parsed UString} (h : StringFields table)
    (hran : Ran size s pairs ⟨mem, table⟩ st) :
    (st.table.any fun q => q.qIsReq && !q.qIsSet) = false ↔ Required table pairs := by
  have hset : ∀ q ∈ st.table, ¬ (q.qIsReq && !q.qIsSet) = true ↔
      (q.qIsReq = true → q.qField ∈ pairs.map Prod.fst) := fun q hq => by
    rw [← isSet_iff h hran hq]
    cases q.qIsReq <;> cases q.qIsSet <;> simp
  rw [List.any_eq_false]
  constructor
  · intro hall q hq
    have hmem : (q.qField, q.qIsReq) ∈ st.table.map fun q => (q.qField, q.qIsReq) := by
      rw [hran.same]
      exact List.mem_map_of_mem hq
    obtain ⟨q', hq', heq⟩ := List.mem_map.1 hmem
    obtain ⟨hfield, hreq⟩ := Prod.mk.inj heq
    rw [← hfield, ← hreq]
    exact (hset q' hq').1 (hall q' hq')
  · intro hrequired q' hq'
    have hmem : (q'.qField, q'.qIsReq) ∈ table.map fun q => (q.qField, q.qIsReq) := by
      have hmem' : (q'.qField, q'.qIsReq) ∈ st.table.map fun q => (q.qField, q.qIsReq) :=
        List.mem_map_of_mem hq'
      rwa [hran.same] at hmem'
    obtain ⟨q, hq, heq⟩ := List.mem_map.1 hmem
    obtain ⟨hfield, hreq⟩ := Prod.mk.inj heq
    rw [hset q' hq', ← hfield, ← hreq]
    exact hrequired q hq

/-! ### Up to the first empty value -/

/-- The pairs with the first empty value. -/
theorem split_behind (pairs : List (CString × CString)) :
    (∀ pair ∈ pairs, pair.2 ≠ []) ∨ ∃ init empty, pairs = init ++ empty :: behind pairs ∧
      (∀ pair ∈ init, pair.2 ≠ []) ∧ empty.2 = [] := by
  induction pairs with
  | nil => exact .inl fun pair hpair => absurd hpair List.not_mem_nil
  | cons pair pairs ih =>
      by_cases hvalue : pair.2 = []
      · refine .inr ⟨[], pair, ?_, fun pair hpair => absurd hpair List.not_mem_nil, hvalue⟩
        rw [behind, List.dropWhile_cons_of_neg (by simpa using hvalue)]
        rfl
      · have hbehind : behind (pair :: pairs) = behind pairs := by
          rw [behind, List.dropWhile_cons_of_pos (by simpa using hvalue), behind]
        rcases ih with hall | ⟨init, empty, hpairs, hinit, hempty⟩
        · exact .inl (List.forall_mem_cons.2 ⟨hvalue, hall⟩)
        · refine .inr ⟨pair :: init, empty, ?_, List.forall_mem_cons.2 ⟨hvalue, hinit⟩, hempty⟩
          rw [hbehind, List.cons_append, ← hpairs]

theorem Coded.nonzero_piece {code : CString → CString} {pair : CString × CString}
    (h : ∀ c ∈ code pair.1 ++ code pair.2, c ≠ 0) : ∀ c ∈ piece code pair, c ≠ 0 := by
  intro c hc
  rw [piece, List.mem_append, List.mem_cons] at hc
  rcases hc with hname | rfl | hvalue
  · exact h c (List.mem_append_left _ hname)
  · decide
  · exact h c (List.mem_append_right _ hvalue)

theorem nonzero_front {code : CString → CString}
    (h : ∀ pair ∈ pairs, ∀ c ∈ code pair.1 ++ code pair.2, c ≠ 0) :
    ∀ c ∈ front code pairs, c ≠ 0 := by
  intro c hc
  obtain ⟨pair, hpair, hc⟩ := List.mem_flatMap.1 hc
  rcases List.mem_append.1 hc with hc | hc
  · exact Coded.nonzero_piece (h pair hpair) c hc
  · rw [List.mem_singleton.1 hc]
    decide

theorem nonzero_escaped (pair : CString × CString) :
    ∀ c ∈ queryEscape pair.1 ++ queryEscape pair.2, c ≠ 0 := by
  intro c hc
  rcases List.mem_append.1 hc with hc | hc
  · exact (queryEscape_ne hc).1
  · exact (queryEscape_ne hc).1

/-- Decoding what comes behind an empty value undoes the escaping. -/
theorem decoded_rest (init : List (CString × CString)) (last : CString × CString) :
    decoded (front queryEscape init ++ piece queryEscape last) =
      front id init ++ piece id last := by
  have hpiece : ∀ (pair : CString × CString) (rest : CString),
      decoded (piece queryEscape pair ++ rest) = piece id pair ++ decoded rest := by
    intro pair rest
    rw [piece, List.append_assoc, decoded_queryEscape, List.cons_append,
      decoded_byte (by decide), decoded_queryEscape]
    simp [piece]
  induction init with
  | nil => simpa [front, decoded] using hpiece last []
  | cons pair init ih =>
      rw [front_cons, front_cons, List.append_assoc, hpiece, List.cons_append,
        decoded_byte (by decide), ih, List.append_assoc]
      rfl

theorem piece_id_nonzero {pair : CString × CString} (h : Listed pair) :
    ∀ c ∈ piece id pair, c ≠ 0 :=
  Coded.nonzero_piece h.nonzero

/-- The block of a query. -/
theorem strAt_query (init : List (CString × CString)) (last : CString × CString) :
    StrAt (blockSize (init ++ [last])) (strdup (front queryEscape init ++ piece queryEscape last)) 0
      (front queryEscape init ++ piece queryEscape last) ∧
    blockSize (init ++ [last]) = (front queryEscape init ++ piece queryEscape last).length + 1 := by
  have hsize : blockSize (init ++ [last]) =
      (front queryEscape init ++ piece queryEscape last).length + 1 := by
    rw [blockSize, buildQuery_concat, Option.getD_some]
  rw [hsize]
  refine ⟨strAt_strdup fun c hc => ?_, rfl⟩
  rcases List.mem_append.1 hc with hc | hc
  · exact nonzero_front (fun pair _ => nonzero_escaped pair) c hc
  · exact Coded.nonzero_piece (nonzero_escaped last) c hc

/-- What is assumed of a table and some pairs. -/
structure Known (table : List (Field UString)) (pairs : List (CString × CString)) : Prop where
  fields : StringFields table
  listed : ∀ pair ∈ pairs, Listed pair
  known : ∀ pair ∈ pairs, pair.1 ∈ table.map Field.qField

variable {init rest : List (CString × CString)} {empty last : CString × CString}

/-- The start of the loop, with the query of some pairs. -/
def startOf (table : List (Field UString)) (pairs : List (CString × CString)) : Parsed UString :=
  ⟨strdup ((buildQuery pairs).getD []), table⟩

theorem startOf_concat (table : List (Field UString)) (init : List (CString × CString))
    (last : CString × CString) : startOf table (init ++ [last]) =
      ⟨strdup (front queryEscape init ++ piece queryEscape last), table⟩ := by
  rw [startOf, buildQuery_concat, Option.getD_some]

/-- A query without empty values. -/
theorem loop_full (h : Known table (pairs ++ [last])) (ignoreUnknown : Bool)
    (hfull : ∀ pair ∈ pairs ++ [last], pair.2 ≠ []) :
    ∃ st s, queryLoop (blockSize (pairs ++ [last])) ignoreUnknown
        (startOf table (pairs ++ [last])) 0 = .ok st ∧
      Ran (blockSize (pairs ++ [last])) s (pairs ++ [last])
        (startOf table (pairs ++ [last])) st := by
  obtain ⟨hquery, hsize⟩ := strAt_query pairs last
  have hlisted := h.listed
  have hknown := h.known
  rw [List.forall_mem_append, List.forall_mem_singleton] at hlisted hknown hfull
  rw [startOf_concat]
  obtain ⟨st₁, hloop, hran, hstring, -⟩ := queryLoop_front ignoreUnknown hlisted.1
    (fun pair hpair => (hlisted.1 pair hpair).coded) hknown.1
    (h.fields.start _ (strdup _)).1 hquery (.inl hfull.1)
  have hknown₁ : last.1 ∈ st₁.table.map Field.qField := by
    rw [qField_same hran.same]
    exact hknown.2
  obtain ⟨st, hok, hran', -⟩ := component_pair ignoreUnknown hlisted.2 hlisted.2.coded hfull.2
    hran.fields hknown₁ hstring
  rw [← queryLoop_last hstring hlisted.2.coded.piece_plain] at hok
  exact ⟨st, _, hloop.trans hok, hran.trans hran'⟩

/-- A query whose first empty value is the last one. -/
theorem loop_last_empty (h : Known table (init ++ [empty])) (ignoreUnknown : Bool)
    (hinit : ∀ pair ∈ init, pair.2 ≠ []) (hempty : empty.2 = []) :
    queryLoop (blockSize (init ++ [empty])) ignoreUnknown (startOf table (init ++ [empty])) 0 =
      .fault := by
  obtain ⟨hquery, hsize⟩ := strAt_query init empty
  have hlisted := h.listed
  have hknown := h.known
  rw [List.forall_mem_append, List.forall_mem_singleton] at hlisted hknown
  rw [startOf_concat]
  obtain ⟨st₁, hloop, hran, hstring, -⟩ := queryLoop_front ignoreUnknown hlisted.1
    (fun pair hpair => (hlisted.1 pair hpair).coded) hknown.1
    (h.fields.start _ (strdup _)).1 hquery (.inl hinit)
  rw [hloop]
  apply queryLoop_fault ignoreUnknown hlisted.2.coded hempty hstring
  rw [hsize, List.length_append]
  omega

/-- After the first empty value, the rest of the query is as if it had never been
escaped. -/
structure Behind (table : List (Field UString)) (init rest : List (CString × CString))
    (empty last : CString × CString) (ignoreUnknown : Bool) (size : ℕ) (st₀ st : Parsed UString)
    (s : ℕ) : Prop where
  loop : queryLoop size ignoreUnknown st₀ 0 = queryLoop size ignoreUnknown st s
  ran : Ran size s (init ++ [empty]) st₀ st
  string : StrAt size st.mem s (front id rest ++ piece id last)
  ends : st.mem (size - 1) = 0
  size_eq : s + (front queryEscape rest ++ piece queryEscape last).length + 1 = size

theorem loop_behind (h : Known table ((init ++ empty :: rest) ++ [last])) (ignoreUnknown : Bool)
    (hinit : ∀ pair ∈ init, pair.2 ≠ []) (hempty : empty.2 = []) :
    ∃ st s, Behind table init rest empty last ignoreUnknown
      (blockSize ((init ++ empty :: rest) ++ [last]))
      (startOf table ((init ++ empty :: rest) ++ [last])) st s := by
  obtain ⟨hquery, hsize⟩ := strAt_query (init ++ empty :: rest) last
  have hlisted := h.listed
  have hknown := h.known
  simp only [List.forall_mem_append, List.forall_mem_cons] at hlisted hknown
  obtain ⟨⟨hlistedInit, hlistedEmpty, hlistedRest⟩, hlistedLast, -⟩ := hlisted
  obtain ⟨⟨hknownInit, hknownEmpty, -⟩, -⟩ := hknown
  rw [startOf_concat]
  generalize blockSize ((init ++ empty :: rest) ++ [last]) = size at hquery hsize ⊢
  have hfront : front queryEscape (init ++ empty :: rest) ++ piece queryEscape last =
      front queryEscape init ++ (piece queryEscape empty ++
        38 :: (front queryEscape rest ++ piece queryEscape last)) := by
    rw [front, List.flatMap_append]
    change (front queryEscape init ++ front queryEscape (empty :: rest)) ++ _ = _
    rw [front_cons]
    simp only [List.append_assoc, List.cons_append]
  rw [hfront] at hquery hsize ⊢
  obtain ⟨st₁, hloop, hran, hstring, hafter⟩ := queryLoop_front ignoreUnknown hlistedInit
    (fun pair hpair => (hlistedInit pair hpair).coded) hknownInit
    (h.fields.start _ (strdup _)).1 hquery (.inl hinit)
  have hnonzero : ∀ c ∈ front id rest ++ piece id last, c ≠ 0 := by
    rw [List.forall_mem_append]
    exact ⟨nonzero_front fun pair hpair => (hlistedRest pair hpair).nonzero,
      piece_id_nonzero hlistedLast⟩
  have hknown₁ : empty.1 ∈ st₁.table.map Field.qField := by
    rw [qField_same hran.same]
    exact hknownEmpty
  obtain ⟨st, hloop', hran', hstring', hafter'⟩ := queryLoop_pair ignoreUnknown hlistedEmpty
    hlistedEmpty.coded hknown₁ hran.fields hstring fun _ => by
      rw [decoded_rest]
      exact hnonzero
  rw [if_pos hempty, decoded_rest] at hstring'
  simp only [List.length_append, List.length_cons] at hsize hafter hafter'
  refine ⟨st, _, hloop.trans hloop', hran.trans hran', hstring', ?_, ?_⟩
  · rw [hafter' _ (by omega), hafter _ (by omega)]
    have hend := hquery.end_eq
    simp only [List.length_append, List.length_cons] at hend
    have hindex : size - 1 = 0 + ((front queryEscape init).length +
        ((piece queryEscape empty).length +
          ((front queryEscape rest).length + (piece queryEscape last).length + 1))) := by
      omega
    rw [hindex]
    exact hend
  · simp only [List.length_append]
    omega

/-! ### After the first empty value -/

/-- The bytes of some pairs. -/
def bytes (pairs : List (CString × CString)) : CString :=
  pairs.flatMap fun pair => pair.1 ++ pair.2

theorem length_queryEscape (s : CString) :
    (queryEscape s).length = s.length + 2 * s.countP fun c => !isPlain c := by
  induction s with
  | nil => rfl
  | cons c s ih =>
      have hcons : queryEscape (c :: s) = escapeByte c ++ queryEscape s := rfl
      rw [hcons, List.length_append, length_escapeByte, ih, List.countP_cons, List.length_cons]
      cases isPlain c <;> simp <;> omega

theorem length_piece (pair : CString × CString) : (piece queryEscape pair).length =
    (piece id pair).length + 2 * (pair.1 ++ pair.2).countP fun c => !isPlain c := by
  simp only [piece, List.length_append, List.length_cons, length_queryEscape,
    List.countP_append, id_eq]
  omega

theorem length_front (pairs : List (CString × CString)) : (front queryEscape pairs).length =
    (front id pairs).length + 2 * (bytes pairs).countP fun c => !isPlain c := by
  induction pairs with
  | nil => rfl
  | cons pair pairs ih =>
      rw [front_cons, front_cons, bytes, List.flatMap_cons, List.countP_append]
      rw [bytes] at ih
      simp only [List.length_append, List.length_cons, ih, length_piece]
      omega

/-- How much shorter the rest of a query gets. -/
theorem length_rest (rest : List (CString × CString)) (last : CString × CString) :
    (front queryEscape rest ++ piece queryEscape last).length =
      (front id rest ++ piece id last).length +
        2 * (bytes (rest ++ [last])).countP fun c => !isPlain c := by
  have hbytes : bytes (rest ++ [last]) = bytes rest ++ (last.1 ++ last.2) := by
    simp [bytes]
  simp only [List.length_append, length_front, length_piece, hbytes, List.countP_append]
  omega

variable {size s : ℕ} {st₀ st : Parsed UString}

theorem Harmless.piece_plain {pair : CString × CString} (h : Harmless pair) :
    ∀ c ∈ piece id pair, c ≠ 37 ∧ c ≠ 43 := by
  intro c hc
  have hcut : isCut c = false := by
    rw [piece, List.mem_append, List.mem_cons] at hc
    rcases hc with hname | rfl | hvalue
    · exact (h.1 c hname).1
    · rfl
    · exact h.2 c hvalue
  obtain ⟨hpercent, hplus, -⟩ := isCut_eq_false.1 hcut
  exact ⟨hpercent, hplus⟩

theorem harmless_rest (h : ∀ pair ∈ rest ++ [last], Harmless pair) :
    ∀ c ∈ front id rest ++ piece id last, c ≠ 37 ∧ c ≠ 43 := by
  rw [List.forall_mem_append, List.forall_mem_singleton] at h
  intro c hc
  rcases List.mem_append.1 hc with hc | hc
  · obtain ⟨pair, hpair, hc⟩ := List.mem_flatMap.1 hc
    rcases List.mem_append.1 hc with hc | hc
    · exact (h.1 pair hpair).piece_plain c hc
    · rw [List.mem_singleton.1 hc]
      decide
  · exact h.2.piece_plain c hc

/-- Pairs that need no escape are parsed up to the last one. -/
theorem Behind.toLast (h : Behind table init rest empty last ignoreUnknown size st₀ st s)
    (hlisted : ∀ pair ∈ rest, Listed pair) (hharmless : ∀ pair ∈ rest ++ [last], Harmless pair)
    (hknown : ∀ pair ∈ rest, pair.1 ∈ st₀.table.map Field.qField) :
    ∃ st₁, queryLoop size ignoreUnknown st₀ 0 =
        queryLoop size ignoreUnknown st₁ (s + (front id rest).length) ∧
      Ran size (s + (front id rest).length) (init ++ empty :: rest) st₀ st₁ ∧
      StrAt size st₁.mem (s + (front id rest).length) (piece id last) ∧
      st₁.mem (size - 1) = 0 := by
  rw [← qField_same h.ran.same] at hknown
  have hcoded : ∀ pair ∈ rest, Coded id pair := fun pair hpair =>
    (hlisted pair hpair).coded_id (hharmless pair (List.mem_append_left _ hpair))
  obtain ⟨st₁, hloop, hran, hstring, hafter⟩ := queryLoop_front ignoreUnknown hlisted hcoded
    hknown h.ran.fields h.string (.inr (harmless_rest hharmless))
  have hpairs : init ++ empty :: rest = (init ++ [empty]) ++ rest := by simp
  have hsize := h.size_eq
  rw [length_rest] at hsize
  refine ⟨st₁, h.loop.trans hloop, hpairs ▸ h.ran.trans hran, hstring, ?_⟩
  exact (hafter _ (by omega)).trans h.ends

/-- They are parsed completely, when the last value is not empty or the query has
got shorter. -/
theorem Behind.ok (h : Behind table init rest empty last ignoreUnknown size st₀ st s)
    (hlisted : ∀ pair ∈ rest ++ [last], Listed pair)
    (hharmless : ∀ pair ∈ rest ++ [last], Harmless pair)
    (hknown : ∀ pair ∈ rest ++ [last], pair.1 ∈ st₀.table.map Field.qField)
    (hroom : last.2 ≠ [] ∨ ∃ pair ∈ rest ++ [last], ∃ c ∈ pair.1 ++ pair.2, isPlain c = false) :
    ∃ st' s', queryLoop size ignoreUnknown st₀ 0 = .ok st' ∧
      Ran size s' ((init ++ empty :: rest) ++ [last]) st₀ st' := by
  have hlastHarmless := hharmless last (by simp)
  rw [List.forall_mem_append, List.forall_mem_singleton] at hlisted hknown
  obtain ⟨st₁, hloop, hran, hstring, hend⟩ := h.toLast hlisted.1 hharmless hknown.1
  have hsize := h.size_eq
  rw [length_rest, List.length_append] at hsize
  have hroom' : last.2 ≠ [] ∨
      s + (front id rest).length + (piece id last).length + 1 < size := by
    apply hroom.imp_right
    rintro ⟨pair, hpair, c, hc, hplain⟩
    have hpos : 0 < (bytes (rest ++ [last])).countP fun c => !isPlain c :=
      List.countP_pos_iff.2 ⟨c, List.mem_flatMap.2 ⟨pair, hpair, hc⟩, by simpa using hplain⟩
    omega
  have hknown₁ : last.1 ∈ st₁.table.map Field.qField := by
    rw [qField_same hran.same]
    exact hknown.2
  obtain ⟨st', hok, hran'⟩ := queryLoop_end ignoreUnknown hlisted.2
    (hlisted.2.coded_id hlastHarmless) hknown₁ hran.fields hstring hend hroom'
  exact ⟨st', _, hloop.trans hok, hran.trans hran'⟩

/-- Otherwise the parser reads past the end of the block. -/
theorem Behind.fault (h : Behind table init rest empty last ignoreUnknown size st₀ st s)
    (hlisted : ∀ pair ∈ rest ++ [last], Listed pair)
    (hharmless : ∀ pair ∈ rest ++ [last], Harmless pair)
    (hknown : ∀ pair ∈ rest ++ [last], pair.1 ∈ st₀.table.map Field.qField)
    (hlast : last.2 = [])
    (hplain : ∀ pair ∈ rest ++ [last], ∀ c ∈ pair.1 ++ pair.2, isPlain c = true) :
    queryLoop size ignoreUnknown st₀ 0 = .fault := by
  have hlastHarmless := hharmless last (by simp)
  rw [List.forall_mem_append, List.forall_mem_singleton] at hlisted hknown
  obtain ⟨st₁, hloop, hran, hstring, -⟩ := h.toLast hlisted.1 hharmless hknown.1
  have hsize := h.size_eq
  have hzero : ((bytes (rest ++ [last])).countP fun c => !isPlain c) = 0 := by
    rw [List.countP_eq_zero]
    intro c hc
    obtain ⟨pair, hpair, hc⟩ := List.mem_flatMap.1 hc
    simp [hplain pair hpair c hc]
  rw [length_rest, hzero, List.length_append] at hsize
  exact hloop.trans (queryLoop_fault ignoreUnknown (hlisted.2.coded_id hlastHarmless) hlast
    hstring (by omega))

/-- What the pairs behind take of the rest of the query. -/
theorem weight_rest (rest : List (CString × CString)) (last : CString × CString) :
    weight rawWeight (front id rest ++ piece id last) + 1 =
      ((rest ++ [last]).map fun pair =>
        weight rawWeight pair.1 + weight rawWeight pair.2).sum + (rest ++ [last]).length := by
  have hpiece : ∀ pair : CString × CString, weight rawWeight (piece id pair) =
      weight rawWeight pair.1 + weight rawWeight pair.2 := fun pair => by
    have hequal : rawWeight 61 = 0 := rfl
    simp [piece, hequal]
  have hcut : rawWeight 38 = 1 := rfl
  induction rest with
  | nil => simp [front, hpiece]
  | cons pair rest ih =>
      rw [front_cons, List.append_assoc, weight_append, hpiece, List.cons_append, weight_cons, hcut,
        List.cons_append, List.map_cons, List.sum_cons, List.length_cons]
      omega

/-- If all fields behind get their values, no byte of them means something in a
query. -/
theorem Behind.harmless (h : Behind table init rest empty last ignoreUnknown size st₀ st s)
    (hstart : ∀ g, given size st₀ g = none) {st' : Parsed UString}
    (hnodup : (((init ++ empty :: rest) ++ [last]).map Prod.fst).Nodup)
    (hrun : queryLoop size ignoreUnknown st₀ 0 = .ok st')
    (hgiven : ∀ pair ∈ rest ++ [last], given size st' pair.1 = some pair.2) :
    ∀ pair ∈ rest ++ [last], Harmless pair := by
  rw [h.loop] at hrun
  obtain ⟨gives, hcost, hgives⟩ := queryLoop_weighed h.ends h.string h.ran.fields hrun
  have hpairs : (init ++ empty :: rest) ++ [last] = (init ++ [empty]) ++ (rest ++ [last]) := by
    simp
  rw [hpairs, List.map_append, List.nodup_append] at hnodup
  have hsub : rest ++ [last] ⊆ gives := by
    intro pair hpair
    rcases hgives _ _ (hgiven pair hpair) with hold | hmem
    · have hnone : lastValue (init ++ [empty]) pair.1 = none :=
        lastValue_eq_none.2 fun hmem =>
          hnodup.2.2 pair.1 hmem pair.1 (List.mem_map_of_mem hpair) rfl
      rw [h.ran.given, hstart, hnone] at hold
      cases hold
    · exact hmem
  obtain ⟨taken, hperm, hsublist⟩ := List.subperm_of_subset (List.Nodup.of_map _ hnodup.2.1) hsub
  have hsum : ((rest ++ [last]).map cost).sum ≤ (gives.map cost).sum := by
    rw [← (hperm.map cost).sum_eq]
    exact (hsublist.map cost).sum_le_sum fun _ _ => Nat.zero_le _
  have hlength : (rest ++ [last]).length ≤ gives.length := by
    rw [← hperm.length_eq]
    exact hsublist.length_le
  rw [weight_rest] at hcost
  intro pair hpair
  by_contra hharmful
  have hlt : weight rawWeight pair.1 + weight rawWeight pair.2 < cost pair := by
    apply lt_cost
    by_contra hnone
    simp only [not_or, not_exists, not_and, Bool.not_eq_true] at hnone
    exact hharmful hnone
  have hsum' : ((rest ++ [last]).map fun pair =>
      weight rawWeight pair.1 + weight rawWeight pair.2).sum < ((rest ++ [last]).map cost).sum :=
    List.sum_lt_sum _ _ (fun pair _ => le_cost pair.1 pair.2) ⟨pair, hpair, hlt⟩
  omega

/-! ### All pairs -/

/-- The loop on the query of some pairs. -/
def loopPairs (ignoreUnknown : Bool) (table : List (Field UString))
    (pairs : List (CString × CString)) : Outcome (Parsed UString) :=
  match (buildQuery pairs).map strdup with
  | none => .ok ⟨fun _ => 0, table⟩
  | some mem => queryLoop (blockSize pairs) ignoreUnknown ⟨mem, table⟩ 0

theorem parsePairs_eq (ignoreUnknown : Bool) (table : List (Field UString))
    (pairs : List (CString × CString)) : parsePairs ignoreUnknown table pairs =
      (loopPairs ignoreUnknown table pairs).bind fun st =>
        if st.table.any fun q => q.qIsReq && !q.qIsSet then .error else .ok st := rfl

theorem loopPairs_concat (ignoreUnknown : Bool) (table : List (Field UString))
    (init : List (CString × CString)) (last : CString × CString) :
    loopPairs ignoreUnknown table (init ++ [last]) =
      queryLoop (blockSize (init ++ [last])) ignoreUnknown (startOf table (init ++ [last])) 0 := by
  rw [loopPairs, startOf, buildQuery_concat]
  rfl

/-- The pairs without empty values, with the first one at the end, and with the
first one before others. -/
theorem pairs_cases {motive : List (CString × CString) → Prop}
    (full : ∀ init last, (∀ pair ∈ init ++ [last], pair.2 ≠ []) → motive (init ++ [last]))
    (none : motive [])
    (atEnd : ∀ init empty, behind (init ++ [empty]) = [] → (∀ pair ∈ init, pair.2 ≠ []) →
      empty.2 = [] → motive (init ++ [empty]))
    (before : ∀ init empty rest last,
      behind ((init ++ empty :: rest) ++ [last]) = rest ++ [last] →
      (∀ pair ∈ init, pair.2 ≠ []) → empty.2 = [] → motive ((init ++ empty :: rest) ++ [last]))
    (pairs : List (CString × CString)) : motive pairs := by
  rcases split_behind pairs with hall | ⟨init, empty, hpairs, hinit, hempty⟩
  · rcases pairs.eq_nil_or_concat' with rfl | ⟨init, last, rfl⟩
    · exact none
    · exact full init last hall
  · rcases (behind pairs).eq_nil_or_concat' with hnil | ⟨rest, last, hrest⟩
    · rw [hnil] at hpairs
      rw [hpairs] at hnil ⊢
      exact atEnd init empty hnil hinit hempty
    · have heq : pairs = (init ++ empty :: rest) ++ [last] := by
        rw [hpairs, hrest]
        simp
      rw [heq] at hrest ⊢
      exact before init empty rest last hrest hinit hempty

theorem loop_of_clear (h : Known table pairs) (ignoreUnknown : Bool) (hclear : Clear pairs) :
    ∃ st s mem, loopPairs ignoreUnknown table pairs = .ok st ∧
      Ran (blockSize pairs) s pairs ⟨mem, table⟩ st := by
  induction pairs using pairs_cases with
  | none => exact ⟨_, 0, _, rfl, (h.fields.start _ _).1, fun _ => rfl, rfl⟩
  | full init last hall =>
      obtain ⟨st, s, hok, hran⟩ := loop_full h ignoreUnknown hall
      exact ⟨st, s, _, (loopPairs_concat ..).trans hok, hran⟩
  | atEnd init empty hbehind hinit hempty =>
      rcases hclear with hall | ⟨-, hlast | ⟨pair, hpair, -⟩⟩
      · exact absurd hempty (hall empty (by simp))
      · exact absurd hempty (hlast empty (by simp))
      · rw [hbehind] at hpair
        cases hpair
  | before init empty rest last hbehind hinit hempty =>
      obtain ⟨st, s, hloop⟩ := loop_behind h ignoreUnknown hinit hempty
      rcases hclear with hall | ⟨hharmless, hroom⟩
      · exact absurd hempty (hall empty (by simp))
      · rw [hbehind] at hharmless hroom
        have hroom' : last.2 ≠ [] ∨
            ∃ pair ∈ rest ++ [last], ∃ c ∈ pair.1 ++ pair.2, isPlain c = false :=
          hroom.imp_left fun hlast => hlast last (by rw [List.getLast?_concat]; rfl)
        obtain ⟨st', s', hok, hran⟩ := hloop.ok
          (fun pair hpair => h.listed pair (by simp at hpair ⊢; tauto)) hharmless
          (fun pair hpair => h.known pair (by simp at hpair ⊢; tauto)) hroom'
        exact ⟨st', s', _, (loopPairs_concat ..).trans hok, hran⟩

theorem clear_of_loop (h : Known table pairs) (ignoreUnknown : Bool) {st : Parsed UString}
    (hnodup : (pairs.map Prod.fst).Nodup)
    (hrun : loopPairs ignoreUnknown table pairs = .ok st)
    (hgiven : ∀ pair ∈ pairs, given (blockSize pairs) st pair.1 = some pair.2) : Clear pairs := by
  induction pairs using pairs_cases with
  | none => exact .inl fun pair hpair => absurd hpair List.not_mem_nil
  | full init last hall => exact .inl hall
  | atEnd init empty hbehind hinit hempty =>
      rw [loopPairs_concat, loop_last_empty h ignoreUnknown hinit hempty] at hrun
      cases hrun
  | before init empty rest last hbehind hinit hempty =>
      obtain ⟨st₁, s, hloop⟩ := loop_behind h ignoreUnknown hinit hempty
      rw [loopPairs_concat] at hrun
      have hmem : ∀ pair ∈ rest ++ [last], pair ∈ (init ++ empty :: rest) ++ [last] :=
        fun pair hpair => by simp at hpair ⊢; tauto
      have hharmless := hloop.harmless (h.fields.start _ _).2 hnodup hrun fun pair hpair =>
        hgiven pair (hmem pair hpair)
      refine .inr ⟨hbehind ▸ hharmless, ?_⟩
      by_contra hnone
      rw [hbehind, not_or] at hnone
      have hlast : last.2 = [] := by
        by_contra hne
        refine hnone.1 fun last' hlast' => ?_
        rw [List.getLast?_concat, Option.mem_some_iff] at hlast'
        exact hlast' ▸ hne
      have hplain : ∀ pair ∈ rest ++ [last], ∀ c ∈ pair.1 ++ pair.2, isPlain c = true := by
        intro pair hpair c hc
        by_contra hnot
        exact hnone.2 ⟨pair, hpair, c, hc, Bool.eq_false_of_not_eq_true hnot⟩
      have hfault := hloop.fault (fun pair hpair => h.listed pair (hmem pair hpair)) hharmless
        (fun pair hpair => h.known pair (hmem pair hpair)) hlast hplain
      rw [hfault] at hrun
      cases hrun

/-- Fields and values come back from a query when it is clear and has all required
fields; if no field is listed twice, only then. -/
theorem round_trip_iff (h : Known table pairs) (ignoreUnknown : Bool) :
    (Clear pairs → Required table pairs → RoundTrips ignoreUnknown table pairs) ∧
    ((pairs.map Prod.fst).Nodup →
      (RoundTrips ignoreUnknown table pairs ↔ Clear pairs ∧ Required table pairs)) := by
  have hclear : Clear pairs →
      (RoundTrips ignoreUnknown table pairs ↔ Required table pairs) := by
    intro hclear
    obtain ⟨st, s, mem, hok, hran⟩ := loop_of_clear h ignoreUnknown hclear
    rw [← required_iff h.fields hran, RoundTrips, parsePairs_eq, hok, Outcome.bind]
    constructor
    · rintro ⟨st', hst, -⟩
      by_contra hany
      rw [if_pos (Bool.eq_true_of_not_eq_false hany)] at hst
      cases hst
    · intro hany
      refine ⟨st, if_neg (ne_true_of_eq_false hany), fun f v hlast => ?_⟩
      rw [hran.given, hlast]
      rfl
  refine ⟨fun hc => (hclear hc).2, fun hnodup => ⟨fun hround => ?_, fun hc => (hclear hc.1).2 hc.2⟩⟩
  have hround' := hround
  obtain ⟨st', hparse, hgiven⟩ := hround'
  rw [parsePairs_eq] at hparse
  obtain ⟨st, hok, hst⟩ := Outcome.bind_eq_ok hparse
  have heq : st = st' := by
    split at hst
    · cases hst
    · cases hst
      rfl
  subst heq
  have hc : Clear pairs := clear_of_loop h ignoreUnknown hnodup hok fun pair hpair =>
    hgiven _ _ (lastValue_of_mem hnodup hpair)
  exact ⟨hc, (hclear hc).1 hround⟩

end RoundTrip

/-- A table with the fields of a query. -/
def fieldTable (names : List CString) : List (Field UString) :=
  names.map fun name => ⟨name, .initial none, qStringParse, false, false⟩

theorem known_fieldTable {names : List CString} (hnames : names.Nodup)
    {pairs : List (CString × CString)} (hlisted : ∀ pair ∈ pairs, Listed pair)
    (hknown : ∀ pair ∈ pairs, pair.1 ∈ names) : Known (fieldTable names) pairs where
  fields :=
    { nodup := by simpa [fieldTable, comp_def] using hnames
      parse := fun q hq => by
        obtain ⟨name, -, rfl⟩ := List.mem_map.1 hq
        rfl
      unset := fun q hq => by
        obtain ⟨name, -, rfl⟩ := List.mem_map.1 hq
        rfl }
  listed := hlisted
  known := by simpa [fieldTable, comp_def] using hknown

def samplePairs : List (CString × CString) :=
  [(lit "sort", lit "r0,r1"), (lit "owner", lit "a&b+c")]

theorem known_samplePairs : Known (fieldTable [lit "sort", lit "owner"]) samplePairs := by
  apply known_fieldTable (by decide)
  · intro pair hpair
    rcases List.mem_cons.1 hpair with rfl | hpair
    · exact ⟨by decide, by decide +kernel⟩
    · obtain rfl := List.mem_singleton.1 hpair
      exact ⟨by decide, by decide +kernel⟩
  · decide

theorem round_trip_sample :
    (Clear samplePairs → Required (fieldTable [lit "sort", lit "owner"]) samplePairs →
      RoundTrips false (fieldTable [lit "sort", lit "owner"]) samplePairs) ∧
    ((samplePairs.map Prod.fst).Nodup →
      (RoundTrips false (fieldTable [lit "sort", lit "owner"]) samplePairs ↔
        Clear samplePairs ∧ Required (fieldTable [lit "sort", lit "owner"]) samplePairs)) :=
  round_trip_iff known_samplePairs false

/-- An empty owner at the end of a query makes the parser read past its end. -/
theorem empty_owner_fault :
    Known (fieldTable [lit "owner"]) [(lit "owner", [])] ∧
    Required (fieldTable [lit "owner"]) [(lit "owner", [])] ∧
    ¬ RoundTrips false (fieldTable [lit "owner"]) [(lit "owner", [])] := by
  have hknown : Known (fieldTable [lit "owner"]) [(lit "owner", [])] := by
    apply known_fieldTable (by decide)
    · intro pair hpair
      obtain rfl := List.mem_singleton.1 hpair
      exact ⟨by decide, by decide +kernel⟩
    · decide
  refine ⟨hknown, fun q hq hreq => ?_, ?_⟩
  · rw [fieldTable, List.map_singleton, List.mem_singleton] at hq
    rw [hq] at hreq
    cases hreq
  · rintro ⟨st, hparse, -⟩
    have hfault : loopPairs false (fieldTable [lit "owner"]) [(lit "owner", [])] = .fault :=
      (loopPairs_concat false _ [] _).trans
        (@loop_last_empty _ [] (lit "owner", []) hknown false
          (fun pair hpair => absurd hpair List.not_mem_nil) rfl)
    rw [parsePairs_eq, hfault] at hparse
    cases hparse

end Xltop.Query
