import Xltop.Query.Weight

/-!
# Which queries are accepted

A query should be accepted when all its components are escaped well, their
fields are known and take their values, and no required field is missing.
`query_parse` ignores what `q_decode` returns, so a bad escape only ends a name
or a value.  And behind a component with an empty value it sees the rest of the
query decoded once more.
-/

namespace Xltop.Query

open Function
open Xltop.Memory
open Xltop.Text

/-! ## Components -/

def isSeparator (c : Byte) : Bool :=
  c == 38 || c == 59

/-- What is between `&` or `;`. -/
def components (text : CString) : List CString :=
  text.splitOnP isSeparator

/-- A component up to its first `=`. -/
def rawName (comp : CString) : CString :=
  comp.takeWhile (· != 61)

/-- A component from behind its first `=` on. -/
def rawValue (comp : CString) : Option CString :=
  match comp.dropWhile (· != 61) with
  | [] => none
  | _ :: raw => some raw

/-- Each `%` is followed by two hex digits. -/
def wellEscaped : CString → Bool
  | [] => true
  | c :: rest =>
      if c ≠ 37 then wellEscaped rest
      else
        match rest with
        | c1 :: c2 :: rest => isXDigit c1 && isXDigit c2 && wellEscaped rest
        | _ => false

/-- The field name that decoding gives. -/
def nameOf (comp : CString) : CString :=
  cstr (decoded (rawName comp))

def valueOf (comp : CString) : CString :=
  cstr (decoded ((rawValue comp).getD []))

/-- The value is the empty string in front of the next component: decoding it
decodes what comes next. -/
def leaks (comp : CString) : Bool :=
  rawName comp != [] &&
    match rawValue comp with
    | none => (nameOf comp).length == (rawName comp).length
    | some raw => raw == []

theorem component_cases (comp : CString) :
    (61 ∉ comp ∧ rawName comp = comp ∧ rawValue comp = none) ∨
      ∃ name raw, comp = name ++ 61 :: raw ∧ 61 ∉ name ∧ rawName comp = name ∧
        rawValue comp = some raw := by
  rcases split_first (· == 61) comp with hnone | ⟨name, c, raw, rfl, hname, hc⟩
  · have hplain : ∀ c ∈ comp, (c != 61) = true := fun c hc => by simpa using hnone c hc
    refine .inl ⟨fun hmem => by simpa using hplain 61 hmem, ?_, ?_⟩
    · exact List.takeWhile_eq_self_iff.2 hplain
    · rw [rawValue, List.dropWhile_eq_nil_iff.2 hplain]
  · obtain rfl : c = 61 := by simpa using hc
    have hplain : ∀ c ∈ name, (c != 61) = true := fun c hc => by simpa using hname c hc
    refine .inr ⟨name, raw, rfl, fun hmem => by simpa using hplain 61 hmem, ?_, ?_⟩
    · rw [rawName, List.takeWhile_append_of_pos hplain, List.takeWhile_cons_of_neg (by simp),
        List.append_nil]
    · rw [rawValue, List.dropWhile_append_of_pos hplain, List.dropWhile_cons_of_neg (by simp)]

section Component

variable {V : Type*} {size s : ℕ} {st : Parsed V} {comp rest : CString}
  (ignoreUnknown : Bool)

/-- A component that does not touch what comes next. -/
theorem component_passed (hend : st.mem (size - 1) = 0) (h : StrAt size st.mem s comp)
    (hname : rawName comp ≠ []) (hleak : leaks comp = false) :
    ∃ mem' ptr, component size ignoreUnknown st s =
        (setField ignoreUnknown (nameOf comp) ptr (valueOf comp) st.table).bind
          (fun table => .ok ⟨mem', table⟩) ∧
      ∀ i, s + comp.length ≤ i → mem' i = st.mem i := by
  have hlt := h.lt
  rcases component_cases comp with ⟨hequal, hraw, hvalue⟩ | ⟨name, raw, rfl, hequal, hraw, hvalue⟩
  · rw [hraw] at hname
    have hshort : (cstr (decoded comp)).length < comp.length := by
      rw [leaks, hvalue, nameOf, hraw] at hleak
      exact (length_cstr_decoded_le comp).lt_of_ne (by simpa [hname] using hleak)
    obtain ⟨mem₁, hfield, -, hafter, -, heq⟩ := component_bare ignoreUnknown h hname hequal
    -- the string behind the new NUL ends where the component ends
    have hzero : mem₁ (s + comp.length) = 0 := (hafter _ le_rfl).trans h.end_eq
    have hend₁ : mem₁ (size - 1) = 0 := (hafter _ (by omega)).trans hend
    obtain ⟨behind, hbehind⟩ := exists_strAt hend₁
      (by omega : s + (cstr (decoded comp)).length + 1 < size)
    have hle := hbehind.le_of_zero hzero (by omega)
    obtain ⟨mem₂, b, hrun, hwritten⟩ := qDecode_nul hfield.end_eq hbehind
    refine ⟨mem₂, s + (cstr (decoded comp)).length, ?_, fun i hi => ?_⟩
    · rw [heq mem₂ b hrun fun i hi => hwritten.before i (Nat.lt_succ_of_le hi), nameOf, valueOf,
        hraw, hvalue]
      rfl
    · exact (hwritten.after i (by omega)).trans (hafter i hi)
  · rw [hraw] at hname
    have hne : raw ≠ [] := by
      rw [leaks, hvalue, hraw] at hleak
      simpa [hname] using hleak
    obtain ⟨mem', hok, -, -, hafter⟩ := component_value ignoreUnknown h hname hequal hne
    refine ⟨mem', s + name.length + 1, ?_, fun i hi => hafter i ?_⟩
    · rw [hok, nameOf, valueOf, hraw, hvalue]
      rfl
    · rw [List.length_append, List.length_cons] at hi
      omega

/-- A component that decodes what comes next. -/
theorem component_leaked (h : StrAt size st.mem s comp) (hleak : leaks comp = true)
    (hrest : StrAt size st.mem (s + comp.length + 1) rest) :
    ∃ mem' ptr, component size ignoreUnknown st s =
        (setField ignoreUnknown (nameOf comp) ptr (valueOf comp) st.table).bind
          (fun table => .ok ⟨mem', table⟩) ∧
      StrAt size mem' (s + comp.length + 1) (cstr (decoded rest)) ∧
      ∀ i, s + comp.length + 1 + rest.length ≤ i → mem' i = st.mem i := by
  have hlt := hrest.lt
  have hle := length_decoded_le rest
  rw [leaks, Bool.and_eq_true, bne_iff_ne] at hleak
  obtain ⟨hname, hempty⟩ := hleak
  rcases component_cases comp with ⟨hequal, hraw, hvalue⟩ | ⟨name, raw, rfl, hequal, hraw, hvalue⟩
  · rw [hvalue, nameOf, hraw, beq_iff_eq] at hempty
    rw [hraw] at hname
    obtain ⟨mem₁, hfield, -, hafter, -, heq⟩ := component_bare ignoreUnknown h hname hequal
    have hrest₁ : StrAt size mem₁ (s + (cstr (decoded comp)).length + 1) rest := by
      rw [hempty]
      exact hrest.congr fun i hi _ => hafter i (by omega)
    obtain ⟨mem₂, b, hrun, hwritten⟩ := qDecode_nul hfield.end_eq hrest₁
    have hok := heq mem₂ b hrun fun i hi => hwritten.before i (Nat.lt_succ_of_le hi)
    rw [hempty] at hwritten
    refine ⟨mem₂, s + (cstr (decoded comp)).length, ?_, hwritten.strAt (by omega), fun i hi => ?_⟩
    · rw [hok, nameOf, valueOf, hraw, hvalue]
      rfl
    · exact (hwritten.after i hi).trans (hafter i (by omega))
  · rw [hvalue] at hempty
    obtain rfl : raw = [] := by simpa using hempty
    rw [hraw] at hname
    have he : s + (name ++ [61]).length + 1 = s + name.length + 2 := by
      rw [List.length_append, List.length_singleton]
      omega
    rw [he] at hrest hlt ⊢
    obtain ⟨mem', hok, -, -, hholds, hafter⟩ :=
      component_empty ignoreUnknown h hname hequal hrest
    refine ⟨mem', s + name.length + 1, ?_, strAt_cstr hholds (by omega), hafter⟩
    rw [hok, nameOf, valueOf, hraw, hvalue]
    rfl

/-- At the end of the block, it reads past this end. -/
theorem component_overrun (h : StrAt size st.mem s comp) (hleak : leaks comp = true)
    (hend : s + comp.length + 1 = size) : component size ignoreUnknown st s = .fault := by
  rw [leaks, Bool.and_eq_true, bne_iff_ne] at hleak
  obtain ⟨hname, hempty⟩ := hleak
  rcases component_cases comp with ⟨hequal, hraw, hvalue⟩ | ⟨name, raw, rfl, hequal, hraw, hvalue⟩
  · rw [hvalue, nameOf, hraw, beq_iff_eq] at hempty
    rw [hraw] at hname
    obtain ⟨mem₁, hfield, -, -, hfault, -⟩ := component_bare ignoreUnknown h hname hequal
    exact hfault (qDecode_fault hfield.end_eq (by omega))
  · rw [hvalue] at hempty
    obtain rfl : raw = [] := by simpa using hempty
    rw [hraw] at hname
    rw [List.length_append, List.length_singleton] at hend
    exact component_fault ignoreUnknown h hname hequal (by omega)

/-- A component without a name. -/
theorem component_nameless (h : StrAt size st.mem s comp) (hname : rawName comp = []) :
    ∃ mem', component size ignoreUnknown st s = .ok ⟨mem', st.table⟩ ∧
      ∀ i, s + comp.length ≤ i → mem' i = st.mem i := by
  have hskip : ∀ c ∈ comp.head?, c = 61 := by
    intro c hc
    cases comp with
    | nil => cases hc
    | cons c' comp =>
        cases hc
        by_contra hne
        rw [rawName, List.takeWhile_cons_of_pos (by simpa using hne)] at hname
        cases hname
  obtain ⟨mem', hok, hsame⟩ := component_skip ignoreUnknown h hskip
  exact ⟨mem', hok, fun i hi => hsame i (.inr hi)⟩

end Component

/-! ## Fields -/

section Table

variable {V : Type*}

/-- Whether a parser accepts a value depends on the value only. -/
def Uniform (table : List (Field V)) : Prop :=
  ∀ q ∈ table, ∀ u ptr v, (q.qParse u ptr v).isSome = (q.qParse q.qU 0 v).isSome

/-- The field of the table that a component sets. -/
def fieldAt (table : List (Field V)) (comp : CString) : Option ℕ :=
  if rawName comp = [] then none else table.findIdx? fun q => q.qField = nameOf comp

/-- The field is in the table, and its parser accepts the value. -/
def Takes (table : List (Field V)) (comp : CString) : Prop :=
  ∃ i q, fieldAt table comp = some i ∧ table[i]? = some q ∧
    (q.qParse q.qU 0 (valueOf comp)).isSome

/-- All components with a name are taken. -/
def Taken (table : List (Field V)) (comps : List CString) : Prop :=
  ∀ comp ∈ comps, rawName comp ≠ [] → Takes table comp

/-- Every required field is set by some component. -/
def Covered (table : List (Field V)) (comps : List CString) : Prop :=
  ∀ i q, table[i]? = some q → q.qIsReq = true → ∃ comp ∈ comps, fieldAt table comp = some i

/-- What a field keeps. -/
def Field.signature (q : Field V) : CString × (V → ℕ → CString → Option V) × Bool :=
  (q.qField, q.qParse, q.qIsReq)

/-- The table after some components have been taken. -/
structure After (table : List (Field V)) (comps : List CString) (table' : List (Field V)) :
    Prop where
  same : table'.map Field.signature = table.map Field.signature
  isSet : ∀ {i q}, table'[i]? = some q →
    (q.qIsSet = true ↔ ∃ comp ∈ comps, fieldAt table comp = some i)

theorem setField_missing {f : CString} {table : List (Field V)}
    (h : (table.findIdx? fun q => q.qField = f) = none) (ptr : ℕ) (value : CString) :
    setField false f ptr value table = .error := by
  induction table with
  | nil => rfl
  | cons q table ih =>
      rw [List.findIdx?_cons] at h
      by_cases hq : q.qField = f
      · rw [if_pos (decide_eq_true hq)] at h
        cases h
      · rw [if_neg (by simpa using hq), Option.map_eq_none_iff] at h
        rw [setField, if_neg hq, ih h]
        rfl

theorem setField_found {f : CString} {table : List (Field V)} {i : ℕ} {q : Field V}
    (h : (table.findIdx? fun q => q.qField = f) = some i) (hq : table[i]? = some q)
    (ptr : ℕ) (value : CString) :
    setField false f ptr value table =
      match q.qParse q.qU ptr value with
      | none => .error
      | some u => .ok (table.set i { q with qU := u, qIsSet := true }) := by
  induction table generalizing i with
  | nil => cases h
  | cons first table ih =>
      rw [List.findIdx?_cons] at h
      by_cases hfirst : first.qField = f
      · rw [if_pos (decide_eq_true hfirst)] at h
        cases h
        cases hq
        rw [setField, if_pos hfirst]
        rfl
      · rw [if_neg (by simpa using hfirst)] at h
        obtain ⟨i, hi, rfl⟩ := Option.map_eq_some_iff.1 h
        rw [List.getElem?_cons_succ] at hq
        rw [setField, if_neg hfirst, ih hi hq]
        cases q.qParse q.qU ptr value with
        | none => rfl
        | some u => rfl

namespace After

variable {table table' : List (Field V)} {comps : List CString} {comp : CString}

theorem findIdx? (h : After table comps table') (f : CString) :
    (table'.findIdx? fun q => q.qField = f) = table.findIdx? fun q => q.qField = f := by
  have hmap : ∀ t : List (Field V), (t.findIdx? fun q => q.qField = f) =
      (t.map Field.signature).findIdx? fun sig => sig.1 = f := fun t => by
    rw [List.findIdx?_map]
    rfl
  rw [hmap, hmap, h.same]

theorem getElem? (h : After table comps table') (i : ℕ) :
    table'[i]?.map Field.signature = table[i]?.map Field.signature := by
  rw [← List.getElem?_map, ← List.getElem?_map, h.same]

/-- A parser accepts what it accepted at first. -/
theorem parser (h : After table comps table') (huniform : Uniform table) {i : ℕ}
    {q' : Field V} (hq' : table'[i]? = some q') (ptr : ℕ) (value : CString) :
    ∃ q, table[i]? = some q ∧
      (q'.qParse q'.qU ptr value).isSome = (q.qParse q.qU 0 value).isSome := by
  have hkept := h.getElem? i
  rw [hq', Option.map_some] at hkept
  obtain ⟨q, hq, hsig⟩ := Option.map_eq_some_iff.1 hkept.symm
  have hparse : q.qParse = q'.qParse := congrArg (fun sig => sig.2.1) hsig
  refine ⟨q, hq, ?_⟩
  rw [← hparse]
  exact huniform q (List.mem_of_getElem? hq) q'.qU ptr value

/-- A component without a name changes nothing. -/
theorem skip (h : After table comps table') (hname : rawName comp = []) :
    After table (comps ++ [comp]) table' where
  same := h.same
  isSet hq := by
    have hnone : fieldAt table comp = none := if_pos hname
    rw [h.isSet hq]
    simp [hnone, or_and_right, exists_or]

/-- A component that is not taken is an error. -/
theorem refuse (h : After table comps table') (huniform : Uniform table)
    (hname : rawName comp ≠ []) (hnot : ¬ Takes table comp) (ptr : ℕ) :
    setField false (nameOf comp) ptr (valueOf comp) table' = .error := by
  have hfield : fieldAt table comp = table'.findIdx? fun q => q.qField = nameOf comp := by
    rw [h.findIdx?]
    exact if_neg hname
  cases hi : fieldAt table comp with
  | none => exact setField_missing (hfield.symm.trans hi) ptr _
  | some i =>
      have hi' := hfield.symm.trans hi
      obtain ⟨hlt, -⟩ := List.findIdx?_eq_some_iff_getElem.1 hi'
      have hq' : table'[i]? = some table'[i] := List.getElem?_eq_getElem hlt
      obtain ⟨q, hq, hsome⟩ := h.parser huniform hq' ptr (valueOf comp)
      rw [setField_found hi' hq']
      cases hu : table'[i].qParse table'[i].qU ptr (valueOf comp) with
      | none => rfl
      | some u =>
          rw [hu] at hsome
          exact absurd ⟨i, q, hi, hq, hsome.symm⟩ hnot

/-- A component that is taken sets its field. -/
theorem take (h : After table comps table') (huniform : Uniform table)
    (hname : rawName comp ≠ []) (htakes : Takes table comp) (ptr : ℕ) :
    ∃ table₂, setField false (nameOf comp) ptr (valueOf comp) table' = .ok table₂ ∧
      After table (comps ++ [comp]) table₂ := by
  obtain ⟨i, q, hi, hq, haccept⟩ := htakes
  have hi' : (table'.findIdx? fun q => q.qField = nameOf comp) = some i := by
    rw [h.findIdx?, ← hi]
    exact (if_neg hname).symm
  obtain ⟨hlt, -⟩ := List.findIdx?_eq_some_iff_getElem.1 hi'
  have hq' : table'[i]? = some table'[i] := List.getElem?_eq_getElem hlt
  obtain ⟨q₂, hq₂, hsome⟩ := h.parser huniform hq' ptr (valueOf comp)
  rw [hq] at hq₂
  cases hq₂
  rw [haccept] at hsome
  obtain ⟨u, hu⟩ := Option.isSome_iff_exists.1 hsome
  have hset := setField_found hi' hq' ptr (valueOf comp)
  rw [hu] at hset
  refine ⟨_, hset, ?_, fun {j r} hr => ?_⟩
  · have hlength : i < (table'.map Field.signature).length := by rwa [List.length_map]
    have hself : (table'.map Field.signature)[i] = table'[i].signature := List.getElem_map ..
    rw [List.map_set, ← h.same]
    change (table'.map Field.signature).set i table'[i].signature = _
    rw [← hself, List.set_getElem_self]
  · rw [List.getElem?_set] at hr
    by_cases hij : i = j
    · subst hij
      rw [if_pos rfl, if_pos hlt] at hr
      cases hr
      exact iff_of_true rfl ⟨comp, by simp, hi⟩
    · rw [if_neg hij] at hr
      rw [h.isSet hr]
      simp [hi, hij, or_and_right, exists_or]

end After

end Table

/-! ## What is seen -/

theorem length_cstr_decoded_rest_lt {text rest : CString} {c : Byte}
    (h : (text.dropWhile fun c => !isSeparator c) = c :: rest) :
    rest.length < text.length ∧ (cstr (decoded rest)).length < text.length := by
  have hdrop := (List.dropWhile_sublist (fun c => !isSeparator c) (l := text)).length_le
  have hle := length_cstr_decoded_le rest
  rw [h, List.length_cons] at hdrop
  omega

/-- The components that `query_parse` sees, and whether it reads past the end of
the block after them.  Behind a component that leaks, what follows is decoded
first; `room` says that this has made the query shorter than its block. -/
def seen (room : Bool) (text : CString) : List CString × Bool :=
  let first := text.takeWhile fun c => !isSeparator c
  match _hrest : text.dropWhile fun c => !isSeparator c with
  | [] => if leaks first && !room then ([], true) else ([first], false)
  | _ :: rest =>
      let later :=
        if leaks first then
          seen (room || decide ((cstr (decoded rest)).length < rest.length))
            (cstr (decoded rest))
        else seen room rest
      (first :: later.1, later.2)
termination_by text.length
decreasing_by
  · exact (length_cstr_decoded_rest_lt _hrest).2
  · exact (length_cstr_decoded_rest_lt _hrest).1

theorem seen_last {room : Bool} {text : CString} (h : ∀ c ∈ text, isSeparator c = false) :
    seen room text = if leaks text && !room then ([], true) else ([text], false) := by
  have hplain : ∀ c ∈ text, (!isSeparator c) = true := fun c hc => by rw [h c hc]; rfl
  have hfirst : (text.takeWhile fun c => !isSeparator c) = text :=
    List.takeWhile_eq_self_iff.2 hplain
  have hnil : (text.dropWhile fun c => !isSeparator c) = [] :=
    List.dropWhile_eq_nil_iff.2 hplain
  rw [seen]
  split
  · rw [hfirst]
  · next hcons =>
      rw [hnil] at hcons
      cases hcons

theorem seen_next {room : Bool} {first rest : CString} {c : Byte}
    (h : ∀ c ∈ first, isSeparator c = false) (hc : isSeparator c = true) :
    seen room (first ++ c :: rest) =
      if leaks first then
        (first :: (seen (room || decide ((cstr (decoded rest)).length < rest.length))
            (cstr (decoded rest))).1,
          (seen (room || decide ((cstr (decoded rest)).length < rest.length))
            (cstr (decoded rest))).2)
      else (first :: (seen room rest).1, (seen room rest).2) := by
  have hplain : ∀ c ∈ first, (!isSeparator c) = true := fun c hc => by rw [h c hc]; rfl
  have hfirst : ((first ++ c :: rest).takeWhile fun c => !isSeparator c) = first := by
    rw [List.takeWhile_append_of_pos hplain, List.takeWhile_cons_of_neg (by simp [hc]),
      List.append_nil]
  have hrest : ((first ++ c :: rest).dropWhile fun c => !isSeparator c) = c :: rest := by
    rw [List.dropWhile_append_of_pos hplain, List.dropWhile_cons_of_neg (by simp [hc])]
  rw [seen]
  split
  · next hnil =>
      rw [hrest] at hnil
      cases hnil
  · next hcons =>
      rw [hrest] at hcons
      cases hcons
      rw [hfirst]
      split <;> rfl

/-- Decoding changes nothing behind the first component. -/
theorem seen_next_unchanged {first rest : CString} {c : Byte}
    (h : ∀ c ∈ first, isSeparator c = false) (hc : isSeparator c = true)
    (hrest : leaks first = true → cstr (decoded rest) = rest) :
    seen false (first ++ c :: rest) = (first :: (seen false rest).1, (seen false rest).2) := by
  rw [seen_next h hc]
  split
  · next hleak => rw [hrest hleak, decide_eq_false (lt_irrefl _), Bool.or_false]
  · rfl

section Loop

variable {V : Type*} {table : List (Field V)}

/-- How the loop ends, by what it sees. -/
structure Ends (table : List (Field V)) (done : List CString) (view : List CString × Bool)
    (o : Outcome (Parsed V)) : Prop where
  error : ¬ Taken table view.1 → o = .error
  fault : Taken table view.1 → view.2 = true → o = .fault
  ok : Taken table view.1 → view.2 = false →
    ∃ st, o = .ok st ∧ After table (done ++ view.1) st.table

theorem taken_cons {comp : CString} {comps : List CString} :
    Taken table (comp :: comps) ↔
      (rawName comp ≠ [] → Takes table comp) ∧ Taken table comps :=
  List.forall_mem_cons

/-- A component that is seen, and what comes after it. -/
theorem Ends.cons {done comps : List CString} {comp : CString} {past : Bool}
    {o : Outcome (Parsed V)} {f : Parsed V → Outcome (Parsed V)}
    (herror : ¬ (rawName comp ≠ [] → Takes table comp) → o = .error)
    (hok : (rawName comp ≠ [] → Takes table comp) →
      ∃ st, o = .ok st ∧ Ends table (done ++ [comp]) (comps, past) (f st)) :
    Ends table done (comp :: comps, past) (o.bind f) := by
  by_cases htakes : rawName comp ≠ [] → Takes table comp
  · obtain ⟨st, rfl, hends⟩ := hok htakes
    refine ⟨fun hnot => hends.error fun hrest => hnot (taken_cons.2 ⟨htakes, hrest⟩),
      fun h => hends.fault (taken_cons.1 h).2, fun h hover => ?_⟩
    obtain ⟨st', hst', hafter⟩ := hends.ok (taken_cons.1 h).2 hover
    rw [List.append_assoc] at hafter
    exact ⟨st', hst', hafter⟩
  · rw [herror htakes]
    exact ⟨fun _ => rfl, fun h => absurd (taken_cons.1 h).1 htakes,
      fun h => absurd (taken_cons.1 h).1 htakes⟩

/-- The only component that is left. -/
theorem Ends.single {done : List CString} {comp : CString} {o : Outcome (Parsed V)}
    (herror : ¬ (rawName comp ≠ [] → Takes table comp) → o = .error)
    (hok : (rawName comp ≠ [] → Takes table comp) →
      ∃ st, o = .ok st ∧ After table (done ++ [comp]) st.table) :
    Ends table done ([comp], false) o := by
  have hsingle : Taken table [comp] ↔ (rawName comp ≠ [] → Takes table comp) := by
    rw [taken_cons, and_iff_left]
    exact fun c hc => absurd hc List.not_mem_nil
  exact
    { error := fun hnot => herror (mt hsingle.2 hnot)
      fault := fun _ hover => absurd hover Bool.false_ne_true
      ok := fun h _ => hok (hsingle.1 h) }

variable {size s : ℕ} {st : Parsed V} {done : List CString} {comp : CString}

/-- What a component comes to once its value is known. -/
theorem After.component (hafter : After table done st.table) (huniform : Uniform table)
    (hname : rawName comp ≠ []) {mem' : ℕ → Byte} {ptr : ℕ}
    (heq : component size false st s =
      (setField false (nameOf comp) ptr (valueOf comp) st.table).bind
        fun table => .ok ⟨mem', table⟩) :
    (¬ (rawName comp ≠ [] → Takes table comp) → Query.component size false st s = .error) ∧
      ((rawName comp ≠ [] → Takes table comp) →
        ∃ table', Query.component size false st s = .ok ⟨mem', table'⟩ ∧
          After table (done ++ [comp]) table') := by
  rw [heq]
  constructor
  · intro hnot
    rw [hafter.refuse huniform hname (fun htakes => hnot fun _ => htakes) ptr]
    rfl
  · intro htakes
    obtain ⟨table', hset, hafter'⟩ := hafter.take huniform hname (htakes hname) ptr
    rw [hset]
    exact ⟨table', rfl, hafter'⟩

/-- A component that leaves the rest of the query alone. -/
theorem After.kept (hafter : After table done st.table) (huniform : Uniform table)
    (hend : st.mem (size - 1) = 0) (h : StrAt size st.mem s comp) (hleak : leaks comp = false) :
    ∃ mem', (∀ i, s + comp.length ≤ i → mem' i = st.mem i) ∧
      (¬ (rawName comp ≠ [] → Takes table comp) → Query.component size false st s = .error) ∧
      ((rawName comp ≠ [] → Takes table comp) →
        ∃ table', Query.component size false st s = .ok ⟨mem', table'⟩ ∧
          After table (done ++ [comp]) table') := by
  by_cases hname : rawName comp = []
  · obtain ⟨mem', hok, hsame⟩ := component_nameless false h hname
    exact ⟨mem', hsame, fun hnot => absurd (fun hne => absurd hname hne) hnot,
      fun _ => ⟨st.table, hok, hafter.skip hname⟩⟩
  · obtain ⟨mem', ptr, heq, hsame⟩ := component_passed false hend h hname hleak
    exact ⟨mem', hsame, hafter.component huniform hname heq⟩

theorem rawName_of_leaks (h : leaks comp = true) : rawName comp ≠ [] := by
  rw [leaks, Bool.and_eq_true, bne_iff_ne] at h
  exact h.1

/-- A component with another one behind it. -/
theorem After.first {table' : List (Field V)} (hafter : After table done table')
    (huniform : Uniform table) {mem : ℕ → Byte} (hend : mem (size - 1) = 0)
    (h : StrAt size mem s comp) {rest : CString}
    (hrest : StrAt size mem (s + comp.length + 1) rest) :
    ∃ mem', mem' (size - 1) = 0 ∧
      StrAt size mem' (s + comp.length + 1)
        (if leaks comp then cstr (decoded rest) else rest) ∧
      (¬ (rawName comp ≠ [] → Takes table comp) →
        Query.component size false ⟨mem, table'⟩ s = .error) ∧
      ((rawName comp ≠ [] → Takes table comp) →
        ∃ table₂, Query.component size false ⟨mem, table'⟩ s = .ok ⟨mem', table₂⟩ ∧
          After table (done ++ [comp]) table₂) := by
  have hlt := hrest.lt
  cases hleak : leaks comp with
  | false =>
      obtain ⟨mem', hsame, hresult⟩ :=
        @After.kept V table size s ⟨mem, table'⟩ done comp hafter huniform hend h hleak
      refine ⟨mem', (hsame _ (by omega)).trans hend, ?_, hresult⟩
      rw [if_neg Bool.false_ne_true]
      exact hrest.congr fun i hi _ => hsame i (by omega)
  | true =>
      obtain ⟨mem', ptr, heq, hrest', hsame⟩ :=
        @component_leaked V size s ⟨mem, table'⟩ comp rest false h hleak hrest
      refine ⟨mem', (hsame _ (by omega)).trans hend, ?_, ?_⟩
      · rw [if_pos rfl]
        exact hrest'
      · exact @After.component V table size s ⟨mem, table'⟩ done comp hafter huniform
          (rawName_of_leaks hleak) mem' ptr heq

theorem queryLoop_ends (huniform : Uniform table) {text : CString} {room : Bool}
    (hend : st.mem (size - 1) = 0) (h : StrAt size st.mem s text)
    (hroom : room = decide (s + text.length + 1 < size)) (hafter : After table done st.table) :
    Ends table done (seen room text) (queryLoop size false st s) := by
  induction hn : size - s using Nat.strong_induction_on generalizing s text st done room with
  | _ n ih =>
      have hlt := h.lt
      rcases split_first isSeparator text with hnone | ⟨first, c, rest, rfl, hfirst, hc⟩
      · have hplain : ∀ c ∈ text, c ≠ 38 ∧ c ≠ 59 := fun c hc => by
          simpa [isSeparator] using hnone c hc
        rw [queryLoop_last h hplain, seen_last hnone]
        cases hleak : leaks text with
        | false =>
            obtain ⟨mem', -, herror, hok⟩ := hafter.kept huniform hend h hleak
            refine Ends.single herror fun htakes => ?_
            obtain ⟨table', hrun, hafter'⟩ := hok htakes
            exact ⟨_, hrun, hafter'⟩
        | true =>
            by_cases hshort : s + text.length + 1 < size
            · -- there are bytes behind the end, left from decoding
              rw [decide_eq_true hshort] at hroom
              subst hroom
              obtain ⟨behind, hbehind⟩ := exists_strAt hend hshort
              obtain ⟨mem', ptr, heq, -, -⟩ := component_leaked false h hleak hbehind
              obtain ⟨herror, hok⟩ :=
                hafter.component huniform (rawName_of_leaks hleak) heq
              refine Ends.single herror fun htakes => ?_
              obtain ⟨table', hrun, hafter'⟩ := hok htakes
              exact ⟨_, hrun, hafter'⟩
            · rw [decide_eq_false hshort] at hroom
              subst hroom
              rw [component_overrun false h hleak (by omega)]
              exact
                { error := fun hnot => absurd (fun c hc => absurd hc List.not_mem_nil) hnot
                  fault := fun _ _ => rfl
                  ok := fun _ hover => absurd hover.symm Bool.false_ne_true }
      · have hplain : ∀ c ∈ first, c ≠ 38 ∧ c ≠ 59 := fun c hc => by
          simpa [isSeparator] using hfirst c hc
        have hcut : c = 38 ∨ c = 59 := by simpa [isSeparator] using hc
        rw [List.length_append, List.length_cons] at hlt hroom
        have hend₀ : update st.mem (s + first.length) 0 (size - 1) = 0 :=
          (update_of_ne (by omega) _ _).trans hend
        obtain ⟨mem', hend', hrest, herror, hok⟩ :=
          hafter.first huniform hend₀ h.cut_first h.cut_rest
        have hle := length_cstr_decoded_le rest
        rw [queryLoop_next h hplain hcut, seen_next hfirst hc]
        split
        · next hleak =>
            refine Ends.cons herror fun htakes => ?_
            obtain ⟨table', hrun, hafter'⟩ := hok htakes
            rw [if_pos hleak] at hrest
            refine ⟨_, hrun, ih _ (by omega) hend' hrest ?_ hafter' rfl⟩
            rw [hroom, Bool.or_eq_decide]
            congr 1
            apply propext
            simp only [decide_eq_true_eq]
            omega
        · next hleak =>
            refine Ends.cons herror fun htakes => ?_
            obtain ⟨table', hrun, hafter'⟩ := hok htakes
            rw [if_neg hleak] at hrest
            refine ⟨_, hrun, ih _ (by omega) hend' hrest ?_ hafter' rfl⟩
            rw [hroom]
            congr 1
            apply propext
            omega

end Loop

/-! ## Acceptance -/

section Acceptance

variable {V : Type*} {table : List (Field V)} {text : CString}

/-- Each `%` in a name or a value is followed by two hex digits. -/
def EscapedWell (text : CString) : Prop :=
  ∀ comp ∈ components text, rawName comp ≠ [] →
    wellEscaped (rawName comp) = true ∧ wellEscaped ((rawValue comp).getD []) = true

/-- A query as it should be. -/
structure Acceptable (table : List (Field V)) (text : CString) : Prop where
  escaped : EscapedWell text
  taken : Taken table (components text)
  covered : Covered table (components text)

/-- `query_parse` of a string that is all its block holds, with no flags. -/
def parseString (table : List (Field V)) (text : CString) : Outcome (Parsed V) :=
  queryParse (text.length + 1) false table (some (strdup text))

/-- Decoding leaves the bytes as they are. -/
def Literal (text : CString) : Prop :=
  ∀ c ∈ text, c ≠ 37 ∧ c ≠ 43

/-- Nothing behind an empty value changes when it is decoded once more.  A query
without empty values is settled. -/
def Settled : List CString → Prop
  | [] => True
  | comp :: later => (leaks comp = true → ∀ next ∈ later, Literal next) ∧ Settled later

instance (text : CString) : Decidable (Literal text) :=
  inferInstanceAs (Decidable (∀ c ∈ text, c ≠ 37 ∧ c ≠ 43))

instance decidableSettled : (comps : List CString) → Decidable (Settled comps)
  | [] => isTrue trivial
  | comp :: later =>
      have := decidableSettled later
      inferInstanceAs (Decidable ((leaks comp = true → ∀ next ∈ later, Literal next) ∧ _))

/-- An empty value is the last thing in the block. -/
def endsEmpty (comps : List CString) : Bool :=
  comps.getLast?.any leaks

/-- It returns 0 for the queries that are as they should be, and -1 for others. -/
structure Decides (table : List (Field V)) (text : CString) : Prop where
  ok : (∃ st, parseString table text = .ok st) ↔ Acceptable table text
  error : ¬ Acceptable table text → parseString table text = .error

/-- What is seen of a query makes no difference: it is inside the block, and it
is taken and complete only if, and whenever, the query is as it should be. -/
structure Faithful (table : List (Field V)) (text : CString) : Prop where
  inside : Taken table (seen false text).1 → (seen false text).2 = false
  sound : Taken table (seen false text).1 → Covered table (seen false text).1 →
    Acceptable table text
  complete : Acceptable table text →
    Taken table (seen false text).1 ∧ Covered table (seen false text).1

theorem After.init (hfresh : ∀ q ∈ table, q.qIsSet = false) : After table [] table where
  same := rfl
  isSet hq := by
    rw [hfresh _ (List.mem_of_getElem? hq)]
    exact iff_of_false Bool.false_ne_true fun ⟨_, hcomp, _⟩ => List.not_mem_nil hcomp

/-- The loop that looks for missing fields. -/
theorem After.missing {comps : List CString} {table' : List (Field V)}
    (h : After table comps table') :
    (table'.any fun q => q.qIsReq && !q.qIsSet) = true ↔ ¬ Covered table comps := by
  rw [List.any_eq_true, Covered]
  push Not
  constructor
  · rintro ⟨q', hmem, hmissing⟩
    rw [Bool.and_eq_true, Bool.not_eq_true'] at hmissing
    obtain ⟨i, hq'⟩ := List.mem_iff_getElem?.1 hmem
    have hkept := h.getElem? i
    rw [hq', Option.map_some] at hkept
    obtain ⟨q, hq, hsig⟩ := Option.map_eq_some_iff.1 hkept.symm
    have hreq : q.qIsReq = q'.qIsReq := congrArg (fun sig => sig.2.2) hsig
    refine ⟨i, q, hq, hreq.trans hmissing.1, fun comp hcomp hfield => ?_⟩
    have hset := (h.isSet hq').2 ⟨comp, hcomp, hfield⟩
    rw [hmissing.2] at hset
    cases hset
  · rintro ⟨i, q, hq, hreq, hnone⟩
    have hkept := h.getElem? i
    rw [hq, Option.map_some] at hkept
    obtain ⟨q', hq', hsig⟩ := Option.map_eq_some_iff.1 hkept
    have hreq' : q'.qIsReq = q.qIsReq := congrArg (fun sig => sig.2.2) hsig
    refine ⟨q', List.mem_of_getElem? hq', ?_⟩
    rw [Bool.and_eq_true, Bool.not_eq_true', hreq', hreq]
    refine ⟨rfl, Bool.eq_false_iff.2 fun hset => ?_⟩
    obtain ⟨comp, hcomp, hfield⟩ := (h.isSet hq').1 hset
    exact hnone comp hcomp hfield

/-- What `query_parse` returns, by what it sees. -/
theorem parseString_ends (huniform : Uniform table) (hfresh : ∀ q ∈ table, q.qIsSet = false)
    (htext : ∀ c ∈ text, c ≠ 0) :
    (¬ Taken table (seen false text).1 → parseString table text = .error) ∧
      (Taken table (seen false text).1 → (seen false text).2 = true →
        parseString table text = .fault) ∧
      (Taken table (seen false text).1 → (seen false text).2 = false →
        (Covered table (seen false text).1 → ∃ st, parseString table text = .ok st) ∧
        (¬ Covered table (seen false text).1 → parseString table text = .error)) := by
  have hstring := strAt_strdup htext
  have hend : strdup text (text.length + 1 - 1) = 0 := by
    have hzero := hstring.end_eq
    rwa [Nat.zero_add] at hzero
  have hroom : false = decide (0 + text.length + 1 < text.length + 1) := by simp
  have hends : Ends table [] (seen false text)
      (queryLoop (text.length + 1) false ⟨strdup text, table⟩ 0) :=
    queryLoop_ends huniform hend hstring hroom (After.init hfresh)
  rw [parseString, queryParse]
  refine ⟨fun hnot => ?_, fun htaken hover => ?_, fun htaken hover => ?_⟩
  · rw [hends.error hnot]
    rfl
  · rw [hends.fault htaken hover]
    rfl
  · obtain ⟨st, hst, hafter⟩ := hends.ok htaken hover
    rw [List.nil_append] at hafter
    simp only [hst, Outcome.bind]
    constructor
    · intro hcovered
      rw [if_neg fun hmissing => hafter.missing.1 hmissing hcovered]
      exact ⟨st, rfl⟩
    · exact fun hnot => if_pos (hafter.missing.2 hnot)

/-- What `query_parse` returns is right exactly for queries of which it sees
nothing else. -/
theorem decides_iff_faithful (huniform : Uniform table)
    (hfresh : ∀ q ∈ table, q.qIsSet = false) (htext : ∀ c ∈ text, c ≠ 0) :
    Decides table text ↔ Faithful table text := by
  obtain ⟨herror, hfault, hok⟩ := parseString_ends huniform hfresh htext
  constructor
  · intro h
    have hinside : Taken table (seen false text).1 → (seen false text).2 = false := by
      intro htaken
      by_contra hover
      have hrun := hfault htaken (by simpa using hover)
      by_cases hacceptable : Acceptable table text
      · obtain ⟨st, hst⟩ := h.ok.2 hacceptable
        rw [hrun] at hst
        cases hst
      · rw [h.error hacceptable] at hrun
        cases hrun
    refine ⟨hinside, fun htaken hcovered => ?_, fun hacceptable => ?_⟩
    · exact h.ok.1 ((hok htaken (hinside htaken)).1 hcovered)
    · obtain ⟨st, hst⟩ := h.ok.2 hacceptable
      by_cases htaken : Taken table (seen false text).1
      · refine ⟨htaken, ?_⟩
        by_contra hmissing
        rw [(hok htaken (hinside htaken)).2 hmissing] at hst
        cases hst
      · rw [herror htaken] at hst
        cases hst
  · intro h
    have hreject : ¬ Acceptable table text → parseString table text = .error := by
      intro hnot
      by_cases htaken : Taken table (seen false text).1
      · exact (hok htaken (h.inside htaken)).2 fun hcovered => hnot (h.sound htaken hcovered)
      · exact herror htaken
    refine ⟨⟨?_, fun hacceptable => ?_⟩, hreject⟩
    · rintro ⟨st, hst⟩
      by_contra hnot
      rw [hreject hnot] at hst
      cases hst
    · obtain ⟨htaken, hcovered⟩ := h.complete hacceptable
      exact (hok htaken (h.inside htaken)).1 hcovered

theorem literal_of_components (h : ∀ comp ∈ components text, Literal comp) : Literal text := by
  induction hlength : text.length using Nat.strong_induction_on generalizing text with
  | _ n ih =>
      rcases split_first isSeparator text with hnone | ⟨first, c, rest, rfl, hfirst, hc⟩
      · have hcomponents : components text = [text] := List.splitOnP_eq_singleton hnone
        rw [hcomponents, List.forall_mem_singleton] at h
        exact h
      · have hcomponents : components (first ++ c :: rest) = first :: components rest :=
          List.splitOnP_append_cons_of_forall_mem hfirst c hc rest
        rw [hcomponents, List.forall_mem_cons] at h
        have hlt : rest.length < n := by
          rw [← hlength, List.length_append, List.length_cons]
          omega
        have hcut : c = 38 ∨ c = 59 := by simpa [isSeparator] using hc
        rw [Literal, List.forall_mem_append, List.forall_mem_cons]
        refine ⟨h.1, ?_, ih _ hlt h.2 rfl⟩
        obtain rfl | rfl := hcut <;> decide

/-- A query in which decoding changes nothing behind an empty value is seen as it
is, but for an empty value at its end. -/
theorem seen_of_settled (htext : ∀ c ∈ text, c ≠ 0) (h : Settled (components text)) :
    seen false text =
      if endsEmpty (components text) then ((components text).dropLast, true)
      else (components text, false) := by
  induction hlength : text.length using Nat.strong_induction_on generalizing text with
  | _ n ih =>
      rcases split_first isSeparator text with hnone | ⟨first, c, rest, rfl, hfirst, hc⟩
      · have hcomponents : components text = [text] := List.splitOnP_eq_singleton hnone
        rw [seen_last hnone, hcomponents, Bool.not_false, Bool.and_true]
        rfl
      · have hcomponents : components (first ++ c :: rest) = first :: components rest :=
          List.splitOnP_append_cons_of_forall_mem hfirst c hc rest
        have hne : components rest ≠ [] := List.splitOnP_ne_nil _ rest
        have hlast : endsEmpty (first :: components rest) = endsEmpty (components rest) := by
          rw [endsEmpty, endsEmpty, List.getLast?_cons_of_ne_nil hne]
        rw [hcomponents, Settled] at h
        rw [List.forall_mem_append, List.forall_mem_cons] at htext
        have hlt : rest.length < n := by
          rw [← hlength, List.length_append, List.length_cons]
          omega
        have hrest := ih _ hlt htext.2.2 h.2 rfl
        have hlater : leaks first = true → cstr (decoded rest) = rest := fun hleak => by
          rw [decoded_eq_self (literal_of_components (h.1 hleak)),
            cstr_of_nul fun hnul => htext.2.2 0 hnul rfl]
        rw [seen_next_unchanged hfirst hc hlater, hrest, hcomponents, hlast,
          List.dropLast_cons_of_ne_nil hne]
        split <;> rfl

/-- Where decoding changes nothing behind an empty value, `query_parse` decides
whether a query is as it should be exactly when a query with a bad escape has
another fault, too, and a query with an empty value at its end has one before.
In general, it does so exactly when what it sees of the query makes no
difference. -/
theorem query_acceptance_iff (huniform : Uniform table)
    (hfresh : ∀ q ∈ table, q.qIsSet = false) (htext : ∀ c ∈ text, c ≠ 0) :
    (Settled (components text) → endsEmpty (components text) = false →
      (Decides table text ↔
        (Taken table (components text) → Covered table (components text) →
          EscapedWell text))) ∧
      (Settled (components text) → endsEmpty (components text) = true →
        (Decides table text ↔ ¬ Taken table (components text).dropLast)) ∧
      (Decides table text ↔ Faithful table text) := by
  have hiff := decides_iff_faithful huniform hfresh htext
  refine ⟨fun hsettled hlast => hiff.trans ?_, fun hsettled hlast => hiff.trans ?_, hiff⟩
  · have hseen : seen false text = (components text, false) := by
      rw [seen_of_settled htext hsettled, hlast, if_neg Bool.false_ne_true]
    constructor
    · intro h htaken hcovered
      have hsound := h.sound
      rw [hseen] at hsound
      exact (hsound htaken hcovered).escaped
    · intro h
      constructor
      · rw [hseen]
        exact fun _ => rfl
      · rw [hseen]
        exact fun htaken hcovered => ⟨h htaken hcovered, htaken, hcovered⟩
      · rw [hseen]
        exact fun hacceptable => ⟨hacceptable.taken, hacceptable.covered⟩
  · have hseen : seen false text = ((components text).dropLast, true) := by
      rw [seen_of_settled htext hsettled, hlast, if_pos rfl]
    constructor
    · intro h htaken
      have hinside := h.inside
      rw [hseen] at hinside
      exact Bool.false_ne_true (hinside htaken).symm
    · intro hnot
      constructor
      · rw [hseen]
        exact fun htaken => absurd htaken hnot
      · rw [hseen]
        exact fun htaken => absurd htaken hnot
      · intro hacceptable
        refine absurd (fun comp hcomp => ?_) hnot
        exact hacceptable.taken comp (List.dropLast_subset _ hcomp)

end Acceptance

/-- One required string. -/
def ownerTable : List (Field UString) :=
  [⟨lit "owner", .initial none, qStringParse, true, false⟩]

theorem uniform_ownerTable : Uniform ownerTable := by
  intro q hq u ptr v
  obtain rfl := List.mem_singleton.1 hq
  rfl

/-- An empty value with a second one behind it, and one with nothing behind it. -/
theorem query_acceptance_sample :
    (Decides ownerTable (lit "owner=&owner=alice") ↔
      (Taken ownerTable (components (lit "owner=&owner=alice")) →
        Covered ownerTable (components (lit "owner=&owner=alice")) →
          EscapedWell (lit "owner=&owner=alice"))) ∧
      (Decides ownerTable (lit "owner=") ↔
        ¬ Taken ownerTable (components (lit "owner=")).dropLast) :=
  ⟨(query_acceptance_iff uniform_ownerTable (by decide) (by decide +kernel)).1
      (by decide +kernel) (by decide +kernel),
    (query_acceptance_iff uniform_ownerTable (by decide) (by decide +kernel)).2.1
      (by decide +kernel) (by decide +kernel)⟩

/-- The bad escape ends the value, which is accepted. -/
theorem bad_escape_accepted : ¬ Decides ownerTable (lit "owner=a%zz") := by
  intro h
  have hseen : seen false (lit "owner=a%zz") = ([lit "owner=a%zz"], false) := by
    rw [seen_last (by decide +kernel)]
    rfl
  have hfield : fieldAt ownerTable (lit "owner=a%zz") = some 0 := by decide +kernel
  have htaken : Taken ownerTable (seen false (lit "owner=a%zz")).1 := by
    rw [hseen]
    intro comp hcomp _
    obtain rfl := List.mem_singleton.1 hcomp
    exact ⟨0, _, hfield, rfl, rfl⟩
  have hcovered : Covered ownerTable (seen false (lit "owner=a%zz")).1 := by
    rw [hseen]
    intro i q hq _
    obtain ⟨hlt, -⟩ := List.getElem?_eq_some_iff.1 hq
    obtain rfl : i = 0 := Nat.lt_one_iff.1 hlt
    exact ⟨_, List.mem_singleton_self _, hfield⟩
  have hends := parseString_ends uniform_ownerTable (by decide)
    (by decide +kernel : ∀ c ∈ lit "owner=a%zz", c ≠ 0)
  have hover : (seen false (lit "owner=a%zz")).2 = false := by rw [hseen]
  have hacceptable := h.ok.1 ((hends.2.2 htaken hover).1 hcovered)
  have hescaped := hacceptable.escaped (lit "owner=a%zz") (by decide +kernel) (by decide +kernel)
  exact absurd hescaped.2 (by decide +kernel)

end Xltop.Query
