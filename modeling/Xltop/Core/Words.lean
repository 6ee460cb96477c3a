import Xltop.Core.Text

/-!
# Words

`split` cuts a line into words one by one.  The words of a line are what is left
between its white space, and a line that was put together from words with single
blanks has these words.
-/

namespace Xltop.Text

/-- The words of a string. -/
def words (s : CString) : List CString :=
  (s.splitOnP isSpace).filter fun word => word ≠ []

/-- The words that a reference has still to give. -/
def refWords (ref : Option CString) : List CString :=
  (ref.map words).getD []

/-- The pieces of a string that are not empty. -/
def tokens (delim : Byte → Bool) (s : CString) : List CString :=
  (s.splitOnP delim).filter fun token => token ≠ []

/-- The pieces that a reference has still to give. -/
def refTokens (delim : Byte → Bool) (ref : Option CString) : List CString :=
  (ref.map (tokens delim)).getD []

theorem span_delim (delim : Byte → Bool) (s : CString) :
    (∀ c ∈ s.takeWhile fun c => !delim c, delim c = false) ∧
      ∀ c ∈ (s.dropWhile fun c => !delim c).head?, delim c = true := by
  constructor
  · intro c hc
    simpa using List.mem_takeWhile_imp hc
  · intro c hc
    have hfirst := List.head?_dropWhile_not (fun c => !delim c) s
    rw [Option.mem_def.1 hc] at hfirst
    simpa using hfirst

/-- The first piece of a string and the pieces after it. -/
theorem tokens_strsep (delim : Byte → Bool) (s : CString) :
    tokens delim s = (if s.takeWhile (fun c => !delim c) = [] then []
      else [s.takeWhile fun c => !delim c]) ++ refTokens delim (strsep delim (some s)).2 := by
  obtain ⟨htoken, hdelim⟩ := span_delim delim s
  have happend := List.takeWhile_append_dropWhile (p := fun c => !delim c) (l := s)
  have hpieces : s.splitOnP delim = s.takeWhile (fun c => !delim c) ::
      ((strsep delim (some s)).2.map fun rest => rest.splitOnP delim).getD [] := by
    rw [strsep]
    cases hdrop : s.dropWhile fun c => !delim c with
    | nil =>
        rw [hdrop, List.append_nil] at happend
        rw [happend] at htoken ⊢
        exact List.splitOnP_eq_singleton htoken
    | cons c rest =>
        rw [hdrop] at hdelim happend
        conv_lhs => rw [← happend]
        exact List.splitOnP_append_cons_of_forall_mem htoken c (hdelim c rfl) rest
  rw [tokens, hpieces, List.filter_cons]
  have hrest : refTokens delim (strsep delim (some s)).2 =
      ((((strsep delim (some s)).2.map fun rest => rest.splitOnP delim).getD []).filter
        fun token => token ≠ []) := by
    cases (strsep delim (some s)).2 <;> rfl
  rw [hrest]
  by_cases hnil : s.takeWhile (fun c => !delim c) = []
  · rw [if_pos hnil, if_neg (by simpa using hnil), List.nil_append]
  · rw [if_neg hnil, if_pos (by simpa using hnil), List.singleton_append]

/-- `strsep_ne` gives the next piece that is not empty. -/
theorem refTokens_strsepNe (delim : Byte → Bool) (ref : Option CString) :
    refTokens delim ref =
      (strsepNe delim ref).1.toList ++ refTokens delim (strsepNe delim ref).2 := by
  fun_induction strsepNe delim ref with
  | case1 => rfl
  | case2 s hempty ih =>
      have hnil : s.takeWhile (fun c => !delim c) = [] := Option.some.inj hempty
      rw [← ih]
      change tokens delim s = _
      rw [tokens_strsep, if_pos hnil, List.nil_append]
  | case3 s htoken =>
      have hne : s.takeWhile (fun c => !delim c) ≠ [] := fun hnil =>
        htoken (congrArg some hnil)
      change tokens delim s = _
      rw [tokens_strsep, if_neg hne]
      rfl

theorem strsepNe_fst_eq_none {delim : Byte → Bool} {ref : Option CString}
    (h : (strsepNe delim ref).1 = none) : (strsepNe delim ref).2 = none := by
  revert h
  fun_induction strsepNe delim ref with
  | case1 => exact fun _ => rfl
  | case2 s hempty ih => exact ih
  | case3 s htoken => exact fun h => by cases h

theorem refSize_strsepNe_le (delim : Byte → Bool) (ref : Option CString) :
    refSize (strsepNe delim ref).2 ≤ refSize ref := by
  fun_induction strsepNe delim ref with
  | case1 => exact le_rfl
  | case2 s hempty ih => exact ih.trans (refSize_strsep_lt delim s).le
  | case3 s htoken => exact (refSize_strsep_lt delim s).le

/-- A token is cut off. -/
theorem refSize_strsepNe_lt (delim : Byte → Bool) (s : CString) :
    refSize (strsepNe delim (some s)).2 < refSize (some s) := by
  rw [strsepNe]
  split
  · exact (refSize_strsepNe_le delim _).trans_lt (refSize_strsep_lt delim s)
  · exact refSize_strsep_lt delim s

theorem span_space (s : CString) :
    (∀ c ∈ s.takeWhile fun c => !isSpace c, isSpace c = false) ∧
      ∀ c ∈ (s.dropWhile fun c => !isSpace c).head?, isSpace c = true :=
  span_delim isSpace s

/-- A piece of a string and the words after it. -/
theorem words_strsep (s : CString) :
    words s = (if s.takeWhile (fun c => !isSpace c) = [] then []
      else [s.takeWhile fun c => !isSpace c]) ++ refWords (strsep isSpace (some s)).2 :=
  tokens_strsep isSpace s

/-- `wsep` gives the next word. -/
theorem refWords_wsep (ref : Option CString) :
    refWords ref = (wsep ref).1.toList ++ refWords (wsep ref).2 :=
  refTokens_strsepNe isSpace ref

theorem wsep_fst_eq_none {ref : Option CString} (h : (wsep ref).1 = none) :
    (wsep ref).2 = none :=
  strsepNe_fst_eq_none h

theorem wsep_of_word {s : CString} (h : (s.takeWhile fun c => !isSpace c) ≠ []) :
    wsep (some s) = strsep isSpace (some s) := by
  rw [wsep, strsepNe]
  split
  · next hempty => exact absurd (Option.some.inj hempty) h
  · rfl

theorem refSize_wsep_le (ref : Option CString) : refSize (wsep ref).2 ≤ refSize ref :=
  refSize_strsepNe_le isSpace ref

theorem refSize_split_le (targets : ℕ) (ref : Option CString) :
    refSize (split targets ref).2 ≤ refSize ref := by
  induction targets generalizing ref with
  | zero => exact le_rfl
  | succ targets ih =>
      have hle := refSize_wsep_le ref
      rw [split]
      cases hwsep : wsep ref with
      | mk word rest =>
          rw [hwsep] at hle
          cases word with
          | none => exact hle
          | some word => exact (ih rest).trans hle

/-- `split` gives the first words. -/
theorem split_fst (targets : ℕ) (ref : Option CString) :
    (split targets ref).1 = (refWords ref).take targets := by
  induction targets generalizing ref with
  | zero => rfl
  | succ targets ih =>
      rw [split, refWords_wsep]
      cases hwsep : wsep ref with
      | mk word rest =>
          cases word with
          | none =>
              have hrest := wsep_fst_eq_none (congrArg Prod.fst hwsep)
              rw [hwsep] at hrest
              obtain rfl : rest = none := hrest
              rfl
          | some word =>
              simp only [Option.toList_some, List.singleton_append, List.take_succ_cons, ih]

/-! ## Lines of words -/

/-- A string that `split` gives back whole. -/
structure IsWord (word : CString) : Prop where
  ne_nil : word ≠ []
  space : ∀ c ∈ word, isSpace c = false

theorem words_word {word : CString} (h : IsWord word) : words word = [word] := by
  rw [words, List.splitOnP_eq_singleton h.space, List.filter_cons_of_pos (by simpa using h.ne_nil)]
  rfl

theorem words_word_append {word : CString} (h : IsWord word) {c : Byte} (hc : isSpace c = true)
    (rest : CString) : words (word ++ c :: rest) = word :: words rest := by
  rw [words, List.splitOnP_append_cons_of_forall_mem h.space c hc,
    List.filter_cons_of_pos (by simpa using h.ne_nil)]
  rfl

/-- The words of a string are words, of bytes of the string. -/
theorem mem_words {s word : CString} (h : word ∈ words s) :
    IsWord word ∧ ∀ c ∈ word, c ∈ s := by
  induction hlength : s.length using Nat.strong_induction_on generalizing s with
  | _ n ih =>
      rw [words_strsep] at h
      rcases List.mem_append.1 h with hfirst | hrest
      · split at hfirst
        · cases hfirst
        · next hne =>
            rw [List.mem_singleton.1 hfirst]
            exact ⟨⟨hne, (span_space s).1⟩, fun c hc => (List.takeWhile_sublist _).mem hc⟩
      · have hlt := refSize_strsep_lt isSpace s
        have hsuffix : ∀ rest, (strsep isSpace (some s)).2 = some rest → rest <:+ s := by
          intro rest hrest
          have hdrop := List.dropWhile_suffix (fun c => !isSpace c) (l := s)
          rw [strsep] at hrest
          cases hspan : s.dropWhile fun c => !isSpace c with
          | nil =>
              rw [hspan] at hrest
              cases hrest
          | cons c tail =>
              rw [hspan] at hrest hdrop
              rw [← Option.some.inj hrest]
              exact (List.suffix_cons c tail).trans hdrop
        cases href : (strsep isSpace (some s)).2 with
        | none =>
            rw [href] at hrest
            cases hrest
        | some rest =>
            rw [href] at hrest hlt
            obtain ⟨hword, hbytes⟩ :=
              ih rest.length (hlength ▸ Nat.lt_of_succ_lt_succ hlt) hrest rfl
            exact ⟨hword, fun c hc => (hsuffix rest href).mem (hbytes c hc)⟩

/-- A word without a NUL, which a C string can hold. -/
structure IsToken (word : CString) : Prop extends IsWord word where
  nul : 0 ∉ word

theorem isToken_of_mem_words {s word : CString} (hs : 0 ∉ s) (h : word ∈ words s) :
    IsToken word :=
  ⟨(mem_words h).1, fun hnul => hs ((mem_words h).2 0 hnul)⟩

theorem mem_words_of_split {targets : ℕ} {s word : CString}
    (h : word ∈ (split targets (some s)).1) : word ∈ words s := by
  rw [split_fst] at h
  exact List.mem_of_mem_take h

theorem mem_words_of_wsep {s word : CString} (h : (wsep (some s)).1 = some word) :
    word ∈ words s := by
  change word ∈ refWords (some s)
  rw [refWords_wsep, h]
  exact List.mem_cons_self

/-- Words with single blanks between them. -/
def joinWords : List CString → CString
  | [] => []
  | [word] => word
  | word :: rest => word ++ 32 :: joinWords rest

theorem words_joinWords {ws : List CString} (h : ∀ word ∈ ws, IsWord word) :
    words (joinWords ws) = ws := by
  fun_induction joinWords ws with
  | case1 => rfl
  | case2 word => exact words_word (h word List.mem_cons_self)
  | case3 word rest hrest ih =>
      rw [List.forall_mem_cons] at h
      rw [words_word_append h.1 (by decide), ih h.2]

/-- A byte of a joined text is a blank or belongs to a word. -/
theorem mem_joinWords {ws : List CString} {c : Byte} (h : c ∈ joinWords ws) :
    c = 32 ∨ ∃ word ∈ ws, c ∈ word := by
  fun_induction joinWords ws with
  | case1 => cases h
  | case2 word => exact .inr ⟨word, List.mem_cons_self, h⟩
  | case3 word rest hrest ih =>
      rcases List.mem_append.1 h with hword | htail
      · exact .inr ⟨word, List.mem_cons_self, hword⟩
      · rcases List.mem_cons.1 htail with hblank | hmem
        · exact .inl hblank
        · rcases ih hmem with hblank | ⟨word', hword', hc⟩
          · exact .inl hblank
          · exact .inr ⟨word', List.mem_cons_of_mem _ hword', hc⟩

end Xltop.Text
