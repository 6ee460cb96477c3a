import Xltop.Core.Words

/-!
# Where tokens stand

A token of a string is a run without delimiters that cannot be made longer.
`strsep_ne` cuts the first one off and leaves a reference just behind the one
delimiter that ended it, and `split` does so for each of its targets.
-/

namespace Xltop.Text

/-- `token` is the token number `n` of `s`, from 0, with what is before and
after it. -/
structure TokenAt (delim : Byte → Bool) (s : CString) (n : ℕ)
    (before token after : CString) : Prop where
  string : s = before ++ token ++ after
  number : (tokens delim before).length = n
  start : ∀ c ∈ before.getLast?, delim c = true
  ne_nil : token ≠ []
  inside : ∀ c ∈ token, delim c = false
  stop : ∀ c ∈ after.head?, delim c = true

/-- What a tokeniser leaves of the bytes after a token: the delimiter that ends
the token is cut off with it. -/
def behind : CString → Option CString
  | [] => none
  | _ :: rest => some rest

variable {delim : Byte → Bool} {s before token after : CString} {n : ℕ}

@[simp]
theorem tokens_nil (delim : Byte → Bool) : tokens delim [] = [] := by
  rw [tokens, List.splitOnP_nil]
  rfl

/-- A delimiter parts the tokens before it from those behind it. -/
theorem tokens_append_cons (before rest : CString) {c : Byte} (hc : delim c = true) :
    tokens delim (before ++ c :: rest) = tokens delim before ++ tokens delim rest := by
  rw [tokens, List.splitOnP_append_cons before rest hc, List.filter_append]
  rfl

theorem tokens_cons_delim (rest : CString) {c : Byte} (hc : delim c = true) :
    tokens delim (c :: rest) = tokens delim rest := by
  have hparts := tokens_append_cons [] rest hc
  rwa [tokens_nil] at hparts

/-- A run of other bytes is a token in front of a delimiter. -/
theorem tokens_token (hne : token ≠ []) (hinside : ∀ c ∈ token, delim c = false)
    (hstop : ∀ c ∈ after.head?, delim c = true) :
    tokens delim (token ++ after) = token :: tokens delim after := by
  have halone : tokens delim token = [token] := by
    rw [tokens, List.splitOnP_eq_singleton hinside, List.filter_cons_of_pos (by simpa using hne)]
    rfl
  cases after with
  | nil => rw [List.append_nil, halone, tokens_nil]
  | cons c rest =>
      have hc := hstop c rfl
      rw [tokens_append_cons token rest hc, halone, tokens_cons_delim rest hc]
      rfl

/-- The tokens of what ends in a delimiter are those of the whole string up to
there. -/
theorem tokens_append (hstart : ∀ c ∈ before.getLast?, delim c = true) (rest : CString) :
    tokens delim (before ++ rest) = tokens delim before ++ tokens delim rest := by
  rcases List.eq_nil_or_concat before with rfl | ⟨front, c, rfl⟩
  · rw [tokens_nil]
    rfl
  · rw [List.concat_eq_append] at hstart ⊢
    have hc := hstart c List.getLast?_concat
    rw [List.append_assoc, List.singleton_append,
      tokens_append_cons front rest hc, tokens_append_cons front [] hc, tokens_nil,
      List.append_nil]

namespace TokenAt

theorem tokens_eq (h : TokenAt delim s n before token after) :
    tokens delim s = tokens delim before ++ token :: tokens delim after := by
  rw [h.string, List.append_assoc, tokens_append h.start,
    tokens_token h.ne_nil h.inside h.stop]

theorem getElem? (h : TokenAt delim s n before token after) :
    (tokens delim s)[n]? = some token := by
  rw [h.tokens_eq, List.getElem?_append_right h.number.le, h.number, Nat.sub_self]
  rfl

/-- A token behind a token and its delimiter. -/
theorem behind {c : Byte} {rest front token' after' : CString}
    (h : TokenAt delim s 0 before token (c :: rest))
    (h' : TokenAt delim rest n front token' after') :
    TokenAt delim s (n + 1) (before ++ token ++ c :: front) token' after' where
  string := by
    rw [h.string, h'.string]
    simp
  number := by
    have hc : delim c = true := h.stop c rfl
    have hfirst : tokens delim before = [] := List.length_eq_zero_iff.1 h.number
    rw [tokens_append_cons _ front hc, tokens_append h.start, hfirst, List.nil_append,
      List.length_append, h'.number, ← List.append_nil token,
      tokens_token h.ne_nil h.inside (by simp), tokens_nil, List.length_singleton, Nat.add_comm]
  start := by
    rw [List.getLast?_append_cons]
    intro c' hc'
    cases front with
    | nil => exact h.stop c' (by simpa using hc')
    | cons b front =>
        rw [List.getLast?_cons_cons] at hc'
        exact h'.start c' hc'
  ne_nil := h'.ne_nil
  inside := h'.inside
  stop := h'.stop

end TokenAt

theorem strsep_snd (s : CString) :
    (strsep delim (some s)).2 = behind (s.dropWhile fun c => !delim c) := by
  rw [strsep]
  cases s.dropWhile fun c => !delim c <;> rfl

/-- `strsep_ne` cuts off the first token and the delimiter that ends it. -/
theorem tokenAt_strsepNe {ref : Option CString} (h : (strsepNe delim ref).1 = some token) :
    ∃ s before after, ref = some s ∧ TokenAt delim s 0 before token after ∧
      (strsepNe delim ref).2 = behind after := by
  revert h
  fun_induction strsepNe delim ref with
  | case1 => exact fun h => by cases h
  | case2 s hempty ih =>
      intro h
      obtain ⟨rest, before, after, hrest, hat, hbehind⟩ := ih h
      -- the string begins with a delimiter, and the token is in the rest
      have hfirst : s.takeWhile (fun c => !delim c) = [] := Option.some.inj hempty
      have hstop := (span_delim delim s).2
      have happend := List.takeWhile_append_dropWhile (p := fun c => !delim c) (l := s)
      rw [strsep_snd] at hrest
      rw [hfirst, List.nil_append] at happend
      rw [happend] at hrest hstop
      cases s with
      | nil => cases hrest
      | cons c tail =>
          obtain rfl : tail = rest := Option.some.inj hrest
          have hc := hstop c rfl
          refine ⟨c :: tail, c :: before, after, rfl, ⟨by rw [hat.string]; rfl, ?_, ?_, hat.ne_nil,
            hat.inside, hat.stop⟩, hbehind⟩
          · rw [tokens_cons_delim before hc, hat.number]
          · intro c' hc'
            cases before with
            | nil => exact hstop c' (by simpa using hc')
            | cons b before =>
                rw [List.getLast?_cons_cons] at hc'
                exact hat.start c' hc'
  | case3 s htoken =>
      intro h
      obtain ⟨hinside, hstop⟩ := span_delim delim s
      obtain rfl : s.takeWhile (fun c => !delim c) = token := Option.some.inj h
      refine ⟨s, [], _, rfl, ⟨List.takeWhile_append_dropWhile.symm, by rw [tokens_nil]; rfl,
        by simp, fun hnil => htoken (congrArg some hnil), hinside, hstop⟩, strsep_snd s⟩

/-- `strsep` cuts off a run without delimiters. -/
theorem strsep_append (hinside : ∀ c ∈ token, delim c = false)
    (hstop : ∀ c ∈ after.head?, delim c = true) :
    strsep delim (some (token ++ after)) = (some token, behind after) := by
  have hpass : ∀ c ∈ token, (!delim c) = true := fun c hc => by rw [hinside c hc]; rfl
  have hstart : after.takeWhile (fun c => !delim c) = [] ∧
      after.dropWhile (fun c => !delim c) = after := by
    cases after with
    | nil => exact ⟨rfl, rfl⟩
    | cons c rest =>
        have hc : ¬ (!delim c) = true := by simp [hstop c rfl]
        exact ⟨List.takeWhile_cons_of_neg hc, List.dropWhile_cons_of_neg hc⟩
  apply Prod.ext
  · change some (List.takeWhile _ (token ++ after)) = _
    rw [List.takeWhile_append_of_pos hpass, hstart.1, List.append_nil]
  · rw [strsep_snd, List.dropWhile_append_of_pos hpass, hstart.2]

/-- Delimiters in front of a token are skipped. -/
theorem strsepNe_append (hbefore : ∀ c ∈ before, delim c = true) (hne : token ≠ [])
    (hinside : ∀ c ∈ token, delim c = false) (hstop : ∀ c ∈ after.head?, delim c = true) :
    strsepNe delim (some (before ++ token ++ after)) = (some token, behind after) := by
  induction before with
  | nil =>
      rw [List.nil_append, strsepNe, strsep_append hinside hstop]
      split
      · next hnil => exact absurd (Option.some.inj hnil) hne
      · rfl
  | cons c before ih =>
      rw [List.forall_mem_cons] at hbefore
      have hfirst : strsep delim (some ([] ++ c :: (before ++ token ++ after))) =
          (some [], some (before ++ token ++ after)) :=
        strsep_append (List.forall_mem_nil _) fun _ heq => Option.some.inj heq ▸ hbefore.1
      rw [List.nil_append] at hfirst
      rw [List.cons_append, List.cons_append, strsepNe, hfirst]
      exact ih hbefore.2

/-- Only delimiters are left. -/
theorem strsepNe_blank (hbefore : ∀ c ∈ before, delim c = true) :
    strsepNe delim (some before) = (none, none) := by
  have hnone : (strsepNe delim (some before)).1 = none := by
    apply Option.eq_none_iff_forall_ne_some.2
    intro token hcut
    obtain ⟨s, front, after, hs, hat, -⟩ := tokenAt_strsepNe hcut
    obtain ⟨c, hc⟩ := List.exists_mem_of_ne_nil token hat.ne_nil
    have hmem : c ∈ before := by
      rw [Option.some.inj hs, hat.string]
      exact List.mem_append_left _ (List.mem_append_right _ hc)
    exact Bool.false_ne_true ((hat.inside c hc).symm.trans (hbefore c hmem))
  exact Prod.ext hnone (strsepNe_fst_eq_none hnone)

/-- A string with tokens begins with one, and `strsep_ne` finds it. -/
theorem exists_first_token (h : tokens delim s ≠ []) :
    ∃ before token after, TokenAt delim s 0 before token after ∧
      strsepNe delim (some s) = (some token, behind after) := by
  have hfirst := refTokens_strsepNe delim (some s)
  cases hcut : (strsepNe delim (some s)).1 with
  | none =>
      rw [hcut, strsepNe_fst_eq_none hcut] at hfirst
      exact absurd hfirst h
  | some token =>
      obtain ⟨s', before, after, hs, hat, hrest⟩ := tokenAt_strsepNe hcut
      obtain rfl := Option.some.inj hs
      exact ⟨before, token, after, hat, Prod.ext hcut hrest⟩

/-- The tokens of a string are its longest runs without delimiters, in order. -/
theorem getElem?_tokens :
    (tokens delim s)[n]? = some token ↔
      ∃ before after, TokenAt delim s n before token after := by
  constructor
  · have hne : ∀ {s : CString} {n : ℕ}, (tokens delim s)[n]? = some token →
        tokens delim s ≠ [] := fun h hnil => by
      rw [hnil] at h
      cases h
    intro h
    induction n generalizing s with
    | zero =>
        obtain ⟨before, first, after, hat, -⟩ := exists_first_token (hne h)
        obtain rfl : first = token := Option.some.inj (hat.getElem?.symm.trans h)
        exact ⟨before, after, hat⟩
    | succ n ih =>
        obtain ⟨before, first, after, hat, -⟩ := exists_first_token (hne h)
        rw [hat.tokens_eq, List.length_eq_zero_iff.1 hat.number] at h
        cases after with
        | nil => rw [tokens_nil] at h; cases h
        | cons c rest =>
            rw [tokens_cons_delim rest (hat.stop c rfl)] at h
            obtain ⟨front, after', hat'⟩ := ih h
            exact ⟨_, _, hat.behind hat'⟩
  · rintro ⟨before, after, h⟩
    exact h.getElem?

/-! ## `split` -/

/-- `split` on targets and what they hold: its return value, what the targets
hold then, and the reference. -/
def splitTargets : List (Option CString) → Option CString →
    ℕ × List (Option CString) × Option CString
  | [], ref => (0, [], ref)
  | p :: targets, ref =>
      match wsep ref with
      | (none, ref) => (0, p :: targets, ref)
      | (some s, ref) =>
          let (nr, targets, ref) := splitTargets targets ref
          (nr + 1, some s :: targets, ref)

theorem split_of_word {targets : ℕ} {ref rest : Option CString} {word : CString}
    (h : wsep ref = (some word, rest)) :
    split (targets + 1) ref = (word :: (split targets rest).1, (split targets rest).2) := by
  rw [split, h]

theorem split_of_none {targets : ℕ} {ref rest : Option CString} (h : wsep ref = (none, rest)) :
    split (targets + 1) ref = ([], rest) := by
  rw [split, h]

/-- The targets only receive the words, and are not read. -/
theorem splitTargets_eq (targets : List (Option CString)) (ref : Option CString) :
    splitTargets targets ref = ((split targets.length ref).1.length,
      (split targets.length ref).1.map some ++
        targets.drop (split targets.length ref).1.length,
      (split targets.length ref).2) := by
  induction targets generalizing ref with
  | nil => rfl
  | cons p targets ih =>
      rw [splitTargets, List.length_cons, split]
      rcases wsep ref with ⟨_ | word, rest⟩
      · rfl
      · simp only [ih]
        rfl

/-- The reference that `split` leaves is just behind the last word it assigns. -/
theorem split_snd (h : n < (words s).length) :
    ∃ before word after, TokenAt isSpace s n before word after ∧
      (split (n + 1) (some s)).2 = behind after := by
  induction n generalizing s with
  | zero =>
      obtain ⟨before, word, after, hat, hcut⟩ :=
        exists_first_token (List.ne_nil_of_length_pos h)
      refine ⟨before, word, after, hat, ?_⟩
      rw [split, wsep, hcut]
      rfl
  | succ n ih =>
      obtain ⟨before, word, after, hat, hcut⟩ :=
        exists_first_token (List.ne_nil_of_length_pos (Nat.zero_lt_of_lt h))
      have hwords : words s = word :: tokens isSpace after := by
        have hall := hat.tokens_eq
        rwa [List.length_eq_zero_iff.1 hat.number] at hall
      rw [split, wsep, hcut]
      rw [hwords, List.length_cons, Nat.succ_lt_succ_iff] at h
      cases after with
      | nil =>
          rw [tokens_nil] at h
          cases h
      | cons c rest =>
          rw [tokens_cons_delim rest (hat.stop c rfl)] at h
          obtain ⟨front, word', after', hat', hrest⟩ := ih h
          exact ⟨_, word', after', hat.behind hat', hrest⟩

/-- Without enough words `split` leaves NULL. -/
theorem split_snd_eq_none {targets : ℕ} {ref : Option CString}
    (h : (refWords ref).length < targets) : (split targets ref).2 = none := by
  induction targets generalizing ref with
  | zero => cases h
  | succ targets ih =>
      have hall := refWords_wsep ref
      rw [split]
      rcases hcut : wsep ref with ⟨_ | word, rest⟩
      · have hrest := wsep_fst_eq_none (congrArg Prod.fst hcut)
        rw [hcut] at hrest
        exact hrest
      · rw [hcut] at hall
        rw [hall, Option.toList_some, List.singleton_append, List.length_cons] at h
        exact ih (Nat.lt_of_succ_lt_succ h)

/-- `split` assigns the first words of a string to its targets and leaves the
other targets alone.  It leaves NULL if there are too few words or the last one
it assigns ends the string, and otherwise what is behind the white space byte
that ends this word. -/
theorem split_words (targets : List (Option CString)) (s : CString) :
    let w := (words s).length
    let result := splitTargets targets (some s)
    result.1 = min targets.length w ∧
      result.2.1 = ((words s).take targets.length).map some ++ targets.drop w ∧
      (w < targets.length → result.2.2 = none) ∧
      (targets = [] → result.2.2 = some s) ∧
      ∀ n, targets.length = n + 1 → n < w →
        ∃ before word after, TokenAt isSpace s n before word after ∧
          (after = [] → result.2.2 = none) ∧
          ∀ c rest, after = c :: rest → result.2.2 = some rest := by
  intro w result
  have hresult : result = _ := splitTargets_eq targets (some s)
  have hassigned : (split targets.length (some s)).1 = (words s).take targets.length :=
    split_fst targets.length (some s)
  rw [hassigned, List.length_take] at hresult
  rw [hresult]
  refine ⟨rfl, ?_, fun hfew => ?_, ?_, ?_⟩
  · change _ ++ targets.drop (min targets.length w) = _
    rw [min_comm, ← List.drop_eq_drop_min]
  · exact split_snd_eq_none hfew
  · rintro rfl
    rfl
  · intro n hn hw
    obtain ⟨before, word, after, hat, hrest⟩ := split_snd hw
    refine ⟨before, word, after, hat, ?_, ?_⟩
    · rintro rfl
      exact hn ▸ hrest
    · rintro c rest rfl
      exact hn ▸ hrest

end Xltop.Text
