import Xltop.Core.Split

/-!
# Addresses and ports

`ap_parse` reads an address, a port, or both.  Brackets are made blanks first,
so that an address in brackets is a word of its own; a port behind it may keep
its colon.
-/

namespace Xltop.Ap

open Xltop.Text

/-- `NI_MAXHOST` and `NI_MAXSERV`. -/
abbrev niMaxHost : ℕ := 1025

abbrev niMaxServ : ℕ := 32

/-- A `struct ap_struct`: two strings, each with its NUL in its buffer. -/
structure ApStruct where
  apAddr : CString
  apPort : CString
  addr_lt : apAddr.length < niMaxHost
  port_lt : apPort.length < niMaxServ

namespace ApStruct

/-- `A(s)`; `snprintf` leaves out what does not fit. -/
def a (ap : ApStruct) (s : CString) : ApStruct where
  apAddr := s.take (niMaxHost - 1)
  apPort := ap.apPort
  addr_lt := (List.length_take_le _ s).trans_lt (by decide)
  port_lt := ap.port_lt

/-- `P(s)` -/
def p (ap : ApStruct) (s : CString) : ApStruct where
  apAddr := ap.apAddr
  apPort := s.take (niMaxServ - 1)
  addr_lt := ap.addr_lt
  port_lt := (List.length_take_le _ s).trans_lt (by decide)

end ApStruct

/-- Where `strtol` looks for digits, behind white space and a sign. -/
def strtolDigits (s : CString) : CString :=
  let t := s.dropWhile isSpace
  if t.head? = some 45 ∨ t.head? = some 43 then t.tail else t

/-- Where `strtol(s, &end, 10)` leaves `end`: behind the digits, and at `s` if
there are none. -/
def strtolEnd (s : CString) : CString :=
  if (strtolDigits s).takeWhile isDigit = [] then s else (strtolDigits s).dropWhile isDigit

def apIsPort (s : CString) : Bool :=
  s ≠ [] ∧ strtolEnd s = []

/-- `[` or `]`. -/
def isBracket (c : Byte) : Bool :=
  c == 91 || c == 93

def isColon (c : Byte) : Bool :=
  c == 58

/-- The loop of `_ap_parse` that makes brackets blanks. -/
def blanked (spec : CString) : CString :=
  spec.map fun c => if isBracket c then 32 else c

/-- `_ap_parse` on a spec that is not NULL; `inetPton` stands for
`inet_pton(AF_INET6, s, &in6)`. -/
def apParseSpec (inetPton : CString → Bool) (ap : ApStruct) (spec : CString) : ℤ × ApStruct :=
  match split 2 (some (blanked spec)) with
  | ([], _) => (0, ap)
  | (_, some _) => (-1, ap)
  | (s1 :: s2 :: _, none) =>
      let s2 := if s2.head? = some 58 then s2.tail else s2
      if s2 = [] then (-1, ap) else (0, (ap.a s1).p s2)
  | ([s], none) =>
      if apIsPort s then (0, ap.p s)
      else if inetPton s then (0, ap.a s)
      else
        match strsep isColon (some s) with
        | (s1, none) => (0, ap.a (s1.getD []))
        | (s1, some s) => if s = [] then (-1, ap) else (0, (ap.a (s1.getD [])).p s)

/-- `ap_parse` with the defaults `a` and `p`; `strdup` does not fail. -/
def apParse (inetPton : CString → Bool) (spec : Option CString) (a p : CString) : ℤ × ApStruct :=
  let ap := ((⟨[], [], by decide, by decide⟩ : ApStruct).a a).p p
  match spec with
  | none => (0, ap)
  | some spec => apParseSpec inetPton ap spec

/-! ## Spellings -/

/-- The ways to write an address with a port. -/
inductive Spelling where
  | words
  | brackets
  | bracketsColon
  | colon

def Spelling.text (a p : CString) : Spelling → CString
  | words => a ++ lit " " ++ p
  | brackets => lit "[" ++ a ++ lit "] " ++ p
  | bracketsColon => lit "[" ++ a ++ lit "]:" ++ p
  | colon => a ++ lit ":" ++ p

/-- A token without brackets that fits its buffer. -/
structure IsPart (size : ℕ) (s : CString) : Prop extends IsWord s where
  bracket : ∀ c ∈ s, isBracket c = false
  fits : s.length < size

variable {inetPton : CString → Bool} {a p leading trailing : CString}

theorem blanked_of_none {s : CString} (h : ∀ c ∈ s, isBracket c = false) : blanked s = s := by
  rw [blanked]
  conv_rhs => rw [← List.map_id s]
  apply List.map_congr_left
  intro c hc
  rw [h c hc]
  rfl

theorem isBracket_of_isSpace {c : Byte} (h : isSpace c = true) : isBracket c = false := by
  apply Bool.eq_false_iff.2
  intro hbracket
  rw [isBracket, Bool.or_eq_true, beq_iff_eq, beq_iff_eq] at hbracket
  rcases hbracket with rfl | rfl <;> exact absurd h (by decide)

theorem blanked_space {s : CString} (h : ∀ c ∈ s, isSpace c = true) : blanked s = s :=
  blanked_of_none fun c hc => isBracket_of_isSpace (h c hc)

theorem blanked_append (s t : CString) : blanked (s ++ t) = blanked s ++ blanked t :=
  List.map_append

/-- Without its brackets a spec is an address and a port, which may have a colon
in front. -/
structure TwoWords (spec a p trailing : CString) : Prop where
  address : IsWord a
  ne_nil : p ≠ []
  blanks : ∀ c ∈ trailing, isSpace c = true
  two : ∃ front c gap port, (∀ c ∈ front, isSpace c = true) ∧ isSpace c = true ∧
    (∀ c ∈ gap, isSpace c = true) ∧ IsWord port ∧
    (if port.head? = some 58 then port.tail else port) = p ∧
    blanked spec = front ++ a ++ c :: (gap ++ port ++ trailing)

/-- Nothing may be behind the two words, not even a blank. -/
theorem apParseSpec_two (ap : ApStruct) {spec : CString} (h : TwoWords spec a p trailing) :
    apParseSpec inetPton ap spec = if trailing = [] then (0, (ap.a a).p p) else (-1, ap) := by
  obtain ⟨front, c, gap, port, hfront, hc, hgap, hport, hstrip, hspec⟩ := h.two
  have hfirst : wsep (some (blanked spec)) = (some a, some (gap ++ port ++ trailing)) := by
    rw [hspec]
    exact strsepNe_append hfront h.address.ne_nil h.address.space
      fun _ heq => Option.some.inj heq ▸ hc
  have hsecond : wsep (some (gap ++ port ++ trailing)) = (some port, behind trailing) :=
    strsepNe_append hgap hport.ne_nil hport.space
      fun c hc => h.blanks c (List.mem_of_mem_head? hc)
  have hsplit : split 2 (some (blanked spec)) = ([a, port], behind trailing) := by
    rw [split_of_word hfirst, split_of_word hsecond]
    rfl
  rw [apParseSpec, hsplit]
  cases trailing with
  | nil =>
      simp only [behind, hstrip]
      rw [if_neg h.ne_nil]
      rfl
  | cons c trailing => rfl

theorem mem_dropWhile {s : CString} {c : Byte} {test : Byte → Bool} (hmem : c ∈ s)
    (hc : test c = false) : c ∈ s.dropWhile test := by
  rw [← List.takeWhile_append_dropWhile (p := test) (l := s), List.mem_append] at hmem
  refine hmem.resolve_left fun hfront => ?_
  rw [List.mem_takeWhile_imp hfront] at hc
  cases hc

theorem colon_mem_strtolDigits {s : CString} (h : 58 ∈ s) : 58 ∈ strtolDigits s := by
  have hblank : 58 ∈ s.dropWhile isSpace := mem_dropWhile h (by decide)
  rw [strtolDigits]
  generalize s.dropWhile isSpace = t at hblank ⊢
  split
  · next hsign =>
      obtain ⟨c, rest, rfl⟩ := List.exists_cons_of_ne_nil (List.ne_nil_of_mem hblank)
      apply (List.mem_cons.1 hblank).resolve_left
      rintro rfl
      exact hsign.elim (fun h => absurd (Option.some.inj h) (by decide))
        fun h => absurd (Option.some.inj h) (by decide)
  · exact hblank

/-- `strtol` does not read past a colon. -/
theorem colon_mem_strtolEnd {s : CString} (h : 58 ∈ s) : 58 ∈ strtolEnd s := by
  rw [strtolEnd]
  split
  · exact h
  · exact mem_dropWhile (colon_mem_strtolDigits h) (by decide)

/-- One word with a colon is split there. -/
theorem apParseSpec_colon (ap : ApStruct) {spec : CString}
    (hpton : ∀ s, inetPton s = true → 2 ≤ s.count 58)
    (hleading : ∀ c ∈ leading, isSpace c = true) (ha : IsWord a) (hp : IsWord p)
    (hacolon : 58 ∉ a) (hpcolon : 58 ∉ p) (htrailing : ∀ c ∈ trailing, isSpace c = true)
    (hspec : blanked spec = leading ++ (a ++ 58 :: p) ++ trailing) :
    apParseSpec inetPton ap spec = (0, (ap.a a).p p) := by
  have hspace : ∀ c ∈ a ++ 58 :: p, isSpace c = false := by
    intro c hc
    rcases List.mem_append.1 hc with hc | hc
    · exact ha.space c hc
    · rcases List.mem_cons.1 hc with rfl | hc
      · decide
      · exact hp.space c hc
  have hfirst : wsep (some (blanked spec)) = (some (a ++ 58 :: p), behind trailing) := by
    rw [hspec]
    exact strsepNe_append hleading (by simp) hspace
      fun c hc => htrailing c (List.mem_of_mem_head? hc)
  have hsecond : wsep (behind trailing) = (none, none) := by
    cases trailing with
    | nil =>
        rw [behind, wsep, strsepNe]
    | cons c trailing => exact strsepNe_blank fun c hc => htrailing c (List.mem_cons_of_mem _ hc)
  have hsplit : split 2 (some (blanked spec)) = ([a ++ 58 :: p], none) := by
    rw [split_of_word hfirst, split_of_none hsecond]
  have hport : apIsPort (a ++ 58 :: p) = false := by
    have hend : strtolEnd (a ++ 58 :: p) ≠ [] :=
      List.ne_nil_of_mem (colon_mem_strtolEnd (by simp))
    rw [apIsPort, decide_eq_false_iff_not]
    exact fun h => hend h.2
  have haddr : inetPton (a ++ 58 :: p) = false := by
    apply Bool.eq_false_iff.2
    intro h
    have hcount := hpton _ h
    rw [List.count_append, List.count_cons_self, List.count_eq_zero.2 hacolon,
      List.count_eq_zero.2 hpcolon] at hcount
    omega
  have hcut : strsep isColon (some (a ++ 58 :: p)) = (some a, some p) :=
    strsep_append (fun c hc => by
      rw [isColon, beq_eq_false_iff_ne]
      rintro rfl
      exact hacolon hc) fun c hc => Option.some.inj hc ▸ rfl
  rw [apParseSpec, hsplit]
  simp only [hport, haddr, hcut, Option.getD_some]
  rw [if_neg hp.ne_nil]
  rfl

/-! ## All spellings -/

theorem isWord_colon (hp : IsWord p) : IsWord (58 :: p) where
  ne_nil := List.cons_ne_nil _ _
  space := List.forall_mem_cons.2 ⟨by decide, hp.space⟩

/-- The spellings with two words. -/
theorem Spelling.twoWords (ha : IsPart niMaxHost a) (hp : IsPart niMaxServ p) (hpcolon : 58 ∉ p)
    (hleading : ∀ c ∈ leading, isSpace c = true) (htrailing : ∀ c ∈ trailing, isSpace c = true)
    {spelling : Spelling} (hne : spelling ≠ .colon) :
    TwoWords (leading ++ spelling.text a p ++ trailing) a p trailing := by
  have hstrip : (if p.head? = some 58 then p.tail else p) = p :=
    if_neg fun h => hpcolon (List.mem_of_mem_head? h)
  have hblank : ∀ c ∈ leading ++ [32], isSpace c = true := by
    intro c hc
    rcases List.mem_append.1 hc with hc | hc
    · exact hleading c hc
    · rw [List.mem_singleton.1 hc]
      decide
  have ha' := blanked_of_none ha.bracket
  have hp' := blanked_of_none hp.bracket
  refine ⟨ha.toIsWord, hp.ne_nil, htrailing, ?_⟩
  rw [blanked_append, blanked_append, blanked_space hleading, blanked_space htrailing]
  cases spelling with
  | words =>
      refine ⟨leading, 32, [], p, hleading, by decide, by simp, hp.toIsWord, hstrip, ?_⟩
      rw [text, blanked_append, blanked_append, ha', hp']
      have hblank' : blanked (lit " ") = [32] := by decide +kernel
      rw [hblank']
      simp
  | brackets =>
      have hgap : ∀ c ∈ [32], isSpace c = true := List.forall_mem_singleton.2 (by decide)
      refine ⟨leading ++ [32], 32, [32], p, hblank, by decide, hgap, hp.toIsWord, hstrip, ?_⟩
      rw [text, blanked_append, blanked_append, blanked_append, ha', hp']
      have hopening : blanked (lit "[") = [32] := by decide +kernel
      have hclosing : blanked (lit "] ") = [32, 32] := by decide +kernel
      rw [hopening, hclosing]
      simp
  | bracketsColon =>
      refine ⟨leading ++ [32], 32, [], 58 :: p, hblank, by decide, by simp,
        isWord_colon hp.toIsWord, rfl, ?_⟩
      rw [text, blanked_append, blanked_append, blanked_append, ha', hp']
      have hopening : blanked (lit "[") = [32] := by decide +kernel
      have hclosing : blanked (lit "]:") = [32, 58] := by decide +kernel
      rw [hopening, hclosing]
      simp
  | colon => exact absurd rfl hne

theorem set_both (ap : ApStruct) (ha : a.length < niMaxHost) (hp : p.length < niMaxServ) :
    ((ap.a a).p p).apAddr = a ∧ ((ap.a a).p p).apPort = p :=
  ⟨List.take_of_length_le (Nat.le_sub_one_of_lt ha),
    List.take_of_length_le (Nat.le_sub_one_of_lt hp)⟩

/-- The spellings of an address with a port give this address and port, except
that blanks may follow only `a:p`. -/
theorem address_spellings_iff (hpton : ∀ s, inetPton s = true → 2 ≤ s.count 58)
    (ha : IsPart niMaxHost a) (hp : IsPart niMaxServ p) (hpcolon : 58 ∉ p)
    (hleading : ∀ c ∈ leading, isSpace c = true) (htrailing : ∀ c ∈ trailing, isSpace c = true)
    (spelling : Spelling) (hacolon : spelling = .colon → 58 ∉ a) (a₀ p₀ : CString) :
    let result := apParse inetPton (some (leading ++ spelling.text a p ++ trailing)) a₀ p₀
    (result.1 = 0 ∧ result.2.apAddr = a ∧ result.2.apPort = p) ↔
      spelling = .colon ∨ trailing = [] := by
  intro result
  have hboth := fun ap : ApStruct => set_both ap ha.fits hp.fits
  have hresult : result = apParseSpec inetPton _ (leading ++ spelling.text a p ++ trailing) := rfl
  by_cases hspelling : spelling = .colon
  · have hspec : blanked (leading ++ spelling.text a p ++ trailing) =
        leading ++ (a ++ 58 :: p) ++ trailing := by
      have hcolon : blanked (lit ":") = [58] := by decide +kernel
      rw [hspelling, Spelling.text, blanked_append, blanked_append, blanked_append,
        blanked_append, blanked_space hleading, blanked_space htrailing, hcolon,
        blanked_of_none ha.bracket, blanked_of_none hp.bracket]
      simp
    rw [hresult, apParseSpec_colon _ hpton hleading ha.toIsWord hp.toIsWord (hacolon hspelling)
      hpcolon htrailing hspec]
    exact iff_of_true ⟨rfl, hboth _⟩ (.inl hspelling)
  · rw [hresult, apParseSpec_two _ (spelling.twoWords ha hp hpcolon hleading htrailing hspelling)]
    split
    · next hnil => exact iff_of_true ⟨rfl, hboth _⟩ (.inr hnil)
    · next hne =>
        have hfail : (-1 : ℤ) ≠ 0 := by decide
        exact iff_of_false (fun h => hfail h.1) fun h => h.elim hspelling hne

/-- Only strings with two colons are addresses of IPv6. -/
def sampleInetPton (s : CString) : Bool :=
  2 ≤ s.count 58

theorem address_spellings_sample :
    let result := apParse sampleInetPton (some (lit " [2001:db8::1]:9901")) (lit "0.0.0.0")
      (lit "1")
    result.1 = 0 ∧ result.2.apAddr = lit "2001:db8::1" ∧ result.2.apPort = lit "9901" := by
  have hpton : ∀ s, sampleInetPton s = true → 2 ≤ s.count 58 := fun _ h => of_decide_eq_true h
  have ha : IsPart niMaxHost (lit "2001:db8::1") :=
    ⟨⟨by decide +kernel, by decide +kernel⟩, by decide +kernel, by decide +kernel⟩
  have hp : IsPart niMaxServ (lit "9901") :=
    ⟨⟨by decide +kernel, by decide +kernel⟩, by decide +kernel, by decide +kernel⟩
  have hleading : ∀ c ∈ lit " ", isSpace c = true := by decide +kernel
  exact (address_spellings_iff hpton ha hp (by decide +kernel) hleading
    (List.forall_mem_nil _) .bracketsColon nofun (lit "0.0.0.0") (lit "1")).2 (.inr rfl)

/-- A blank behind the port is taken for a third word, except behind `a:p`. -/
theorem address_spellings_trailing_blank :
    (apParse sampleInetPton (some (lit "example.com 9901 ")) (lit "0.0.0.0") (lit "1")).1 = -1 ∧
      (apParse sampleInetPton (some (lit "example.com:9901 ")) (lit "0.0.0.0")
        (lit "1")).1 = 0 := by
  decide +kernel

end Xltop.Ap
