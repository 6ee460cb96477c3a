import Xltop.Core.Scanf
import Mathlib.Data.Fin.Tuple.Reflection
import Mathlib.Data.List.Forall2

/-!
# The status of a server

A server sends its status as one line of numbers, the master keeps it and prints
it for the clients, and these read it again: five numbers by `%lf` and ten sizes
by `%zu`.
-/

namespace Xltop.Status

open Xltop.Text

/-! ## Lines -/

/-- A `struct serv_status`. -/
structure ServStatus (D : Type*) where
  ssTime : D
  ssUptime : D
  ssLoad : Fin 3 → D
  ssTotalRam : UInt64
  ssFreeRam : UInt64
  ssSharedRam : UInt64
  ssBufferRam : UInt64
  ssTotalSwap : UInt64
  ssFreeSwap : UInt64
  ssNrTask : UInt64
  ssNrMdt : UInt64
  ssNrOst : UInt64
  ssNrNid : UInt64

/-- The status of a server that has not sent one. -/
def noStatus (D : Type*) [Zero D] : ServStatus D :=
  ⟨0, 0, fun _ => 0, 0, 0, 0, 0, 0, 0, 0, 0, 0, 0⟩

namespace ServStatus

variable {D R : Type*}

/-- The sizes of `PRI_SERV_STATUS_ARG`. -/
def sizes (s : ServStatus D) : List UInt64 :=
  [s.ssTotalRam, s.ssFreeRam, s.ssSharedRam, s.ssBufferRam, s.ssTotalSwap, s.ssFreeSwap,
    s.ssNrTask, s.ssNrMdt, s.ssNrOst, s.ssNrNid]

/-- `PRI_SERV_STATUS_FMT`, where `printf0` and `printf2` are the formats `%.0f`
and `%.2f`. -/
def pri (printf0 printf2 : R → CString) (s : ServStatus R) : CString :=
  joinWords (printf0 s.ssTime :: printf0 s.ssUptime :: (List.ofFn s.ssLoad).map printf2 ++
    s.sizes.map fun n => decimal n.toNat)

end ServStatus

/-- A conversion `%zu`: the number, and what is behind it. -/
def scanZu (s : CString) : Option (UInt64 × CString) :=
  let t := s.dropWhile isSpace
  let u := if t.head? = some 45 ∨ t.head? = some 43 then t.tail else t
  if u.takeWhile isDigit = [] then none
  else some (UInt64.ofNat (strtoul t), u.dropWhile isDigit)

/-- A number of conversions, none unless all assign. -/
def scanAll {α : Type*} (scan : CString → Option (α × CString)) :
    ℕ → CString → Option (List α × CString)
  | 0, s => some ([], s)
  | n + 1, s => do
      let (a, rest) ← scan s
      let (as, rest) ← scanAll scan n rest
      return (a :: as, rest)

/-- `sscanf` with `SCN_SERV_STATUS_FMT`, when it assigns all 15 arguments. -/
def scnServStatus {D : Type*} (strtod : CString → D) (msg : CString) :
    Option (ServStatus D) :=
  match scanAll scanLf 5 msg with
  | some ([t, u, l0, l1, l2], rest) =>
      match scanAll scanZu 10 rest with
      | some ([r0, r1, r2, r3, s0, s1, nt, nm, no, nn], _) =>
          some ⟨strtod t, strtod u, ![strtod l0, strtod l1, strtod l2], r0, r1, r2, r3, s0, s1,
            nt, nm, no, nn⟩
      | _ => none
  | _ => none

/-! ## Reading back what was printed -/

/-- A number as `%.0f` prints it, unless it is infinite or no number. -/
def IsWhole (s : CString) : Prop :=
  ∃ sign whole, (sign = [] ∨ sign = [45]) ∧ whole ≠ [] ∧
    (∀ c ∈ whole, isDigit c = true) ∧ s = sign ++ whole

/-- A text that is the end of a line or begins with white space. -/
def Ends (after : CString) : Prop :=
  ∀ c ∈ after.head?, isSpace c = true

theorem ends_nil : Ends [] := by
  rintro c ⟨⟩

theorem ends_blank (s : CString) : Ends (32 :: s) := by
  rintro c ⟨⟩
  rfl

theorem isDigit_of_space {c : Byte} (h : isSpace c = true) : isDigit c = false := by
  cases hdigit : isDigit c with
  | false => rfl
  | true =>
      rw [(isDigit_plain hdigit).1] at h
      cases h

/-- A conversion skips white space, and reads a text up to the next white
space. -/
structure Reads {α : Type*} (scan : CString → Option (α × CString)) (text : CString)
    (a : α) : Prop where
  blank : ∀ {c} s, isSpace c = true → scan (c :: s) = scan s
  text : ∀ {after}, Ends after → scan (text ++ after) = some (a, after)

theorem scanAll_blank {α : Type*} {scan : CString → Option (α × CString)}
    (hblank : ∀ {c} s, isSpace c = true → scan (c :: s) = scan s) (n : ℕ) {c : Byte}
    (hc : isSpace c = true) (s : CString) : scanAll scan (n + 1) (c :: s) =
      scanAll scan (n + 1) s := by
  rw [scanAll, scanAll, hblank s hc]

/-- Texts with single blanks between them are read one after the other. -/
theorem scanAll_joinWords {α : Type*} {scan : CString → Option (α × CString)}
    {texts : List CString} {as : List α} (h : List.Forall₂ (Reads scan) texts as)
    {after : CString} (hafter : Ends after) :
    scanAll scan texts.length (joinWords texts ++ after) = some (as, after) := by
  induction h with
  | nil => rfl
  | @cons text a texts as hread hrest ih =>
      cases hrest with
      | nil =>
          rw [List.length_singleton, joinWords, scanAll, hread.text hafter]
          rfl
      | @cons text' a' texts as hread' hrest =>
          have hjoin : joinWords (text :: text' :: texts) ++ after =
              text ++ 32 :: (joinWords (text' :: texts) ++ after) := by
            rw [joinWords, List.append_assoc, List.cons_append]
            exact List.cons_ne_nil _ _
          rw [hjoin, List.length_cons, scanAll, hread.text (ends_blank _)]
          rw [List.length_cons] at ih
          rw [List.length_cons]
          simp only [Option.bind_eq_bind, Option.bind_some, scanAll_blank hread'.blank _
            (show isSpace 32 = true from rfl), ih]
          rfl

/-! ### Numbers -/

theorem Lf.next_space_digits {q : Lf} (hq : q = .zero ∨ q = .whole) {c : Byte}
    (h : isSpace c = true) : q.next c = none := by
  have hlower : toLower c = c := by
    have hle := Lf.toNat_le_of_isSpace h
    apply if_neg
    rw [Bool.and_eq_true, decide_eq_true_eq, UInt8.le_iff_toNat_le]
    exact fun hupper => absurd (hupper.1.trans hle) (by decide)
  have hne : ∀ b : Byte, isSpace b = false → c ≠ b := by
    rintro b hb rfl
    rw [hb] at h
    cases h
  have hwhole : Lf.afterWhole c = none := by
    rw [Lf.afterWhole, if_neg (by rw [isDigit_of_space h]; exact Bool.false_ne_true),
      if_neg (hne 46 rfl), if_neg (by rw [hlower]; exact hne 101 rfl)]
  rcases hq with rfl | rfl
  · rw [Lf.next, if_neg (by rw [hlower]; exact hne 120 rfl), hwhole]
  · rw [Lf.next, hwhole]

theorem run_whole {s : CString} (h : IsWhole s) :
    ∃ q, (q = Lf.zero ∨ q = Lf.whole) ∧ s.foldlM Lf.next .start = some q := by
  obtain ⟨sign, digits, hsign, hne, hdigits, rfl⟩ := h
  obtain ⟨q, hq, hrun⟩ := Lf.run_digits hne hdigits
  refine ⟨q, hq, ?_⟩
  rcases hsign with rfl | rfl
  · obtain ⟨c, rest, rfl⟩ := List.exists_cons_of_ne_nil hne
    exact (Lf.run_start (hdigits c List.mem_cons_self)).trans hrun
  · exact hrun

theorem reads_whole {s : CString} (h : IsWhole s) : Reads scanLf s s where
  blank := fun s hc => scanLf_blank s hc
  text := fun {after} hafter => by
    obtain ⟨q, hq, hrun⟩ := run_whole h
    have hfirst : (s ++ after).dropWhile isSpace = s ++ after := by
      obtain ⟨sign, digits, hsign, hne, hdigits, rfl⟩ := h
      obtain ⟨c, rest, rfl⟩ := List.exists_cons_of_ne_nil hne
      have hc : ¬ isSpace c = true := by
        rw [(isDigit_plain (hdigits c List.mem_cons_self)).1]
        exact Bool.false_ne_true
      rcases hsign with rfl | rfl
      · exact List.dropWhile_cons_of_neg hc
      · exact List.dropWhile_cons_of_neg (by decide)
    have hscan := scanFrom_append hrun fun c hc => Lf.next_space_digits hq (hafter c hc)
    rw [scanLf, hfirst, hscan]
    rcases hq with rfl | rfl <;> rfl

theorem reads_decimal {s : CString} (h : IsDecimal s) : Reads scanLf s s where
  blank := fun s hc => scanLf_blank s hc
  text := fun hafter => scanLf_decimal h hafter

/-- Digits mean the same to `strtoul` in base 10 and in base 0. -/
theorem digitsValue_eq {digits : CString} (h : ∀ c ∈ digits, isDigit c = true) :
    digitsValue digits = valueIn 10 digits := by
  apply List.foldl_ext
  intro n c hc
  rw [digitValue, if_pos (h c hc)]

/-- A printed `size_t` is read by `%zu`. -/
theorem reads_size (n : UInt64) : Reads scanZu (decimal n.toNat) n where
  blank := fun {c} s hc => by
    rw [scanZu, scanZu, List.dropWhile_cons_of_pos hc]
  text := fun {after} hafter => by
    have hdigits := isDigit_decimal n.toNat
    obtain ⟨c, rest, hn⟩ := List.exists_cons_of_ne_nil (decimal_ne_nil n.toNat)
    have hplain := isDigit_plain (hdigits c (by rw [hn]; exact List.mem_cons_self))
    have hspace : (decimal n.toNat ++ after).dropWhile isSpace = decimal n.toNat ++ after := by
      rw [hn, List.cons_append]
      exact List.dropWhile_cons_of_neg (by rw [hplain.1]; exact Bool.false_ne_true)
    have hhead : (decimal n.toNat ++ after).head? = some c := by
      rw [hn]
      rfl
    have hstop : after.takeWhile isDigit = [] ∧ after.dropWhile isDigit = after := by
      cases after with
      | nil => exact ⟨rfl, rfl⟩
      | cons d after =>
          have hd : ¬ isDigit d = true := by
            rw [isDigit_of_space (hafter d rfl)]
            exact Bool.false_ne_true
          exact ⟨List.takeWhile_cons_of_neg hd, List.dropWhile_cons_of_neg hd⟩
    have htake : (decimal n.toNat ++ after).takeWhile isDigit = decimal n.toNat := by
      rw [List.takeWhile_append_of_pos hdigits, hstop.1, List.append_nil]
    have hdrop : (decimal n.toNat ++ after).dropWhile isDigit = after := by
      rw [List.dropWhile_append_of_pos hdigits, hstop.2]
    have hminus : ¬ ((some c : Option Byte) = some 45 ∨ some c = some 43) := by
      simp [hplain.2.1, hplain.2.2.1]
    have hvalue : strtoul (decimal n.toNat ++ after) = n.toNat := by
      have hneg : ((some c : Option Byte) == some 45) = false := by simp [hplain.2.1]
      have hpos : ((some c : Option Byte) == some 43) = false := by simp [hplain.2.2.1]
      rw [strtoul, scanDecimal]
      simp only [hspace, hhead, hneg, hpos, Bool.or_false, Bool.false_eq_true, if_false, htake]
      rw [digitsValue_eq hdigits, valueIn_decimal, if_neg (not_le.2 n.toNat_lt)]
    rw [scanZu]
    simp only [hspace, hhead, if_neg hminus, htake, hdrop, if_neg (decimal_ne_nil n.toNat),
      hvalue, UInt64.ofNat_toNat]

/-! ### A line -/

theorem joinWords_append {ws ws' : List CString} (h : ws ≠ []) (h' : ws' ≠ []) :
    joinWords (ws ++ ws') = joinWords ws ++ 32 :: joinWords ws' := by
  fun_induction joinWords ws with
  | case1 => exact absurd rfl h
  | case2 word =>
      rw [List.singleton_append, joinWords]
      exact h'
  | case3 word rest hne ih =>
      rw [List.cons_append, joinWords, ih hne, List.append_assoc, List.cons_append]
      exact List.append_ne_nil_of_left_ne_nil hne _

/-- What `%.0f` and `%.2f` print. -/
structure Printf {R : Type*} (printf0 printf2 : R → CString) : Prop where
  whole : ∀ x, IsWhole (printf0 x)
  hundredths : ∀ x, IsDecimal (printf2 x)

theorem IsWhole.isToken {s : CString} (h : IsWhole s) : IsToken s := by
  obtain ⟨sign, whole, hsign, hne, hdigits, rfl⟩ := h
  have hplain : ∀ c ∈ sign ++ whole, isSpace c = false ∧ c ≠ 0 := by
    intro c hc
    rcases List.mem_append.1 hc with hc | hc
    · rcases hsign with rfl | rfl
      · cases hc
      · rw [List.mem_singleton.1 hc]
        decide
    · have hdigit := isDigit_plain (hdigits c hc)
      exact ⟨hdigit.1, hdigit.2.2.2⟩
  exact ⟨⟨List.append_ne_nil_of_right_ne_nil _ hne, fun c hc => (hplain c hc).1⟩,
    fun hnul => (hplain 0 hnul).2 rfl⟩

/-- Words with single blanks between them are a C string of one line. -/
theorem joinWords_oneLine {ws : List CString} (h : ∀ word ∈ ws, IsToken word) :
    10 ∉ joinWords ws ∧ 0 ∉ joinWords ws := by
  constructor
  · intro hmem
    rcases mem_joinWords hmem with heq | ⟨word, hword, hnewline⟩
    · exact absurd heq (by decide)
    · exact absurd ((h word hword).space 10 hnewline) (by decide)
  · intro hmem
    rcases mem_joinWords hmem with heq | ⟨word, hword, hnul⟩
    · exact absurd heq (by decide)
    · exact (h word hword).nul hnul

theorem ServStatus.pri_oneLine {R : Type*} {printf0 printf2 : R → CString}
    (h : Printf printf0 printf2) (s : ServStatus R) :
    10 ∉ s.pri printf0 printf2 ∧ 0 ∉ s.pri printf0 printf2 := by
  apply joinWords_oneLine
  intro word hword
  rcases List.mem_append.1 hword with hreal | hsize
  · simp only [List.mem_cons, List.mem_map] at hreal
    rcases hreal with rfl | rfl | ⟨x, -, rfl⟩
    · exact (h.whole _).isToken
    · exact (h.whole _).isToken
    · exact (h.hundredths _).isToken
  · obtain ⟨n, -, rfl⟩ := List.mem_map.1 hsize
    exact IsWhole.isToken ⟨[], decimal n.toNat, .inl rfl, decimal_ne_nil _, isDigit_decimal _, rfl⟩

/-- The status as it arrives: with the digits that were printed. -/
def ServStatus.received {D R : Type*} (strtod : CString → D) (printf0 printf2 : R → CString)
    (s : ServStatus R) : ServStatus D :=
  { s with
    ssTime := strtod (printf0 s.ssTime)
    ssUptime := strtod (printf0 s.ssUptime)
    ssLoad := fun i => strtod (printf2 (s.ssLoad i)) }

variable {D R : Type*} {printf0 printf2 : R → CString}

/-- A printed status is read back, whatever follows it on the line. -/
theorem scnServStatus_pri (strtod : CString → D) (h : Printf printf0 printf2)
    (s : ServStatus R) {after : CString} (hafter : Ends after) :
    scnServStatus strtod (s.pri printf0 printf2 ++ after) =
      some (s.received strtod printf0 printf2) := by
  have hreals : scanAll scanLf 5 (s.pri printf0 printf2 ++ after) = some
      (printf0 s.ssTime :: printf0 s.ssUptime :: (List.ofFn s.ssLoad).map printf2,
        32 :: (joinWords (s.sizes.map fun n => decimal n.toNat) ++ after)) := by
    have hne : (s.sizes.map fun n => decimal n.toNat) ≠ [] := List.cons_ne_nil _ _
    rw [ServStatus.pri, joinWords_append (List.cons_ne_nil _ _) hne, List.append_assoc,
      List.cons_append]
    refine scanAll_joinWords (.cons (reads_whole (h.whole _)) (.cons (reads_whole (h.whole _)) ?_))
      (ends_blank _)
    exact List.forall₂_same.2 fun word hword => by
      obtain ⟨x, -, rfl⟩ := List.mem_map.1 hword
      exact reads_decimal (h.hundredths x)
  have hsizes : scanAll scanZu 10
      (32 :: (joinWords (s.sizes.map fun n => decimal n.toNat) ++ after)) =
      some (s.sizes, after) := by
    have hread : List.Forall₂ (Reads scanZu) (s.sizes.map fun n => decimal n.toNat)
        s.sizes := by
      rw [List.forall₂_map_left_iff]
      exact List.forall₂_same.2 fun n _ => reads_size n
    rw [scanAll_blank (fun s hc => (reads_size 0).blank s hc) 9 (rfl : isSpace 32 = true)]
    exact scanAll_joinWords hread hafter
  have hload : ![strtod (printf2 (s.ssLoad 0)), strtod (printf2 (s.ssLoad 1)),
      strtod (printf2 (s.ssLoad 2))] = fun i => strtod (printf2 (s.ssLoad i)) :=
    FinVec.etaExpand_eq fun i => strtod (printf2 (s.ssLoad i))
  have hloads : (List.ofFn s.ssLoad).map printf2 =
      [printf2 (s.ssLoad 0), printf2 (s.ssLoad 1), printf2 (s.ssLoad 2)] := rfl
  rw [scnServStatus, hreals, hloads]
  simp only [hsizes]
  rw [ServStatus.received, ← hload]
  rfl

end Xltop.Status
