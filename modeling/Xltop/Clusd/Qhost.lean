import Xltop.Core.Words
import Mathlib.Data.List.DropRight
import Mathlib.Logic.Function.Basic

/-!
# The filter of `qhost -j`

`qhost_j_filter` reads the hosts and jobs of a cluster and prints a line for
each job on each host, or one line for an idle host.  It keeps the line of the
current host in one of two buffers, and reads into the other one.

Memory for the lines does not run out, and writing does not fail.  `date` stands
for `strptime` with `"%m/%d/%Y %T"` and `mktime` after it.
-/

namespace Xltop.Clusd

open Function
open Xltop.Text

/-- `isalpha` in the C locale. -/
def isAlpha (c : Byte) : Bool :=
  (65 ≤ c && c ≤ 90) || (97 ≤ c && c ≤ 122)

/-- `isalpha(*line)` -/
def startsAlpha (line : List Byte) : Bool :=
  (cstr line).head?.any isAlpha

/-- `atoi` -/
def atoi (s : CString) : ℤ := (strtol s).bmod (2 ^ 32)

/-- What `getline` returns, call by call, until the end of the input. -/
def getlines : List Byte → List (List Byte)
  | [] => []
  | c :: text =>
      if c = 10 then [c] :: getlines text
      else
        match getlines text with
        | [] => [[c]]
        | line :: lines => (c :: line) :: lines

/-- How many bytes of a string `split` with `targets` targets passes. -/
def passed (targets : ℕ) (s : CString) : ℕ :=
  match (split targets (some s)).2 with
  | none => s.length
  | some rest => s.length - rest.length

/-- A line after `split` with `targets` targets: the delimiters it has passed
are NULs. -/
def splitLine (targets : ℕ) (line : List Byte) : List Byte :=
  let n := passed targets (cstr line)
  ((line.take n).map fun c => if isSpace c then 0 else c) ++ line.drop n

/-- The variables of `qhost_j_filter`; `host` points into one of the buffers. -/
structure Filter where
  i : Bool
  line : Bool → List Byte
  host : Option (Bool × ℕ)
  foundJob : Bool
  out : CString

def filterInit : Filter where
  i := false
  line := fun _ => []
  host := none
  foundJob := false
  out := []

/-- The string that a pointer into the buffers points to. -/
def Filter.text (st : Filter) (ptr : Bool × ℕ) : CString :=
  cstr ((st.line ptr.1).drop ptr.2)

section Filter

variable (date : CString → Option ℤ) (dotDomain clus : CString)

/-- The line of an idle host. -/
def idleText (host : CString) : CString :=
  host ++ dotDomain ++ lit " " ++ lit "IDLE" ++ lit "@" ++ clus ++ lit "\n"

/-- The line of a job on a host. -/
def jobText (host jobid owner title : CString) (start : ℤ) : CString :=
  host ++ dotDomain ++ lit " " ++ jobid ++ lit "@" ++ clus ++ lit " " ++ owner ++ lit " " ++
    title ++ lit " " ++ decimalInt start ++ lit "\n"

/-- From the label `again` up to the next `getline`. -/
def again (st : Filter) : Filter :=
  let s0 := cstr (st.line st.i)
  let st := { st with line := update st.line st.i (splitLine 3 (st.line st.i)) }
  match (split 3 (some s0)).1 with
  | [_, _, ncpu] =>
      if atoi ncpu = 0 then { st with host := none }
      else { st with
        host := some (st.i, (s0.takeWhile isSpace).length)
        foundJob := false }
  | _ => { st with host := none }

/-- A line that the outer loop has read. -/
def outerLine (st : Filter) (line : List Byte) : Filter :=
  let st := { st with line := update st.line st.i line }
  if startsAlpha line then again st else st

/-- A line that the inner loop has read, for the host at `ptr`. -/
def innerLine (st : Filter) (ptr : Bool × ℕ) (line : List Byte) : Filter :=
  let st := { st with line := update st.line (!st.i) line }
  if startsAlpha line then
    let st := if st.foundJob then st
      else { st with out := st.out ++ idleText dotDomain clus (st.text ptr) }
    again { st with i := !st.i }
  else
    let st := { st with line := update st.line (!st.i) (splitLine 5 line) }
    match split 5 (some (cstr line)) with
    | ([jobid, _, title, owner, r], some s1) =>
        if r = lit "r" then
          match date s1 with
          | none => st
          | some start =>
              { st with
                out := st.out ++ jobText dotDomain clus (st.text ptr) jobid owner title start
                foundJob := true }
        else st
    | _ => st

/-- A line, from one `getline` to the next. -/
def filterLine (st : Filter) (line : List Byte) : Filter :=
  match st.host with
  | none => outerLine st line
  | some ptr => innerLine date dotDomain clus st ptr line

/-- The output of `qhost_j_filter`. -/
def qhostJFilter (text : List Byte) : CString :=
  ((getlines text).foldl (filterLine date dotDomain clus) filterInit).out

/-! ## Hosts and their blocks -/

/-- The name of a real host. -/
def realHost (line : List Byte) : Option CString :=
  if startsAlpha line then
    match words (cstr line) with
    | host :: _ :: ncpu :: _ => if atoi ncpu ≠ 0 then some host else none
    | _ => none
  else none

/-- The output for a line with a running job on a host. -/
def jobLine (host : CString) (line : List Byte) : Option CString :=
  match words (cstr line) with
  | jobid :: _ :: title :: owner :: r :: _ =>
      if r = lit "r" then
        ((split 5 (some (cstr line))).2.bind date).map
          (jobText dotDomain clus host jobid owner title)
      else none
  | _ => none

/-- The output for a host with a block of lines after it, of which some job
lines may be out already. -/
def blockText (host : CString) (foundJob : Bool) (block : List (List Byte)) : CString :=
  let jobs := block.filterMap (jobLine date dotDomain clus host)
  jobs.flatten ++ if foundJob || !jobs.isEmpty then [] else idleText dotDomain clus host

/-- The output for all blocks in order. -/
def hostsText : List (List Byte) → CString
  | [] => []
  | line :: lines =>
      (match realHost line with
        | none => []
        | some host =>
            blockText date dotDomain clus host false (lines.takeWhile fun l => !startsAlpha l)) ++
        hostsText lines

/-! ## Reading the lines of a block -/

/-- The host of the block that is open, and whether a job of it is out. -/
abbrev Opened := Option (CString × Bool)

/-- What the variables say about the open block. -/
def Showing (st : Filter) : Opened → Prop
  | none => st.host = none
  | some (host, foundJob) => ∃ offset, st.host = some (st.i, offset) ∧
      st.text (st.i, offset) = host ∧ st.foundJob = foundJob

def openNext (opened : Opened) (line : List Byte) : Opened :=
  if startsAlpha line then (realHost line).map fun host => (host, false)
  else opened.map fun (host, foundJob) =>
    (host, foundJob || (jobLine date dotDomain clus host line).isSome)

/-- What a line makes the filter print. -/
def printed : Opened → List Byte → CString
  | none, _ => []
  | some (host, foundJob), line =>
      if startsAlpha line then if foundJob then [] else idleText dotDomain clus host
      else (jobLine date dotDomain clus host line).getD []

theorem isSpace_of_isAlpha {c : Byte} (h : isAlpha c) : isSpace c = false := by
  simp only [isAlpha, isSpace, Bool.or_eq_true, Bool.and_eq_true, decide_eq_true_eq,
    Bool.or_eq_false_iff, beq_eq_false_iff_ne, Bool.and_eq_false_iff, decide_eq_false_iff_not,
    UInt8.le_iff_toNat_le, ne_eq, ← UInt8.toNat_inj, UInt8.reduceToNat] at h ⊢
  omega

/-- The bytes after a string end it. -/
theorem cstr_append {s rest : List Byte} (hs : ∀ c ∈ s, c ≠ 0) (hrest : ∀ c ∈ rest.head?, c = 0) :
    cstr (s ++ rest) = s := by
  rw [cstr, List.takeWhile_append_of_pos (by simpa using hs)]
  cases rest with
  | nil => simp
  | cons c rest => simp [hrest c rfl]

/-- A word ends where the first delimiter after it is cut. -/
theorem cstr_cut {word : List Byte} (tail : List Byte) {n : ℕ}
    (hword : ∀ c ∈ word, isSpace c = false ∧ c ≠ 0) (hn : word.length ≤ n)
    (htail : ∀ c ∈ tail.head?, c = 0 ∨ isSpace c = true ∧ word.length < n) :
    cstr ((((word ++ tail).take n).map fun c => if isSpace c then 0 else c) ++
      (word ++ tail).drop n) = word := by
  obtain ⟨k, rfl⟩ := Nat.exists_eq_add_of_le hn
  have hsame : (word.map fun c => if isSpace c then (0 : Byte) else c) = word := by
    conv_rhs => rw [← List.map_id word]
    apply List.map_congr_left
    intro c hc
    simp [(hword c hc).1]
  rw [List.take_length_add_append, List.drop_length_add_append, List.map_append, hsame,
    List.append_assoc]
  apply cstr_append fun c hc => (hword c hc).2
  intro c hc
  cases tail with
  | nil => simp at hc
  | cons first tail =>
      cases k with
      | zero =>
          obtain rfl : first = c := Option.some.inj hc
          simpa using htail first rfl
      | succ k =>
          have hfirst := htail first rfl
          simp only [List.take_succ_cons, List.map_cons, List.cons_append, List.head?_cons,
            Option.mem_some_iff] at hc
          rw [← hc]
          rcases hfirst with rfl | ⟨hspace, -⟩
          · rfl
          · rw [if_pos hspace]

theorem word_le_passed {s : CString} (hword : (s.takeWhile fun c => !isSpace c) ≠ [])
    (targets : ℕ) :
    (s.takeWhile fun c => !isSpace c).length ≤ passed (targets + 1) s ∧
      ((s.dropWhile fun c => !isSpace c) ≠ [] →
        (s.takeWhile fun c => !isSpace c).length < passed (targets + 1) s) := by
  have hlength := congrArg List.length
    (List.takeWhile_append_dropWhile (p := fun c => !isSpace c) (l := s))
  rw [List.length_append] at hlength
  have hrest := refSize_split_le targets (strsep isSpace (some s)).2
  rw [passed, split, wsep_of_word hword]
  simp only [strsep] at hrest ⊢
  cases hdrop : s.dropWhile fun c => !isSpace c with
  | nil =>
      rw [hdrop] at hrest hlength
      cases hsplit : (split targets none).2 with
      | none => simp_all
      | some rest => simp [hsplit, refSize] at hrest
  | cons c rest =>
      rw [hdrop] at hrest hlength
      simp only [List.length_cons] at hlength
      cases hsplit : (split targets (some rest)).2 with
      | none =>
          simp only
          omega
      | some rest' =>
          simp only [hsplit, refSize] at hrest ⊢
          omega

/-- The first word of a line stays where it is when the line is split. -/
theorem cstr_splitLine {line : List Byte}
    (hword : ((cstr line).takeWhile fun c => !isSpace c) ≠ []) (targets : ℕ) :
    cstr (splitLine (targets + 1) line) = (cstr line).takeWhile fun c => !isSpace c := by
  obtain ⟨hfirst, hnext⟩ := span_space (cstr line)
  obtain ⟨hle, hlt⟩ := word_le_passed hword targets
  have happend := List.takeWhile_append_dropWhile (p := fun c => !isSpace c) (l := cstr line)
  have hline : cstr line ++ line.dropWhile (· != 0) = line :=
    List.takeWhile_append_dropWhile
  rw [← happend, List.append_assoc] at hline
  have hchars : ∀ c ∈ (cstr line).takeWhile fun c => !isSpace c,
      isSpace c = false ∧ c ≠ 0 := fun c hc => by
    have hmem : c ∈ cstr line := happend ▸ List.mem_append_left _ hc
    exact ⟨hfirst c hc, by simpa using List.mem_takeWhile_imp hmem⟩
  have hcut := cstr_cut ((cstr line).dropWhile (fun c => !isSpace c) ++
    line.dropWhile (· != 0)) hchars hle fun c hc => by
      cases hdrop : (cstr line).dropWhile fun c => !isSpace c with
      | nil =>
          have hnot := List.head?_dropWhile_not (· != 0) line
          rw [hdrop, List.nil_append, Option.mem_def] at hc
          rw [hc] at hnot
          exact .inl (by simpa using hnot)
      | cons first rest =>
          rw [hdrop] at hc hnext hlt
          exact .inr ⟨hnext c hc, hlt (List.cons_ne_nil first rest)⟩
  rwa [hline] at hcut

theorem again_spec {st : Filter} {line : List Byte} (hline : st.line st.i = line)
    (halpha : startsAlpha line) :
    Showing (again st) ((realHost line).map fun host => (host, false)) ∧
      (again st).out = st.out := by
  subst hline
  obtain ⟨c, s, hs, hc⟩ : ∃ c s, cstr (st.line st.i) = c :: s ∧ isAlpha c := by
    rw [startsAlpha] at halpha
    cases hs : cstr (st.line st.i) with
    | nil => simp [hs] at halpha
    | cons c s => exact ⟨c, s, rfl, by simpa [hs] using halpha⟩
  have hspace := isSpace_of_isAlpha hc
  have hword : ((cstr (st.line st.i)).takeWhile fun c => !isSpace c) ≠ [] := by
    rw [hs, List.takeWhile_cons_of_pos (by simpa using hspace)]
    intro hnil
    cases hnil
  have hoffset : (cstr (st.line st.i)).takeWhile isSpace = [] := by
    rw [hs, List.takeWhile_cons_of_neg (by simpa using hspace)]
  have hwords := words_strsep (cstr (st.line st.i))
  rw [if_neg hword] at hwords
  have htext := cstr_splitLine hword 2
  rw [again, split_fst, realHost, if_pos halpha]
  simp only [refWords, Option.map_some, Option.getD_some]
  rw [hwords]
  rcases refWords (strsep isSpace (some (cstr (st.line st.i)))).2 with - | ⟨arch, - | ⟨ncpu, rest⟩⟩
  · exact ⟨rfl, rfl⟩
  · exact ⟨rfl, rfl⟩
  · simp only [List.singleton_append, List.take_succ_cons, List.take_zero]
    by_cases hncpu : atoi ncpu = 0
    · rw [if_pos hncpu, if_neg (not_not_intro hncpu)]
      exact ⟨rfl, rfl⟩
    · rw [if_neg hncpu, if_pos hncpu]
      refine ⟨⟨_, rfl, ?_, rfl⟩, rfl⟩
      rw [hoffset]
      simpa [Filter.text] using htext

/-- Reading into the other buffer leaves the host alone. -/
theorem text_update (st : Filter) (line : List Byte) (offset : ℕ) :
    Filter.text { st with line := update st.line (!st.i) line } (st.i, offset) =
      st.text (st.i, offset) := by
  simp only [Filter.text]
  rw [update_of_ne (by cases st.i <;> decide)]

theorem innerLine_alpha {st : Filter} {host : CString} {offset : ℕ}
    (htext : st.text (st.i, offset) = host) {line : List Byte} (halpha : startsAlpha line) :
    Showing (innerLine date dotDomain clus st (st.i, offset) line)
        ((realHost line).map fun host => (host, false)) ∧
      (innerLine date dotDomain clus st (st.i, offset) line).out =
        st.out ++ if st.foundJob then [] else idleText dotDomain clus host := by
  rw [← htext, ← text_update st line, innerLine]
  simp only [if_pos halpha]
  split
  · rw [List.append_nil]
    exact again_spec (update_self ..) halpha
  · exact again_spec (update_self ..) halpha

theorem innerLine_job {st : Filter} {host : CString} {offset : ℕ}
    (hhost : st.host = some (st.i, offset)) (htext : st.text (st.i, offset) = host)
    {line : List Byte} (halpha : ¬ startsAlpha line) :
    Showing (innerLine date dotDomain clus st (st.i, offset) line)
        (some (host, st.foundJob || (jobLine date dotDomain clus host line).isSome)) ∧
      (innerLine date dotDomain clus st (st.i, offset) line).out =
        st.out ++ (jobLine date dotDomain clus host line).getD [] := by
  have hkept : Filter.text { st with line := update st.line (!st.i) (splitLine 5 line) }
      (st.i, offset) = host := (text_update st _ offset).trans htext
  have hsame : Showing { st with line := update st.line (!st.i) (splitLine 5 line) }
      (some (host, st.foundJob)) := ⟨offset, hhost, hkept, rfl⟩
  have hsplit : (split 5 (some (cstr line))).1 = (words (cstr line)).take 5 := split_fst ..
  rw [innerLine, jobLine]
  simp only [if_neg halpha, update_idem]
  generalize split 5 (some (cstr line)) = cut at hsplit ⊢
  obtain ⟨cut, after⟩ := cut
  obtain rfl : cut = (words (cstr line)).take 5 := hsplit
  rcases words (cstr line) with
    - | ⟨jobid, - | ⟨pri, - | ⟨title, - | ⟨owner, - | ⟨r, more⟩⟩⟩⟩⟩
  iterate 5
    · simpa using hsame
  simp only [List.take_succ_cons, List.take_zero]
  cases after with
  | none => simpa using hsame
  | some s1 =>
      simp only [Option.bind_some]
      by_cases hr : r = lit "r"
      · rw [if_pos hr, if_pos hr]
        cases date s1 with
        | none => simpa using hsame
        | some start =>
            rw [hkept, Option.map_some, Option.isSome_some, Bool.or_true]
            exact ⟨⟨offset, hhost, hkept, rfl⟩, rfl⟩
      · rw [if_neg hr, if_neg hr]
        simpa using hsame

theorem filterLine_spec {st : Filter} {opened : Opened} (h : Showing st opened)
    (line : List Byte) :
    Showing (filterLine date dotDomain clus st line)
        (openNext date dotDomain clus opened line) ∧
      (filterLine date dotDomain clus st line).out =
        st.out ++ printed date dotDomain clus opened line := by
  rcases opened with - | ⟨host, foundJob⟩
  · have hhost : st.host = none := h
    rw [filterLine, hhost, outerLine, openNext]
    by_cases halpha : startsAlpha line
    · have hagain := @again_spec { st with line := update st.line st.i line } line
        (update_self ..) halpha
      rw [if_pos halpha, if_pos halpha]
      simpa [printed] using hagain
    · rw [if_neg halpha, if_neg halpha]
      exact ⟨hhost, (List.append_nil _).symm⟩
  · obtain ⟨offset, hhost, htext, rfl⟩ := h
    rw [openNext, printed, filterLine, hhost]
    by_cases halpha : startsAlpha line
    · rw [if_pos halpha, if_pos halpha]
      exact innerLine_alpha date dotDomain clus htext halpha
    · rw [if_neg halpha, if_neg halpha]
      exact innerLine_job date dotDomain clus hhost htext halpha

/-- What the end of a block still has to print. -/
def owed : Opened → CString
  | some (host, false) => idleText dotDomain clus host
  | _ => []

/-- The output for the rest of the open block and the blocks after it. -/
def restText (opened : Opened) (lines : List (List Byte)) : CString :=
  (opened.elim [] fun (host, foundJob) =>
    blockText date dotDomain clus host foundJob (lines.takeWhile fun l => !startsAlpha l)) ++
    hostsText date dotDomain clus lines

theorem restText_cons (opened : Opened) (line : List Byte) (lines : List (List Byte)) :
    restText date dotDomain clus opened (line :: lines) =
      printed date dotDomain clus opened line ++
        restText date dotDomain clus (openNext date dotDomain clus opened line) lines := by
  rw [restText, restText, hostsText, openNext]
  by_cases halpha : startsAlpha line
  · have hstart : ((line :: lines).takeWhile fun l => !startsAlpha l) = [] := by
      rw [List.takeWhile_cons_of_neg (by simpa using halpha)]
    rw [if_pos halpha, hstart, ← List.append_assoc, ← List.append_assoc]
    congr 2
    · rcases opened with - | ⟨host, foundJob⟩
      · rfl
      · cases foundJob <;> simp [printed, blockText, halpha]
    · cases realHost line <;> rfl
  · have hhost : realHost line = none := if_neg halpha
    have htake : ((line :: lines).takeWhile fun l => !startsAlpha l) =
        line :: lines.takeWhile fun l => !startsAlpha l := by
      rw [List.takeWhile_cons_of_pos (by simpa using halpha)]
    rw [if_neg halpha, htake, hhost, List.nil_append, ← List.append_assoc]
    congr 1
    rcases opened with - | ⟨host, foundJob⟩
    · rfl
    · cases hjob : jobLine date dotDomain clus host line with
      | none => simp [printed, blockText, halpha, hjob]
      | some job => simp [printed, blockText, halpha, hjob]

theorem foldl_filterLine {st : Filter} {opened : Opened} (h : Showing st opened)
    (lines : List (List Byte)) :
    (lines.foldl (filterLine date dotDomain clus) st).out ++
        owed dotDomain clus (lines.foldl (openNext date dotDomain clus) opened) =
      st.out ++ restText date dotDomain clus opened lines := by
  induction lines generalizing st opened with
  | nil =>
      rcases opened with - | ⟨host, - | -⟩
      · rfl
      · simp [owed, restText, blockText, hostsText]
      · simp [owed, restText, blockText, hostsText]
  | cons line lines ih =>
      obtain ⟨hnext, hout⟩ := filterLine_spec date dotDomain clus h line
      rw [List.foldl_cons, List.foldl_cons, ih hnext, hout, restText_cons, List.append_assoc]

/-- The last line that starts with a letter is no real host, or a job line
comes after it. -/
def LastHostBusy (lines : List (List Byte)) : Prop :=
  ∀ last ∈ (lines.rdropWhile fun l => !startsAlpha l).getLast?, ∀ host ∈ realHost last,
    ∃ line ∈ lines.rtakeWhile fun l => !startsAlpha l,
      (jobLine date dotDomain clus host line).isSome

theorem foldl_openNext (lines : List (List Byte)) :
    lines.foldl (openNext date dotDomain clus) none =
      ((lines.rdropWhile fun l => !startsAlpha l).getLast?.bind realHost).map fun host =>
        (host, (lines.rtakeWhile fun l => !startsAlpha l).any fun line =>
          (jobLine date dotDomain clus host line).isSome) := by
  induction lines using List.reverseRecOn with
  | nil => rfl
  | append_singleton lines line ih =>
      rw [List.foldl_append, List.foldl_cons, List.foldl_nil, ih, openNext]
      by_cases halpha : startsAlpha line
      · rw [if_pos halpha, List.rdropWhile_concat_neg _ _ _ (by simpa using halpha),
          List.rtakeWhile_concat_neg _ _ _ (by simpa using halpha), List.getLast?_concat]
        rfl
      · rw [if_neg halpha, List.rdropWhile_concat_pos _ _ _ (by simpa using halpha),
          List.rtakeWhile_concat_pos _ _ _ (by simpa using halpha), Option.map_map]
        congr 1
        funext host
        simp

theorem owed_some (host : CString) (foundJob : Bool) :
    owed dotDomain clus (some (host, foundJob)) = [] ↔ foundJob = true := by
  have hidle : idleText dotDomain clus host ≠ [] := by simp [idleText, lit]
  cases foundJob with
  | false => exact iff_of_false hidle Bool.false_ne_true
  | true => exact iff_of_true rfl rfl

theorem owed_eq_nil_iff (lines : List (List Byte)) :
    owed dotDomain clus (lines.foldl (openNext date dotDomain clus) none) = [] ↔
      LastHostBusy date dotDomain clus lines := by
  rw [foldl_openNext, LastHostBusy]
  cases (lines.rdropWhile fun l => !startsAlpha l).getLast? with
  | none => simp [owed]
  | some last =>
      cases hhost : realHost last with
      | none => simp [owed, hhost]
      | some host =>
          rw [Option.bind_some, hhost, Option.map_some, owed_some, List.any_eq_true]
          simp [hhost]

/-- The filter accounts for all hosts just when the last block is not that of
an idle host. -/
theorem qhost_covers_iff (text : List Byte) :
    qhostJFilter date dotDomain clus text = hostsText date dotDomain clus (getlines text) ↔
      LastHostBusy date dotDomain clus (getlines text) := by
  have hinit : Showing filterInit none := rfl
  have hrun := foldl_filterLine date dotDomain clus hinit (getlines text)
  have hrest : filterInit.out ++ restText date dotDomain clus none (getlines text) =
      hostsText date dotDomain clus (getlines text) := rfl
  rw [← owed_eq_nil_iff, ← hrest, ← hrun, qhostJFilter, List.self_eq_append_right]

end Filter

/-- A list of hosts that ends in an idle one. -/
def idleLast : List Byte :=
  lit "ivis7                   lx24-amd64     16  0.00  126.0G    2.0G    4.0G     0.0\n"

/-- The last host has no line, though it is idle. -/
theorem idle_last_host_lost :
    qhostJFilter (fun _ => none) (lit ".ranger.tacc.utexas.edu") (lit "ranger") idleLast ≠
      hostsText (fun _ => none) (lit ".ranger.tacc.utexas.edu") (lit "ranger")
        (getlines idleLast) := by
  have hempty : qhostJFilter (fun _ => none) (lit ".ranger.tacc.utexas.edu") (lit "ranger")
      idleLast = [] := by decide +kernel
  have hidle : hostsText (fun _ => none) (lit ".ranger.tacc.utexas.edu") (lit "ranger")
      (getlines idleLast) = lit "ivis7.ranger.tacc.utexas.edu IDLE@ranger\n" := by
    decide +kernel
  rw [hempty, hidle]
  decide

end Xltop.Clusd
