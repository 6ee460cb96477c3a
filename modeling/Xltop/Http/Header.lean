import Xltop.Http.Session
import Mathlib.Data.Nat.Digits.Defs

/-!
# The header of a response

`br_write_header` prints up to five pieces.  Each has a bounded length, so that
behind a short queue the whole header fits into its buffer.
-/

namespace Xltop.Http

open Xltop.Buffer
open Xltop.Text

theorem length_lit (s : String) : (lit s).length = s.length := by
  rw [lit, List.length_map, String.length_toList]

theorem length_decimal_le {n k : ℕ} (hk : 0 < k) (hn : n < 10 ^ k) :
    (decimal n).length ≤ k := by
  rw [decimal, length_lit]
  exact Nat.repr_length n k hk hn

theorem length_decimalInt_le (status : Int32) :
    (decimalInt status.toInt).length ≤ 11 := by
  have hlow := status.le_toInt
  have hhigh := status.toInt_lt
  have hdigits : (decimal status.toInt.natAbs).length ≤ 10 :=
    length_decimal_le (by decide) (by omega)
  rw [decimalInt]
  split
  · rw [List.length_cons]
    omega
  · omega

theorem length_strstatus_le (status : Int32) : (botzStrstatus status).length ≤ 21 := by
  rw [botzStrstatus]
  split_ifs <;> decide

/-- The first two lines of `br_write_header` settle the status. -/
theorem finalStatus_pos {r r₁ r₂ : Response}
    (hr₁ : (if r.rStatus < 0 then { r with rStatus := 500 } else r) = r₁)
    (hr₂ : (if r₁.rStatus = 0 then { r₁ with rStatus := 200 } else r₁) = r₂) :
    0 < r₂.rStatus := by
  have hone : 0 ≤ r₁.rStatus := by
    rw [← hr₁]
    split
    · exact (by decide : (0 : Int32) ≤ 500)
    · next hneg => exact Int32.not_lt.1 hneg
  rw [← hr₂]
  split
  · exact (by decide : (0 : Int32) < 200)
  · next hzero =>
      exact (Int32.le_iff_lt_or_eq.1 hone).resolve_right fun heq => hzero heq.symm

/-- What `br_write_header` leaves: the final response and the header. -/
structure HeaderWritten (r : Response) (nb : NBuf) (r' : Response) (nb' : NBuf) :
    Prop where
  final : r'.Final
  close : r'.rClose = r.rClose
  printed : Printed nb nb'
  ne_nil : nb.nbStart = 0 → nb.nbSize = blRHeaderSize → nb'.data ≠ []
  bytes : nb.nbSize = blRHeaderSize → nb.nbEnd ≤ shortQueue →
    nb'.data = nb.data ++ headerText r' r'.rBody.data.length

/-- The lines after the content lines. -/
theorem headerEnd_spec (r : Response) {nb : NBuf} (h : nb.Check) {nb' : NBuf}
    (hnb' : nBufPrintf (if r.rClose = true then
        nBufPrintf (if r.rStatus < 300 then
            nBufPrintf nb (lit "Access-Control-Allow-Origin: *\r\n") else nb)
          (lit "Connection: close\r\n")
      else if r.rStatus < 300 then
          nBufPrintf nb (lit "Access-Control-Allow-Origin: *\r\n") else nb)
      (lit "\r\n") = nb') :
    Printed nb nb' ∧ (nb.nbStart = 0 → 0 < nb.nbSize → nb'.data ≠ []) ∧
      (nb.nbEnd + 53 < nb.nbSize → PrintedAll nb
        ((if r.rStatus < 300 then lit "Access-Control-Allow-Origin: *\r\n" else []) ++
          (if r.rClose = true then lit "Connection: close\r\n" else []) ++ lit "\r\n")
        nb') := by
  have horigin : (lit "Access-Control-Allow-Origin: *\r\n").length = 32 := by decide
  have hclose : (lit "Connection: close\r\n").length = 19 := by decide
  have hend : (lit "\r\n").length = 2 := by decide
  have h₁ := printed_if h (r.rStatus < 300) (lit "Access-Control-Allow-Origin: *\r\n")
  have hall₁ := printedAll_if h (r.rStatus < 300)
    (lit "Access-Control-Allow-Origin: *\r\n")
  have hlen₁ : (if r.rStatus < 300 then lit "Access-Control-Allow-Origin: *\r\n"
      else []).length ≤ 32 := by
    split
    · exact horigin.le
    · exact Nat.zero_le _
  generalize (if r.rStatus < 300 then nBufPrintf nb _ else nb) = nb₁ at h₁ hall₁ hnb'
  generalize (if r.rStatus < 300 then lit "Access-Control-Allow-Origin: *\r\n"
    else []) = text₁ at hall₁ hlen₁ ⊢
  have h₂ := printed_if h₁.check (r.rClose = true) (lit "Connection: close\r\n")
  have hall₂ := printedAll_if h₁.check (r.rClose = true) (lit "Connection: close\r\n")
  have hlen₂ : (if r.rClose = true then lit "Connection: close\r\n"
      else []).length ≤ 19 := by
    split
    · exact hclose.le
    · exact Nat.zero_le _
  generalize (if r.rClose = true then nBufPrintf nb₁ _ else nb₁) = nb₂ at h₂ hall₂ hnb'
  generalize (if r.rClose = true then lit "Connection: close\r\n" else []) = text₂
    at hall₂ hlen₂ ⊢
  subst hnb'
  have hboth := h₁.trans h₂
  refine ⟨hboth.trans (printed hboth.check _), fun hstart hsize => ?_, fun hroom => ?_⟩
  · exact printf_ne_nil hboth.check (hboth.start.trans hstart)
      (hboth.size.symm ▸ hsize) (by decide)
  · have hsize₁ := h₁.size
    have hsize₂ := hboth.size
    have hfirst := hall₁ (by omega)
    have hlength := hfirst.length
    have hsecond := hfirst.trans (hall₂ (by omega))
    have hlength' := hsecond.length
    rw [List.length_append] at hlength'
    exact hsecond.trans (printedAll hboth.check _ (by omega))

/-- The longest status line and content lines fit behind a short queue. -/
theorem brWriteHeader_spec {r : Response} (hr : r.Ok) {nb : NBuf} (h : nb.Check) :
    HeaderWritten r nb (brWriteHeader r nb).1 (brWriteHeader r nb).2 := by
  rw [brWriteHeader.eq_def]
  obtain ⟨r₁, hr₁⟩ : ∃ r₁, (if r.rStatus < 0 then { r with rStatus := 500 } else r) = r₁ :=
    ⟨_, rfl⟩
  obtain ⟨r₂, hr₂⟩ : ∃ r₂, (if r₁.rStatus = 0 then { r₁ with rStatus := 200 } else r₁) =
      r₂ := ⟨_, rfl⟩
  have hsame : r₂.rBody = r.rBody ∧ r₂.rBodyType = r.rBodyType ∧ r₂.rClose = r.rClose := by
    rw [← hr₂, ← hr₁]
    split_ifs <;> exact ⟨rfl, rfl, rfl⟩
  have hok : r₂.Ok := ⟨hsame.1 ▸ hr.body, hsame.1 ▸ hr.size, hsame.2.1 ▸ hr.type⟩
  have hstatus₂ := finalStatus_pos hr₁ hr₂
  have hstatusLen : (lit "HTTP/1.1 " ++ decimalInt r₂.rStatus.toInt ++ lit " " ++
      botzStrstatus r₂.rStatus ++ lit "\r\n").length ≤ 44 := by
    have hdecimal := length_decimalInt_le r₂.rStatus
    have hstr := length_strstatus_le r₂.rStatus
    simp only [List.length_append, length_lit]
    change 9 + _ + 1 + _ + 2 ≤ 44
    omega
  simp only [hr₁, hr₂]
  have hfirst := printed h (lit "HTTP/1.1 " ++ decimalInt r₂.rStatus.toInt ++ lit " " ++
    botzStrstatus r₂.rStatus ++ lit "\r\n")
  have hallFirst := printedAll h (lit "HTTP/1.1 " ++ decimalInt r₂.rStatus.toInt ++
    lit " " ++ botzStrstatus r₂.rStatus ++ lit "\r\n")
  by_cases h204 : r₂.rStatus = 204
  · simp only [if_pos h204]
    obtain ⟨hprinted, hne, hall⟩ := headerEnd_spec
      { r₂ with rBody := nBufClear r₂.rBody } hfirst.check rfl
    refine ⟨⟨⟨check_clear _, hok.size, hok.type⟩, hstatus₂, fun _ => rfl⟩, hsame.2.2,
      hfirst.trans hprinted, fun hstart hsize => ?_, fun hsize hshort => ?_⟩
    · exact hne (hfirst.start.trans hstart) (by rw [hfirst.size, hsize]; decide)
    · rw [blRHeaderSize] at hsize
      rw [shortQueue] at hshort
      have hroom : nb.nbEnd + 44 + 53 < nb.nbSize := by omega
      have hsize' := hfirst.size
      have hstatus := hallFirst (by omega)
      have hlength := hstatus.length
      have hbytes := (hstatus.trans (hall (by omega))).bytes
      rw [hbytes, headerText, if_pos h204]
      simp only [List.append_assoc, List.nil_append]
  · simp only [if_neg h204]
    have hcontentLen : (lit "Content-Type: " ++
        (if r₂.rBodyType.length ≠ 0 then r₂.rBodyType else lit "text/plain") ++
        lit "\r\nContent-Length: " ++ decimal (nBufLength r₂.rBody) ++
        lit "\r\n").length ≤ 120 := by
      have hbody := length_data_le hok.body
      rw [hok.size, length_data, blRBodySize] at hbody
      have hdecimal : (decimal (nBufLength r₂.rBody)).length ≤ 7 :=
        length_decimal_le (by decide) (by omega)
      have htype : (if r₂.rBodyType.length ≠ 0 then r₂.rBodyType
          else lit "text/plain").length ≤ 79 := by
        split
        · exact Nat.le_of_lt_succ hok.type
        · decide
      simp only [List.length_append, length_lit]
      change 14 + _ + 18 + _ + 2 ≤ 120
      omega
    have hsecond := hfirst.trans (printed hfirst.check (lit "Content-Type: " ++
      (if r₂.rBodyType.length ≠ 0 then r₂.rBodyType else lit "text/plain") ++
      lit "\r\nContent-Length: " ++ decimal (nBufLength r₂.rBody) ++ lit "\r\n"))
    obtain ⟨hprinted, hne, hall⟩ := headerEnd_spec r₂ hsecond.check rfl
    refine ⟨⟨hok, hstatus₂, fun heq => absurd heq h204⟩, hsame.2.2,
      hsecond.trans hprinted,
      fun hstart hsize => ?_, fun hsize hshort => ?_⟩
    · exact hne (hsecond.start.trans hstart) (by rw [hsecond.size, hsize]; decide)
    · rw [blRHeaderSize] at hsize
      rw [shortQueue] at hshort
      have hroom : nb.nbEnd + 44 + 120 + 53 < nb.nbSize := by omega
      have hsize₁ := hfirst.size
      have hsize₂ := hsecond.size
      have hstatus := hallFirst (by omega)
      have hlength := hstatus.length
      have hcontent := hstatus.trans (printedAll hfirst.check (lit "Content-Type: " ++
        (if r₂.rBodyType.length ≠ 0 then r₂.rBodyType else lit "text/plain") ++
        lit "\r\nContent-Length: " ++ decimal (nBufLength r₂.rBody) ++ lit "\r\n")
        (by omega))
      have hlength' := hcontent.length
      rw [List.length_append] at hlength'
      have hbytes := (hcontent.trans (hall (by omega))).bytes
      rw [hbytes, headerText, if_neg h204, length_data]
      simp only [List.append_assoc]

/-- A final response is left as it is, and so its header in an empty buffer is its
header in the run. -/
theorem header_of_final {r : Response} (h : r.Final) (block : ℕ → Byte) :
    (brWriteHeader r (nBufInit block blRHeaderSize)).2.data =
      headerText r r.rBody.data.length := by
  have hbytes := (brWriteHeader_spec h.ok (check_init block blRHeaderSize)).bytes rfl
    (Nat.zero_le _)
  have hneg : ¬ r.rStatus < 0 := Int32.not_lt.2 (Int32.le_of_lt h.status)
  have hzero : r.rStatus ≠ 0 := fun heq => Int32.lt_irrefl (heq ▸ h.status)
  rw [hbytes, brWriteHeader.eq_def]
  simp only [if_neg hneg, if_neg hzero]
  by_cases h204 : r.rStatus = 204
  · rw [if_pos h204, h.empty h204]
    rfl
  · rw [if_neg h204]
    rfl

end Xltop.Http
