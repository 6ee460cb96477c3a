import Xltop.Core.NBuf

/-!
# Printing up to the end of a buffer

`vsnprintf` ends what it writes with a NUL, for which it keeps the last byte of
the room it is given.  `n_buf_printf` moves `nb_end` behind this byte when a
text does not fit or just fits, so that a buffer that was filled in this way
holds a NUL where the next byte of the text should be.
-/

namespace Xltop.Buffer

open Xltop.Memory
open Xltop.Text

variable {nb : NBuf}

/-- The bytes from `nb_start` up to the end of the block. -/
def nBufRoom (nb : NBuf) : ℕ :=
  nb.nbSize - nb.nbStart

/-- The buffer is full: `n_buf_printf` does nothing to it. -/
theorem data_printf_full (hfull : nb.nbEnd = nb.nbSize) (text : CString) :
    (nBufPrintf nb text).data = nb.data ∧
      (nBufPrintf nb text).nbEnd = (nBufPrintf nb text).nbSize := by
  have hnone : nb.nbSize - nb.nbEnd = 0 := by omega
  have hsame : nBufPrintf nb text = nb := by
    rw [nBufPrintf]
    simp only [hnone, if_true, Nat.min_zero, Nat.add_zero]
    have hbuf : blit nb.nbBuf nb.nbEnd [] = nb.nbBuf := by
      funext i
      simp [blit]
    rw [hbuf]
  rw [hsame]
  exact ⟨rfl, hfull⟩

/-- A text without room for its NUL fills the buffer, with a NUL for its last
byte there. -/
theorem data_printf_fills (h : nb.Check) (hfree : nb.nbEnd < nb.nbSize) {text : CString}
    (hlong : nb.nbSize ≤ nb.nbEnd + text.length) :
    (nBufPrintf nb text).data = (nb.data ++ text).take (nBufRoom nb - 1) ++ [0] ∧
      (nBufPrintf nb text).nbEnd = nb.nbSize := by
  have hstart := h.start_le
  obtain ⟨max, hmax⟩ : ∃ max, nb.nbSize - nb.nbEnd = max + 1 :=
    Nat.exists_eq_succ_of_ne_zero (by omega)
  have hend : (nBufPrintf nb text).nbEnd = nb.nbSize := by
    change nb.nbEnd + min text.length (nb.nbSize - nb.nbEnd) = nb.nbSize
    omega
  refine ⟨?_, hend⟩
  have hcells : (text.take max ++ [0]).length = max + 1 := by
    rw [List.length_append, List.length_take, List.length_singleton]
    omega
  have hused : nb.nbStart + (nb.nbEnd - nb.nbStart) = nb.nbEnd := by omega
  have hbuf : (nBufPrintf nb text).nbBuf = blit nb.nbBuf nb.nbEnd (text.take max ++ [0]) := by
    rw [nBufPrintf, hmax, if_neg (Nat.succ_ne_zero max), Nat.add_sub_cancel]
  have hlength : nb.nbSize - nb.nbStart = nb.nbEnd - nb.nbStart + (max + 1) := by omega
  calc (nBufPrintf nb text).data
      = slice (nBufPrintf nb text).nbBuf nb.nbStart (nb.nbSize - nb.nbStart) := by
        rw [NBuf.data, hend]
        rfl
    _ = nb.data ++ (text.take max ++ [0]) := by
        have happend := slice_blit_append nb.nbBuf nb.nbStart (nb.nbEnd - nb.nbStart)
          (text.take max ++ [0])
        rwa [hused, hcells, ← hlength, ← hbuf] at happend
    _ = (nb.data ++ text).take (nBufRoom nb - 1) ++ [0] := by
        have hbefore : nBufRoom nb - 1 = nb.data.length + max := by
          rw [length_data, nBufLength, nBufRoom]
          omega
        rw [hbefore, List.take_length_add_append, List.append_assoc]

/-- What texts leave in a buffer when they are printed one after the other. -/
theorem data_printf_foldl (h : nb.Check) (texts : List CString) :
    (texts.foldl nBufPrintf nb).data =
      if nb.nbEnd = nb.nbSize then nb.data
      else if (nb.data ++ texts.flatten).length < nBufRoom nb then nb.data ++ texts.flatten
      else (nb.data ++ texts.flatten).take (nBufRoom nb - 1) ++ [0] := by
  induction texts generalizing nb with
  | nil =>
      have hstart := h.start_le
      have hend := h.end_le
      have hused : nb.data.length = nb.nbEnd - nb.nbStart := length_data nb
      rw [List.foldl_nil, List.flatten_nil, List.append_nil, hused, nBufRoom]
      split_ifs with hfull hfree
      · rfl
      · rfl
      · omega
  | cons text texts ih =>
      have hstart := h.start_le
      have hused : nb.data.length = nb.nbEnd - nb.nbStart := length_data nb
      have hprinted := printed h text
      have hroom : nBufRoom (nBufPrintf nb text) = nBufRoom nb := rfl
      rw [List.foldl_cons, ih hprinted.check, List.flatten_cons, hroom, hprinted.size]
      by_cases hfull : nb.nbEnd = nb.nbSize
      · obtain ⟨hdata, hend⟩ := data_printf_full hfull text
        rw [hprinted.size] at hend
        rw [if_pos hfull, if_pos hend, hdata]
      · rw [if_neg hfull, ← List.append_assoc]
        by_cases hfits : nb.nbEnd + text.length < nb.nbSize
        · have hall := printedAll h text hfits
          have hend : ¬ (nBufPrintf nb text).nbEnd = nb.nbSize := by
            rw [hall.length]
            omega
          rw [if_neg hend, hall.bytes]
        · have hfree : nb.nbEnd < nb.nbSize := lt_of_le_of_ne h.end_le hfull
          obtain ⟨hdata, hend⟩ := data_printf_fills h hfree (Nat.le_of_not_lt hfits)
          have hlong : nBufRoom nb ≤ (nb.data ++ text).length := by
            rw [List.length_append, hused, nBufRoom]
            omega
          have hover : ¬ (nb.data ++ text ++ texts.flatten).length < nBufRoom nb := by
            rw [List.length_append]
            omega
          rw [if_pos hend, hdata, if_neg hover,
            List.take_append_of_le_length ((Nat.sub_le _ 1).trans hlong)]

/-- Texts that are printed one after the other leave the first bytes of the old
contents and all texts, as many as there is room for, if the buffer was full
already, or all bytes leave room for a NUL, or the last byte that there is room
for is a NUL anyway, and never else. -/
theorem printf_prefix_iff (h : nb.Check) (texts : List CString) :
    (texts.foldl nBufPrintf nb).data = (nb.data ++ texts.flatten).take (nBufRoom nb) ↔
      nb.nbEnd = nb.nbSize ∨ (nb.data ++ texts.flatten).length < nBufRoom nb ∨
        (nb.data ++ texts.flatten)[nBufRoom nb - 1]? = some 0 := by
  have hused : nb.data.length = nb.nbEnd - nb.nbStart := length_data nb
  rw [data_printf_foldl h]
  split_ifs with hfull hfree
  · have hall : nBufRoom nb = nb.data.length := by rw [nBufRoom, hused, hfull]
    exact iff_of_true (by rw [hall, List.take_left']; rfl) (.inl hfull)
  · exact iff_of_true (List.take_of_length_le hfree.le).symm (.inr (.inl hfree))
  · obtain ⟨last, hlast⟩ : ∃ last, nBufRoom nb = last + 1 := by
      apply Nat.exists_eq_succ_of_ne_zero
      have hend := h.end_le
      have hstart := h.start_le
      rw [nBufRoom]
      omega
    rw [hlast] at hfree ⊢
    generalize nb.data ++ texts.flatten = all at hfree ⊢
    have hmem : last < all.length := Nat.lt_of_succ_le (Nat.le_of_not_lt hfree)
    rw [Nat.add_sub_cancel, List.take_succ_eq_append_getElem hmem,
      List.append_cancel_left_eq, List.singleton_inj, or_iff_right hfull, or_iff_right hfree,
      List.getElem?_eq_getElem hmem, Option.some.injEq, eq_comm]

/-- A text that just fits: its last byte is lost, and a NUL is in its place. -/
theorem printf_loses_last_byte :
    nBufRoom (nBufInit (fun _ => 0) 4) = 4 ∧ (lit "abcd").length = 4 ∧
      (nBufPrintf (nBufInit (fun _ => 0) 4) (lit "abcd")).data = [97, 98, 99, 0] ∧
      (nBufPrintf (nBufInit (fun _ => 0) 4) (lit "abcd")).data ≠ (lit "abcd").take 4 := by
  decide

theorem printf_prefix_sample :
    (nBufInit (fun _ => 0) 4).Check ∧
      (nBufPrintf (nBufInit (fun _ => 0) 4) (lit "abc")).data = lit "abc" :=
  ⟨check_init _ 4, (printf_prefix_iff (check_init _ 4) [lit "abc"]).2 (by decide)⟩

end Xltop.Buffer
