import Rvanns.Cpp.Vector
import Rvanns.Knowhere.EmbListOffset

/-!
# When a conversion keeps the offsets of embedding lists

The copy has as many offsets as there are rows, and one more, however many lists are empty.
-/

namespace Rvanns.Knowhere.EmbListSearch

open Cpp List

/-- The offsets of lists of `rows` vectors altogether. -/
structure IsOffsets (rows : ℕ) (lims : List ℕ) : Prop where
  first : lims.head? = some 0
  sorted : lims.Pairwise (· ≤ ·)
  last : lims.getLast? = some rows

variable {rows : ℕ} {lims : List ℕ}

lemma IsOffsets.le (h : IsOffsets rows lims) : ∀ lim ∈ lims, lim ≤ rows := by
  obtain ⟨front, rfl⟩ := getLast?_eq_some_iff.mp h.last
  exact forall_mem_concat.mpr ⟨(pairwise_concat.mp h.sorted).2, le_rfl⟩

lemma embListOffset_copyLims (room : ℕ) (lims : List ℕ) :
    (copyLims rows room lims).bind (embListOffset rows)
      = embListOffset rows (lims.take (room + 1)) := by
  induction lims generalizing room with
  | nil => cases room <;> rfl
  | cons lim lims ih =>
    cases room with
    | zero => rfl
    | succ room =>
      rw [copyLims, take_succ_cons, embListOffset]
      split_ifs with hlt
      · rw [← ih]
        cases copyLims rows room lims with
        | none => rfl
        | some copied => exact if_pos hlt
      · exact if_neg hlt

lemma exists_embListOffset_iff :
    (∃ off, embListOffset rows lims = some off) ↔ ∃ lim ∈ lims, rows ≤ lim := by
  induction lims with
  | nil => simp [embListOffset]
  | cons lim lims ih =>
    rw [embListOffset, exists_mem_cons_iff, ← ih]
    split_ifs with hlt
    · simp [not_le.mpr hlt]
    · simp [not_lt.mp hlt]

lemma embListOffset_append (h : embListOffset rows lims = some off) (rest : List ℕ) :
    embListOffset rows (lims ++ rest) = some off := by
  induction lims generalizing off with
  | nil => simp [embListOffset] at h
  | cons lim lims ih =>
    rw [cons_append, embListOffset] at *
    split_ifs at * with hlt
    · obtain ⟨off', hoff', rfl⟩ := Option.map_eq_some_iff.mp h
      rw [ih hoff']
      rfl
    · exact h

/-- **The converted dataset** has the offsets of the source exactly if there are rows and the
offsets reach their number within as many lists. -/
theorem dataTypeConversion_keeps_iff (h : IsOffsets rows lims) :
    (∃ off lims', embListOffset rows lims = some off
      ∧ dataTypeConversion rows lims = some (some lims') ∧ embListOffset rows lims' = some off)
      ↔ 0 < rows ∧ rows ∈ lims.take (rows + 1) := by
  have hcopy : _ = embListOffset rows _ := embListOffset_copyLims rows lims
  unfold dataTypeConversion
  constructor
  · rintro ⟨off, lims', -, hconv, hoff⟩
    split_ifs at hconv with hzero
    · cases hconv
    obtain ⟨_, hlims, ⟨⟩⟩ := Option.map_eq_some_iff.mp hconv
    rw [hlims, Option.bind_some, hoff] at hcopy
    obtain ⟨lim, hlim, hge⟩ := exists_embListOffset_iff.mp ⟨off, hcopy.symm⟩
    obtain rfl := le_antisymm (h.le lim (mem_of_mem_take hlim)) hge
    exact ⟨by omega, hlim⟩
  · rintro ⟨hpos, hmem⟩
    obtain ⟨off, hoff⟩ := exists_embListOffset_iff.mpr ⟨rows, hmem, le_rfl⟩
    obtain ⟨lims', hlims, hoff'⟩ := Option.bind_eq_some_iff.mp (hcopy.trans hoff)
    refine ⟨off, lims', ?_, by rw [if_neg hpos.ne', hlims]; rfl, hoff'⟩
    rw [← take_append_drop (rows + 1) lims]
    exact embListOffset_append hoff _

/-- Two lists with an empty one between them. -/
theorem dataTypeConversion_keeps_twoLists :
    ∃ off lims', embListOffset 3 [0, 1, 1, 3] = some off
      ∧ dataTypeConversion 3 [0, 1, 1, 3] = some (some lims') ∧ embListOffset 3 lims' = some off :=
  (dataTypeConversion_keeps_iff ⟨rfl, by decide, rfl⟩).mpr (by decide)

/-- One row after two empty lists: only the first two offsets are copied, and the copy is read past
its end. -/
theorem dataTypeConversion_emptyLists : embListOffset 1 [0, 0, 0, 1] = some [0, 0, 0, 1] ∧
    dataTypeConversion 1 [0, 0, 0, 1] = some (some [0, 0]) ∧ embListOffset 1 [0, 0] = none := by
  decide

end Rvanns.Knowhere.EmbListSearch
