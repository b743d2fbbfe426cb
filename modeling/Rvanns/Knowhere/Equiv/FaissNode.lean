import Rvanns.Knowhere.FaissNode

/-!
# What the id tables say

In a node whose tables fit its rows, subtracting the base of an index from the offset of a label
gives the place of the row in this index, and for the rows of another index a place behind its end.
-/

namespace Rvanns.Knowhere

open Cpp List

namespace FaissNode

variable {I : Type*} {node : FaissNode I} {n : ℕ} {parts : List (List ℕ)}

lemma Tables.numbering_flatten (ht : node.Tables n parts) : IsNumbering parts.flatten n := by
  cases ht with
  | plain => simp [IsNumbering]
  | mapped _ _ _ numbering => exact numbering

lemma Tables.lt_of_mem (ht : node.Tables n parts) {p : ℕ} {part : List ℕ}
    (hp : parts[p]? = some part) {l : ℕ} (hl : l ∈ part) : l < n :=
  ht.numbering_flatten.mem_iff.mp (mem_flatten.mpr ⟨part, mem_of_getElem? hp, hl⟩)

lemma Tables.ne_nil (ht : node.Tables n parts) : parts ≠ [] := by
  cases ht with
  | plain => simp
  | mapped nonempty => exact nonempty

private lemma idxOf_range (hl : l < n) : (range n).idxOf l = l := by
  have hidx := nodup_range.idxOf_getElem l (by simpa using hl : l < (range n).length)
  rwa [getElem_range] at hidx

/-- The offset of a label, read through the tables of a renumbered node. -/
private lemma internalId_mapped (hrows : node.indexRowsSum = rowOffsets parts)
    (hoff : node.labelToInternalOffset = (range n).map parts.flatten.idxOf)
    (hp : p < parts.length) (hl : l < n) :
    node.internalId p l = some ((parts.flatten.idxOf l + 2 ^ 32 - rowOffset parts p) % 2 ^ 32) := by
  have hne : node.labelToInternalOffset.isEmpty = false := by
    rw [hoff]
    simpa using (show n ≠ 0 by omega)
  have hget : node.labelToInternalOffset[l]? = some (parts.flatten.idxOf l) := by
    rw [hoff, getElem?_range_map hl]
  simp only [internalId, hne, Bool.false_eq_true, if_false, hget, hrows,
    getElem?_rowOffsets hp.le, some_bind]
  rfl

/-- **A row of the index**: the internal id is the place of the row. -/
lemma Tables.internalId_of_mem (ht : node.Tables n parts) {p : ℕ} {part : List ℕ}
    (hp : parts[p]? = some part) {l : ℕ} (hl : l ∈ part) :
    node.internalId p l = some (part.idxOf l) := by
  have hln := ht.lt_of_mem hp hl
  cases ht with
  | plain _ _ offsets =>
    obtain ⟨-, rfl⟩ : p = 0 ∧ part = range n := by
      cases p with
      | zero => simpa [eq_comm] using hp
      | succ p => simp at hp
    rw [internalId, offsets, isEmpty_nil, if_pos rfl, idxOf_range hln]
  | mapped _ _ rowsSum numbering offsets small =>
    have hlt := idxOf_lt_length_of_mem hl
    have hend := rowOffset_add_le hp
    rw [numbering.length] at hend
    have hpl : p < parts.length := lt_length hp
    rw [internalId_mapped rowsSum offsets hpl hln, idxOf_flatten numbering.nodup hp hl]
    congr 1
    omega

/-- **A row of another index**: the internal id lies behind the end of the index. -/
lemma Tables.internalId_of_not_mem (ht : node.Tables n parts)
    (hp : parts[p]? = some part) (hln : l < n) (hl : l ∉ part) :
    ∃ id, node.internalId p l = some id ∧ part.length ≤ id := by
  cases ht with
  | plain _ _ offsets =>
    obtain ⟨-, rfl⟩ : p = 0 ∧ part = range n := by
      cases p with
      | zero => simpa [eq_comm] using hp
      | succ p => simp at hp
    exact absurd (mem_range.mpr hln) hl
  | mapped _ _ rowsSum numbering offsets small =>
    have hpl : p < parts.length := lt_length hp
    refine ⟨_, internalId_mapped rowsSum offsets hpl hln, ?_⟩
    have hend := rowOffset_add_le hp
    have hidx := numbering.idxOf_lt hln
    rw [numbering.length] at hend
    -- the place is not one of those of the row, on either side
    have hout : ¬ (rowOffset parts p ≤ parts.flatten.idxOf l
        ∧ parts.flatten.idxOf l < rowOffset parts p + part.length) := by
      rintro ⟨hge, hlt⟩
      apply hl
      apply mem_of_idxOf_flatten hp (i := parts.flatten.idxOf l - rowOffset parts p) (by omega)
        (numbering.mem_iff.mpr hln)
      omega
    omega

lemma externalId_of_neg {table : List ℕ} {id : ℤ} (h : id < 0) : externalId table id = some id :=
  if_pos h

lemma externalId_natCast {table : List ℕ} (h : i < table.length) :
    externalId table i = some ((table.getD i 0 : ℕ) : ℤ) := by
  rw [externalId, Int.toNat_natCast, getElem?_eq_getD h]
  rfl

lemma checkIndexes_eq_ok {isTrained : I → Bool} {indexes : List (Option I)}
    (hall : ∀ index ∈ indexes, ∃ i, index = some i ∧ isTrained i = true) :
    checkIndexes isTrained indexes = .ok () := by
  induction indexes with
  | nil => rfl
  | cons index rest ih =>
    obtain ⟨i, rfl, hi⟩ := hall index mem_cons_self
    rw [checkIndexes, if_pos hi]
    exact ih fun index hindex => hall index (mem_cons_of_mem _ hindex)

lemma checkLoaded_eq_ok (hne : node.indexes ≠ [])
    (hall : ∀ index ∈ node.indexes, ∃ i, index = some i ∧ isTrained i = true) :
    node.checkLoaded isTrained = .ok () := by
  rw [checkLoaded, if_neg (by simpa using hne)]
  exact checkIndexes_eq_ok hall

end FaissNode

end Rvanns.Knowhere
