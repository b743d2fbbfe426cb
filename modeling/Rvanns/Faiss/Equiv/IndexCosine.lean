import Rvanns.Faiss.IndexCosine

/-!
# Inverse norms and cosine distance computers

The computers of the four cosine storages agree, and two inverse norms cancel exactly when the
squares of the norms do.
-/

namespace Rvanns.Faiss

open Cpp

section Norms

variable {F : Type*} [Field F] [LinearOrder F] [IsStrictOrderedRing F] {sqrtf : F → F}

lemma fvecNormL2sqr_nonneg (x : List F) : 0 ≤ fvecNormL2sqr x := by
  unfold fvecNormL2sqr fvecInnerProduct
  induction x with
  | nil => simp
  | cons a x ih => exact add_nonneg (mul_self_nonneg a) ih

/-- The zero test of the query and that of the storage agree. -/
lemma inverseQueryNorm_eq (x : List F) : inverseQueryNorm sqrtf x = inverseL2Norm sqrtf x := by
  unfold inverseQueryNorm inverseL2Norm
  have hiff : fvecNormL2sqr x ≤ 0 ↔ fvecNormL2sqr x = 0 :=
    ⟨fun h => le_antisymm h (fvecNormL2sqr_nonneg x), le_of_eq⟩
  simp only [hiff]

lemma inverseL2Norm_spec (hs : IsSqrt sqrtf) (x : List F) :
    ∃ s, 0 < s ∧ s * s = countedNormSqr x ∧ inverseL2Norm sqrtf x = 1 / s := by
  unfold inverseL2Norm countedNormSqr
  split_ifs with h
  · exact ⟨1, one_pos, by simp, by simp⟩
  · have hpos : 0 < fvecNormL2sqr x := lt_of_le_of_ne (fvecNormL2sqr_nonneg x) (.symm h)
    exact ⟨_, hs.pos hpos, hs.mul_self hpos, rfl⟩

/-- **When two inverse norms cancel.** -/
lemma inverseNorms_mul_eq_one_iff (hs : IsSqrt sqrtf) (x q : List F) :
    inverseL2Norm sqrtf x * inverseQueryNorm sqrtf q = 1
      ↔ countedNormSqr x * countedNormSqr q = 1 := by
  obtain ⟨s, hs0, hss, hx⟩ := inverseL2Norm_spec hs x
  obtain ⟨t, ht0, htt, hq⟩ := inverseL2Norm_spec hs q
  have hinv : 1 / s * (1 / t) = 1 ↔ s * t = 1 := by
    rw [div_mul_div_comm, one_mul, div_eq_one_iff_eq (mul_pos hs0 ht0).ne', eq_comm]
  rw [inverseQueryNorm_eq, hx, hq, hinv, ← hss, ← htt, mul_mul_mul_comm]
  constructor
  · intro h
    rw [h, one_mul]
  · intro h
    rcases mul_self_eq_one_iff.mp h with h | h
    · exact h
    · have := mul_pos hs0 ht0
      rw [h] at this
      exact absurd this (by simp)

end Norms

variable {F : Type*} [Field F] [LinearOrder F] (sqrtf : F → F)

/-- **All four storages compute the same**: inner product times inverse norms. -/
lemma CosineStorage.getDistanceComputer_eq (st : CosineStorage F) (q : List F) (i : ℕ) :
    st.getDistanceComputer sqrtf q i = (do
      let y ← st.vectors[i]?
      let inverseNorm ← st.inverseL2Norms[i]?
      return fvecInnerProduct q y * (inverseNorm * inverseQueryNorm sqrtf q)) := by
  have hflat : flatCosineDis sqrtf st.vectors st.inverseL2Norms q i = (do
      let y ← st.vectors[i]?
      let inverseNorm ← st.inverseL2Norms[i]?
      return fvecInnerProduct q y * (inverseNorm * inverseQueryNorm sqrtf q)) := by
    simp only [flatCosineDis, mul_assoc]
  have hquant : withCosineNorm sqrtf st.inverseL2Norms (innerProductDis st.vectors) q i = (do
      let y ← st.vectors[i]?
      let inverseNorm ← st.inverseL2Norms[i]?
      return fvecInnerProduct q y * (inverseNorm * inverseQueryNorm sqrtf q)) := by
    cases hv : st.vectors[i]? <;> simp [withCosineNorm, innerProductDis, hv]
  unfold CosineStorage.getDistanceComputer
  cases st.kind with
  | flat => exact hflat
  | scalarQuantizer => exact hquant
  | productQuantizer => exact hquant
  | productResidualQuantizer => exact hquant

end Rvanns.Faiss
