import Mathlib

/-!
# Narrowing integers

A conversion to a signed type of fewer bits keeps the low bits.
-/

namespace Rvanns.Cpp

/-- The value of an integer after a conversion to a signed type of `w` bits. -/
def wrapInt (w : ℕ) (z : ℤ) : ℤ := (BitVec.ofInt w z).toInt

lemma wrapInt_eq_bmod (w : ℕ) (z : ℤ) : wrapInt w z = z.bmod (2 ^ w) :=
  BitVec.toInt_ofInt z

lemma wrapInt_32_of_fits (hlo : -2 ^ 31 ≤ z) (hhi : z < 2 ^ 31) : wrapInt 32 z = z := by
  rw [wrapInt_eq_bmod]
  exact Int.bmod_eq_of_le (by omega) (by omega)

lemma wrapInt_64_of_fits (hlo : -2 ^ 63 ≤ z) (hhi : z < 2 ^ 63) : wrapInt 64 z = z := by
  rw [wrapInt_eq_bmod]
  exact Int.bmod_eq_of_le (by omega) (by omega)

lemma wrapInt_64_neg (hlo : 2 ^ 63 ≤ z) (hhi : z < 2 ^ 64) : wrapInt 64 z < 0 := by
  rw [wrapInt_eq_bmod, Int.bmod_def]
  split_ifs <;> omega

lemma wrapInt_32_bounds (z : ℤ) : -2 ^ 31 ≤ wrapInt 32 z ∧ wrapInt 32 z < 2 ^ 31 := by
  have hlo := BitVec.le_toInt (BitVec.ofInt 32 z)
  have hhi := BitVec.toInt_lt (x := BitVec.ofInt 32 z)
  exact ⟨by simpa [wrapInt] using hlo, by simpa [wrapInt] using hhi⟩

/-- The low bits of a number that is not negative, read as a signed number, are not more. -/
lemma wrapInt_32_le (n : ℕ) : wrapInt 32 n ≤ n := by
  rw [wrapInt_eq_bmod, Int.bmod_def]
  split_ifs <;> omega

end Rvanns.Cpp
