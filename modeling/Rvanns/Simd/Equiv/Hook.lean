import Rvanns.Simd.Equiv.DistancesAvx512
import Rvanns.Simd.Hook

/-!
# What the chosen functions have in common

On every processor the search in a sorted array finds the key if it is there; where it finds one of
several equal keys depends on the processor, on the size of the array and on the positions of these
keys (`FindsAt`).
-/

namespace Rvanns.Simd

/-- The key stands at the positions from `lo` to `hi` of a sorted array of `n` keys, and the search
finds it at `s`. -/
def FindsAt (simd : SimdType) (n lo hi s : ℕ) : Prop :=
  if simd = .avx512 ∧ 32 < n then StopsAt n lo hi s (0, n - 1) else s = lo

variable {arr : ℕ → UInt64} {n : ℕ} {key : UInt64} (simd : SimdType)

lemma u64BinarySearchEq_of_ne (h : ¬ (simd = .avx512 ∧ 32 < n)) (hn : n < 2 ^ 31)
    (hmono : ∀ s s' : ℕ, s ≤ s' → s' < n → arr s ≤ arr s') :
    u64BinarySearchEq simd arr n key = firstIndex arr n key := by
  by_cases hsimd : simd = .avx512
  · rw [hsimd]
    exact avx512_of_small (by grind) key
  · rw [← u64BinarySearchEqRef_eq_firstIndex key hn hmono]
    cases simd <;> first | rfl | exact absurd rfl hsimd

lemma u64BinarySearchEq_of_absent (hn : n < 2 ^ 31)
    (hmono : ∀ s s' : ℕ, s ≤ s' → s' < n → arr s ≤ arr s') (habsent : ∀ s < n, arr s ≠ key) :
    u64BinarySearchEq simd arr n key = -1 := by
  by_cases h : simd = .avx512 ∧ 32 < n
  · rw [h.1]
    exact avx512_of_absent habsent
  · rw [u64BinarySearchEq_of_ne simd h hn hmono, firstIndex_of_absent habsent]

lemma Run.u64BinarySearchEq_eq_iff (h : Run arr n key lo hi) (hn : n < 2 ^ 31)
    (hmono : ∀ s s' : ℕ, s ≤ s' → s' < n → arr s ≤ arr s') (s : ℕ) :
    u64BinarySearchEq simd arr n key = s ↔ FindsAt simd n lo hi s := by
  unfold FindsAt
  split_ifs with hsimd
  · rw [hsimd.1]
    exact h.avx512_eq_iff hn hsimd.2 s
  · rw [u64BinarySearchEq_of_ne simd hsimd hn hmono, h.firstIndex_eq, Nat.cast_inj, eq_comm]

lemma Run.exists_findsAt (h : Run arr n key lo hi) (hn : n < 2 ^ 31)
    (hmono : ∀ s s' : ℕ, s ≤ s' → s' < n → arr s ≤ arr s') :
    ∃ s < n, u64BinarySearchEq simd arr n key = s := by
  have hlt := h.nonempty
  have hle := h.le_size
  by_cases hsimd : simd = .avx512 ∧ 32 < n
  · have hbounds := ((h.avx512_eq_iff hn hsimd.2 _).mp rfl).bounds (by exact_mod_cast hlt)
    obtain ⟨s, hs⟩ := Int.eq_ofNat_of_zero_le (show 0 ≤ u64BinarySearchEqAvx512 arr n key by omega)
    rw [hsimd.1]
    exact ⟨s, by omega, hs⟩
  · refine ⟨lo, by omega, ?_⟩
    rw [u64BinarySearchEq_of_ne simd hsimd hn hmono, h.firstIndex_eq]

end Rvanns.Simd
