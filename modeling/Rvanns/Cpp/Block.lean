import Mathlib

/-!
# Output blocks

An output buffer seen from the pointer a caller hands over.
-/

namespace Rvanns.Cpp

open List Function

variable {β : Type*}

variable (buf : ℕ → Option β)

def writeBlock (p : ℕ) (vs : List β) : ℕ → Option β :=
  fun s => if p ≤ s ∧ s < p + vs.length then vs[s - p]? else buf s

def writeBlocks (buf : ℕ → Option β) (stride : ℕ) (block : ℕ → List β) : ℕ → ℕ → Option β
  | 0 => buf
  | n + 1 => writeBlock (writeBlocks buf stride block n) (n * stride) (block n)

def HoldsBlocks (k : ℕ) (block : ℕ → List β) (n : ℕ) : Prop :=
  ∀ s, buf s = if s < n * k then (block (s / k))[s % k]? else none

lemma writeBlock_inside {buf : ℕ → Option β} (hp : p ≤ s)
    (hs : s < p + vs.length) : writeBlock buf p vs s = vs[s - p]? :=
  if_pos ⟨hp, hs⟩

lemma writeBlock_outside {buf : ℕ → Option β}
    (h : s < p ∨ p + vs.length ≤ s) : writeBlock buf p vs s = buf s :=
  if_neg (by omega)

@[simp] lemma writeBlock_nil (p : ℕ) : writeBlock buf p [] = buf := by
  funext s
  exact writeBlock_outside (by simp only [length_nil]; omega)

lemma update_writeBlock (p : ℕ) (vs : List β) (v : β) :
    update (writeBlock buf p vs) (p + vs.length) (some v) = writeBlock buf p (vs ++ [v]) := by
  funext s
  by_cases hs : s = p + vs.length
  · subst hs
    rw [writeBlock_inside (by omega) (by simp)]
    simp
  · rw [update_of_ne hs]
    unfold writeBlock
    rw [length_append, length_singleton]
    split_ifs with h1 h2 h2
    · rw [getElem?_append_left (by omega)]
    · omega
    · omega
    · rfl

lemma update_writeBlock_pred (p : ℕ) (vs : List β) (v : β) :
    update (writeBlock buf (p + 1) vs) p (some v) = writeBlock buf p (v :: vs) := by
  funext s
  by_cases hs : s = p
  · subst hs
    rw [writeBlock_inside (Nat.le_refl s) (by simp)]
    simp
  · rw [update_of_ne hs]
    unfold writeBlock
    rw [length_cons]
    split_ifs with h1 h2 h2
    · rw [show s - p = s - (p + 1) + 1 by omega, getElem?_cons_succ]
    · omega
    · omega
    · rfl

lemma writeBlocks_isSome_iff {block : ℕ → List β}
    (hblock : ∀ i, (block i).length = k) (stride n s : ℕ) :
    (writeBlocks (fun _ => none) stride block n s).isSome ↔
      ∃ i < n, i * stride ≤ s ∧ s < i * stride + k := by
  induction n with
  | zero => simp [writeBlocks]
  | succ n ih =>
    rw [writeBlocks]
    by_cases hs : n * stride ≤ s ∧ s < n * stride + k
    · have hlast : ∃ i < n + 1, i * stride ≤ s ∧ s < i * stride + k := ⟨n, by omega, hs⟩
      rw [writeBlock_inside hs.1 (by rw [hblock]; exact hs.2)]
      have hlen : s - n * stride < (block n).length := by rw [hblock]; omega
      exact iff_of_true (by simp [hlen]) hlast
    · rw [writeBlock_outside (by rw [hblock]; omega), ih]
      constructor
      · rintro ⟨i, hi, h⟩
        exact ⟨i, by omega, h⟩
      · rintro ⟨i, hi, h⟩
        have hne : i ≠ n := by
          rintro rfl
          exact hs h
        exact ⟨i, by omega, h⟩

lemma writeBlocks_holdsBlocks {block : ℕ → List β} (hblock : ∀ i, (block i).length = k) (n : ℕ) :
    HoldsBlocks (writeBlocks (fun _ => none) k block n) k block n := by
  induction n with
  | zero => intro s; simp [writeBlocks]
  | succ n ih =>
    intro s
    rw [writeBlocks, Nat.add_one_mul]
    by_cases hs : n * k ≤ s ∧ s < n * k + k
    · have hk : 0 < k := by omega
      have hdiv : s / k = n := by
        rw [Nat.div_eq_iff hk]
        omega
      have hmod : s % k = s - n * k := by
        have := Nat.div_add_mod s k
        rw [hdiv, mul_comm] at this
        omega
      rw [writeBlock_inside hs.1 (by rw [hblock]; exact hs.2), if_pos hs.2, hdiv, hmod]
    · rw [writeBlock_outside (by rw [hblock]; omega), ih s]
      have hiff : s < n * k ↔ s < n * k + k := by omega
      simp only [hiff]

/-- **Which strides work**: `n` blocks of `k > 0` values written at a stride `d` end up side by
side exactly when there is at most one block or the stride is the block size.  With a smaller
stride the last slot is never reached, with a larger one the last block leaves the area. -/
theorem writeBlocks_holdsBlocks_iff {block : ℕ → List β} (hk : 0 < k)
    (hblock : ∀ i, (block i).length = k) (n : ℕ) :
    HoldsBlocks (writeBlocks (fun _ => none) d block n) k block n ↔ n ≤ 1 ∨ d = k := by
  constructor
  · intro h
    by_contra hne
    rw [not_or] at hne
    obtain ⟨m, rfl⟩ : ∃ m, n = m + 2 := ⟨n - 2, by omega⟩
    have hmul : (m + 2) * k = (m + 1) * k + k := by ring
    rcases Nat.lt_or_gt_of_ne hne.2 with hdk | hdk
    · -- The last slot of the area has to be written, but no block reaches it.
      have hslot := h ((m + 2) * k - 1)
      rw [if_pos (by omega)] at hslot
      have hsome : (writeBlocks (fun _ => none) d block (m + 2) ((m + 2) * k - 1)).isSome := by
        have hlt : ((m + 2) * k - 1) % k < (block (((m + 2) * k - 1) / k)).length := by
          rw [hblock]; exact Nat.mod_lt _ hk
        rw [hslot, getElem?_eq_getElem hlt]
        rfl
      obtain ⟨i, hi, -, hup⟩ := (writeBlocks_isSome_iff hblock _ _ _).mp hsome
      have hle : i * d ≤ (m + 1) * d := Nat.mul_le_mul_right d (by omega)
      have hlt : (m + 1) * d + (m + 1) ≤ (m + 1) * k := by exact Nat.mul_le_mul_left _ hdk
      omega
    · -- The last slot of the last block is written, but lies outside the area.
      have hslot := h ((m + 1) * d + (k - 1))
      have hge : (m + 1) * k + (m + 1) ≤ (m + 1) * d := by exact Nat.mul_le_mul_left _ hdk
      rw [if_neg (by omega)] at hslot
      have hsome := (writeBlocks_isSome_iff hblock d (m + 2) ((m + 1) * d + (k - 1))).mpr
        ⟨m + 1, by omega, by omega, by omega⟩
      rw [hslot] at hsome
      exact Bool.false_ne_true hsome
  · rintro (hn | rfl)
    · -- The only block starts at slot 0, whatever the stride.
      have heq : writeBlocks (fun _ => none) d block n = writeBlocks (fun _ => none) k block n := by
        rcases Nat.le_one_iff_eq_zero_or_eq_one.mp hn with rfl | rfl
        · rfl
        · simp [writeBlocks]
      rw [heq]
      exact writeBlocks_holdsBlocks hblock n
    · exact writeBlocks_holdsBlocks hblock n

end Rvanns.Cpp
