import Rvanns.Simd.BinarySearch

/-!
# Correctness of the binary searches

In a sorted array they find the first key that is equal to the target, and the first key that is not
less.
-/

namespace Rvanns.Simd

open UInt64 (le_iff_toNat_le lt_iff_toNat_lt)

lemma eq_of_not_lt {a b : UInt64} (hab : ¬ a < b) (hba : ¬ b < a) : a = b := by
  rw [lt_iff_toNat_lt] at hab hba
  exact UInt64.toNat_inj.mp (by omega)

/-! ### The first key that is not less -/

variable {data : ℕ → UInt64} {target : UInt64} {m : ℤ}

lemma castInt_of_lt (h : size < 2 ^ 31) : castInt size = size := by
  rw [castInt, BitVec.toInt_eq_toNat_cond, BitVec.toNat_ofNat]
  split_ifs <;> omega

/-- `r` is the first of the first `m` positions that does not hold less than the target, or -1. -/
def IsFirstGe (data : ℕ → UInt64) (target : UInt64) (m r : ℤ) : Prop :=
  (r = -1 ∧ ∀ s : ℕ, s < m → data s < target) ∨
    ∃ s : ℕ, r = s ∧ s < m ∧ ¬ data s < target ∧ ∀ s' < s, data s' < target

/-- The invariant of the search among the first `m` keys: those before `left` are less than the
target, and `result` is the first one behind `right`, which is not. -/
structure GeInv (data : ℕ → UInt64) (target : UInt64) (m left right result : ℤ) : Prop where
  left_nonneg : 0 ≤ left
  left_le : left ≤ right + 1
  right_lt : right < m
  below : ∀ s : ℕ, s < left → data s < target
  found : (result = -1 ∧ right + 1 = m) ∨
    (result = right + 1 ∧ right + 1 < m ∧ ¬ data (right + 1).toNat < target)

lemma GeInv.isFirstGe (h : GeInv data target m left right result)
    (hlt : right < left) : IsFirstGe data target m result := by
  have hleft := h.left_nonneg
  have hle := h.left_le
  rcases h.found with ⟨hres, hm⟩ | ⟨hres, hm, hge⟩
  · exact .inl ⟨hres, fun s hs => h.below s (by omega)⟩
  · refine .inr ⟨(right + 1).toNat, by omega, by omega, hge, fun s hs => ?_⟩
    exact h.below s (by omega)

lemma binarySearchGeLoop_isFirstGe (hmono : ∀ s s' : ℕ, s ≤ s' → s' < m → ¬ data s' < data s)
    (fuel : ℕ) (left right result : ℤ) (h : GeInv data target m left right result)
    (hfuel : right + 1 - left ≤ fuel) :
    IsFirstGe data target m (binarySearchGeLoop data target fuel left right result) := by
  induction fuel generalizing left right result with
  | zero =>
    exact h.isFirstGe (by omega)
  | succ fuel ih =>
    have hleft := h.left_nonneg
    have hright := h.right_lt
    unfold binarySearchGeLoop
    by_cases hlr : left ≤ right
    · set mid := left + (right - left) / 2 with hmid
      simp only
      split_ifs with hge
      · refine ih left (mid - 1) mid ⟨hleft, by omega, by omega, h.below,
        .inr ⟨by omega, by omega, ?_⟩⟩ (by omega)
        rw [Int.sub_add_cancel]
        rw [le_iff_toNat_le] at hge
        rw [lt_iff_toNat_lt]
        omega
      · refine ih (mid + 1) right result ⟨by omega, by omega, hright, ?_, h.found⟩ (by omega)
        intro s hs
        have := hmono s mid.toNat (by omega) (by omega)
        rw [lt_iff_toNat_lt] at this ⊢
        rw [le_iff_toNat_le] at hge
        omega
    · rw [if_neg hlr]
      exact h.isFirstGe (by omega)

lemma u64BinarySearchGeRef_isFirstGe (hsize : castInt size = size) (target : UInt64)
    (hmono : ∀ s s' : ℕ, s ≤ s' → s' < size → ¬ data s' < data s) :
    IsFirstGe data target size (u64BinarySearchGeRef data size target) := by
  refine binarySearchGeLoop_isFirstGe (fun s s' hs hs' => hmono s s' hs (by omega)) _ _ _ _
    ⟨le_rfl, by omega, by omega, fun s hs => by omega, .inl ⟨rfl, by omega⟩⟩ (by omega)

/-! ### The first key that is equal -/

/-- `r` is the first of the first `m` positions that holds the target, or -1. -/
def IsFirstHit (data : ℕ → UInt64) (target : UInt64) (m r : ℤ) : Prop :=
  (r = -1 ∧ ∀ s : ℕ, s < m → data s ≠ target) ∨
    ∃ s : ℕ, r = s ∧ s < m ∧ data s = target ∧ ∀ s' < s, data s' < target

def hitOf (data : ℕ → UInt64) (target : UInt64) (r : ℤ) : ℤ :=
  if r ≠ -1 ∧ data r.toNat = target then r else -1

/-- Both searches go the same way; one of them keeps only what is equal to the target. -/
lemma binarySearchLoop_eq_hitOf (hmono : ∀ s s' : ℕ, s ≤ s' → s' < m → ¬ data s' < data s)
    (fuel : ℕ) {left right result : ℤ} (hleft : 0 ≤ left) (hright : right < m)
    (hresult : result = -1 ∨ right < result ∧ result < m) :
    binarySearchLoop data target fuel left right (hitOf data target result)
      = hitOf data target (binarySearchGeLoop data target fuel left right result) := by
  induction fuel generalizing left right result with
  | zero => rfl
  | succ fuel ih =>
    unfold binarySearchLoop binarySearchGeLoop
    by_cases hle : left ≤ right
    · rw [if_pos hle, if_pos hle]
      set mid := left + (right - left) / 2 with hmid
      have hnext := ih hleft (show mid - 1 < m by omega) (.inr ⟨sub_one_lt mid, by omega⟩)
      dsimp only
      by_cases hless : data mid.toNat < target
      · rw [if_pos hless, if_neg (UInt64.not_le.mpr hless)]
        exact ih (by omega) hright hresult
      · rw [if_neg hless, if_pos (UInt64.not_lt.mp hless), ← hnext]
        split_ifs with hgreater
        · -- what was found behind `mid` is not less than what is there
          have hold : hitOf data target result = -1 := if_neg fun h => by
            have := hmono mid.toNat result.toNat (by omega) (by omega)
            rw [h.2] at this
            exact this hgreater
          have hnew : hitOf data target mid = -1 :=
            if_neg fun h => UInt64.lt_irrefl _ (h.2 ▸ hgreater)
          rw [hold, hnew]
        · rw [hitOf, if_pos ⟨by omega, eq_of_not_lt hless hgreater⟩]
    · rw [if_neg hle, if_neg hle]

lemma u64BinarySearchEqRef_isFirstHit (hsize : castInt size = size) (target : UInt64)
    (hmono : ∀ s s' : ℕ, s ≤ s' → s' < size → ¬ data s' < data s) :
    IsFirstHit data target size (u64BinarySearchEqRef data size target) := by
  have hsearch : u64BinarySearchEqRef data size target
      = hitOf data target (u64BinarySearchGeRef data size target) :=
    binarySearchLoop_eq_hitOf (m := size) (fun s s' hs hs' => hmono s s' hs (by omega)) _ le_rfl
      (by omega) (.inl rfl)
  rw [hsearch, hitOf]
  obtain ⟨hr, hall⟩ | ⟨s, hr, hs, hge, hbelow⟩ := u64BinarySearchGeRef_isFirstGe hsize target hmono
  · rw [hr, if_neg fun h => h.1 rfl]
    exact .inl ⟨rfl, fun s hs => UInt64.ne_of_lt (hall s hs)⟩
  · rw [hr, Int.toNat_natCast]
    split_ifs with heq
    · exact .inr ⟨s, rfl, hs, heq.2, hbelow⟩
    · refine .inl ⟨rfl, fun s' hs' heq' => ?_⟩
      rcases lt_or_ge s' s with hlt | hle
      · exact UInt64.ne_of_lt (hbelow s' hlt) heq'
      · -- the target would stand before what is greater
        refine heq ⟨by omega, eq_of_not_lt hge ?_⟩
        rw [← heq']
        exact hmono s s' hle (by omega)

end Rvanns.Simd
