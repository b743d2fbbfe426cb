import Mathlib

/-!
# Numbers in 16 and 32 bits

Exact arithmetic needs to know of a floating-point pattern only which number it stands for.
-/

namespace Rvanns.Cpp

structure FloatFormat (K : Type) [Zero K] [One K] where
  ofFloat : BitVec 32 → K
  ofHalf : BitVec 16 → K
  ofFloat_zero : ofFloat 0#32 = 0
  ofFloat_one : ofFloat 0x3F800000#32 = 1
  ofHalf_zero : ofHalf 0#16 = 0
  ofHalf_one : ofHalf 0x3C00#16 = 1

def FloatFormat.ofBf16 {K : Type} [Zero K] [One K] (F : FloatFormat K) (w : BitVec 16) : K :=
  F.ofFloat (w.setWidth 32 <<< 16)

lemma FloatFormat.ofBf16_zero {K : Type} [Zero K] [One K] (F : FloatFormat K) :
    F.ofBf16 0#16 = 0 := F.ofFloat_zero

lemma FloatFormat.ofBf16_one {K : Type} [Zero K] [One K] (F : FloatFormat K) :
    F.ofBf16 0x3F80#16 = 1 := F.ofFloat_one

def ieeeNumber (e m sgn ex man : ℕ) : ℚ :=
  let bias : ℤ := 2 ^ (e - 1) - 1
  let magnitude : ℚ :=
    if ex = 0 then man * 2 ^ (1 - bias - m) else (2 ^ m + man) * 2 ^ ((ex : ℤ) - bias - m)
  if sgn = 0 then magnitude else -magnitude

def ieeeValue (e m w : ℕ) : ℚ :=
  ieeeNumber e m (w / 2 ^ (m + e) % 2) (w / 2 ^ m % 2 ^ e) (w % 2 ^ m)

def FloatFormat.ieee : FloatFormat ℚ where
  ofFloat w := ieeeValue 8 23 w.toNat
  ofHalf w := ieeeValue 5 10 w.toNat
  ofFloat_zero := by norm_num [ieeeValue, ieeeNumber]
  ofFloat_one := by norm_num [ieeeValue, ieeeNumber]
  ofHalf_zero := by norm_num [ieeeValue, ieeeNumber]
  ofHalf_one := by norm_num [ieeeValue, ieeeNumber]

/-- Numbers are also stored, in 32 or 16 bits, and are rounded then.  Of the rounding only that of
natural numbers matters: one that needs at most 24 bits, not counting zeros at the end, stays what
it is. -/
structure FloatCodec (K : Type) [DivisionRing K] extends FloatFormat K where
  isFinite : BitVec 32 → Bool
  toFloat : K → BitVec 32
  toHalf : K → BitVec 16
  ofSize : ℕ → BitVec 32
  isFinite_zero : isFinite 0#32 = true
  isFinite_one : isFinite 0x3F800000#32 = true
  isFinite_ofSize : ∀ n < 2 ^ 64, isFinite (ofSize n) = true
  ofFloat_ofSize : ∀ n < 2 ^ 64, ofFloat (ofSize n) = n ↔ 2 ^ (n.size - 24) ∣ n

def roundShift (n k : ℕ) : ℕ :=
  let q := n / 2 ^ k
  let r := 2 * (n % 2 ^ k)
  if 2 ^ k < r ∨ r = 2 ^ k ∧ q % 2 = 1 then q + 1 else q

def significand (n : ℕ) : ℕ :=
  if n.size ≤ 24 then n * 2 ^ (24 - n.size) else roundShift n (n.size - 24)

def sizePattern (n : ℕ) : ℕ := if n = 0 then 0 else (n.size + 125) * 2 ^ 23 + significand n

lemma dvd_iff_roundShift_mul : roundShift n k * 2 ^ k = n ↔ 2 ^ k ∣ n := by
  constructor
  · intro h
    exact ⟨_, (mul_comm _ _).trans h |>.symm⟩
  · intro h
    have hround : roundShift n k = n / 2 ^ k := by
      dsimp only [roundShift]
      rw [if_neg (by omega)]
    rw [hround, Nat.div_mul_cancel h]

lemma significand_bounds (hn : n ≠ 0) : 2 ^ 23 ≤ significand n ∧ significand n ≤ 2 ^ 24 := by
  have hlt : n < 2 ^ n.size := Nat.lt_size_self n
  have hge : 2 ^ (n.size - 1) ≤ n := Nat.lt_size.mp (by
    have := Nat.size_pos.mpr (pos_of_ne_zero hn)
    omega)
  have hsize := Nat.size_pos.mpr (pos_of_ne_zero hn)
  rw [significand]
  split
  · rename_i hle
    have h1 : 2 ^ (n.size - 1) * 2 ^ (24 - n.size) = 2 ^ 23 := by
      rw [← pow_add]
      congr 1
      omega
    have h2 : 2 ^ n.size * 2 ^ (24 - n.size) = 2 ^ 24 := by
      rw [← pow_add]
      congr 1
      omega
    exact ⟨h1 ▸ Nat.mul_le_mul_right _ hge, h2 ▸ Nat.mul_le_mul_right _ hlt.le⟩
  · rename_i hgt
    have h1 : 2 ^ 23 * 2 ^ (n.size - 24) = 2 ^ (n.size - 1) := by
      rw [← pow_add]
      congr 1
      omega
    have h2 : 2 ^ 24 * 2 ^ (n.size - 24) = 2 ^ n.size := by
      rw [← pow_add]
      congr 1
      omega
    have hq1 : 2 ^ 23 ≤ n / 2 ^ (n.size - 24) := by
      rw [Nat.le_div_iff_mul_le (Nat.two_pow_pos _), h1]
      exact hge
    have hq2 : n / 2 ^ (n.size - 24) < 2 ^ 24 := by
      rw [Nat.div_lt_iff_lt_mul (Nat.two_pow_pos _), h2]
      exact hlt
    dsimp only [roundShift]
    split <;> omega

lemma ieeeValue_sizePattern (hn : n ≠ 0) (hlt : n < 2 ^ 64) :
    ieeeValue 8 23 (sizePattern n) = significand n * 2 ^ ((n.size : ℤ) - 24) := by
  have hsize : n.size ≤ 64 := Nat.size_le.mpr hlt
  obtain ⟨hlow, hhigh⟩ := significand_bounds hn
  rw [sizePattern, if_neg hn, ieeeValue]
  rcases hhigh.lt_or_eq with hlt' | heq
  · have hman : ((n.size + 125) * 2 ^ 23 + significand n) % 2 ^ 23 = significand n - 2 ^ 23 := by
      omega
    have hex : ((n.size + 125) * 2 ^ 23 + significand n) / 2 ^ 23 % 2 ^ 8 = n.size + 126 := by omega
    have hsgn : ((n.size + 125) * 2 ^ 23 + significand n) / 2 ^ (23 + 8) % 2 = 0 := by omega
    have hsum : (2 : ℚ) ^ 23 + (significand n - 2 ^ 23 : ℕ) = significand n := by
      rw [Nat.cast_sub hlow]
      ring
    have hexp : ((n.size + 126 : ℕ) : ℤ) - (2 ^ (8 - 1) - 1) - (23 : ℕ) = (n.size : ℤ) - 24 := by
      push_cast
      ring
    rw [hman, hex, hsgn, ieeeNumber]
    rw [if_pos rfl, if_neg (by omega), hsum, hexp]
  · have hman : ((n.size + 125) * 2 ^ 23 + significand n) % 2 ^ 23 = 0 := by omega
    have hex : ((n.size + 125) * 2 ^ 23 + significand n) / 2 ^ 23 % 2 ^ 8 = n.size + 127 := by omega
    have hsgn : ((n.size + 125) * 2 ^ 23 + significand n) / 2 ^ (23 + 8) % 2 = 0 := by omega
    have hexp : ((n.size + 127 : ℕ) : ℤ) - (2 ^ (8 - 1) - 1) - (23 : ℕ) = 1 +
      ((n.size : ℤ) - 24) := by
      push_cast
      ring
    rw [hman, hex, hsgn, ieeeNumber]
    rw [if_pos rfl, hexp, zpow_add₀ two_ne_zero, heq]
    push_cast
    ring

lemma significand_mul_eq_iff :
    (significand n : ℚ) * 2 ^ ((n.size : ℤ) - 24) = n ↔ 2 ^ (n.size - 24) ∣ n := by
  by_cases hle : n.size ≤ 24
  · have hzero : n.size - 24 = 0 := by omega
    have hexp : (n.size : ℤ) - 24 = -((24 - n.size : ℕ) : ℤ) := by omega
    rw [significand, if_pos hle, hzero, hexp, zpow_neg, zpow_natCast]
    simp
  · have hexp : (n.size : ℤ) - 24 = ((n.size - 24 : ℕ) : ℤ) := by omega
    rw [significand, if_neg hle, hexp, ← dvd_iff_roundShift_mul]
    exact_mod_cast Iff.rfl

def ieeePattern (e m : ℕ) (q : ℚ) : ℕ :=
  if q = 0 then 0
  else
    let bias : ℤ := 2 ^ (e - 1) - 1
    let ex := max (Int.log 2 |q|) (1 - bias)
    let scaled := |q| / 2 ^ (ex - m)
    let low := ⌊scaled⌋.toNat
    let man := if 1 / 2 < scaled - low ∨ scaled - low = 1 / 2 ∧ low % 2 = 1 then low + 1 else low
    -- numbers that are too large become infinite
    let magnitude := min (((ex + bias - 1) * 2 ^ m).toNat + man) ((2 ^ e - 1) * 2 ^ m)
    if q < 0 then 2 ^ (m + e) + magnitude else magnitude

def FloatCodec.ieee : FloatCodec ℚ where
  toFloatFormat := .ieee
  isFinite w := w.toNat / 2 ^ 23 % 2 ^ 8 ≠ 255
  toFloat q := BitVec.ofNat 32 (ieeePattern 8 23 q)
  toHalf q := BitVec.ofNat 16 (ieeePattern 5 10 q)
  ofSize n := BitVec.ofNat 32 (sizePattern n)
  isFinite_zero := by decide
  isFinite_one := by decide
  isFinite_ofSize n hn := by
    rcases eq_or_ne n 0 with rfl | hn'
    · decide
    · have hsize : n.size ≤ 64 := Nat.size_le.mpr hn
      obtain ⟨hlow, hhigh⟩ := significand_bounds hn'
      rw [BitVec.toNat_ofNat, sizePattern, if_neg hn', decide_eq_true_iff]
      omega
  ofFloat_ofSize n hn := by
    rcases eq_or_ne n 0 with rfl | hn'
    · simp [FloatFormat.ieee, sizePattern, ieeeValue, ieeeNumber]
    · have hsize : n.size ≤ 64 := Nat.size_le.mpr hn
      obtain ⟨hlow, hhigh⟩ := significand_bounds hn'
      have hlt : sizePattern n < 2 ^ 32 := by
        rw [sizePattern, if_neg hn']
        omega
      show ieeeValue 8 23 (BitVec.ofNat 32 (sizePattern n)).toNat = n ↔ _
      rw [BitVec.toNat_ofNat, Nat.mod_eq_of_lt hlt, ieeeValue_sizePattern hn' hn,
        significand_mul_eq_iff]

example : FloatCodec.ieee.toFloat 1 = 0x3F800000#32 ∧ FloatCodec.ieee.toHalf (-3 / 4) = 0xBA00#16
    ∧ FloatCodec.ieee.toFloat (16777217) = 0x4B800000#32 := by
  decide +kernel

/-! ### Operations without laws -/

class FloatOps (S : Type) extends Zero S, One S, Add S, Sub S, Mul S, Div S where
  lt : S → S → Bool
  le : S → S → Bool
  eq : S → S → Bool
  abs : S → S
  /-- The conversion of an unsigned integer. -/
  ofUnsigned : ℕ → S
  /-- The conversion to an unsigned integer that the value fits into. -/
  toUnsigned : S → ℕ

namespace FloatOps

-- a field has these operations of its own
attribute [instance (low)] FloatOps.toZero FloatOps.toOne FloatOps.toAdd FloatOps.toSub
  FloatOps.toMul FloatOps.toDiv

variable {S : Type} [FloatOps S]

def max (a b : S) : S := if lt a b then b else a

section Exact

variable {F : Type} [Field F] [LinearOrder F] [FloorSemiring F]

instance exact : FloatOps F where
  lt a b := decide (a < b)
  le a b := decide (a ≤ b)
  eq a b := decide (a = b)
  abs a := |a|
  ofUnsigned n := n
  toUnsigned a := ⌊a⌋₊

@[simp] lemma lt_exact (a b : F) : lt a b = decide (a < b) := rfl

@[simp] lemma le_exact (a b : F) : le a b = decide (a ≤ b) := rfl

@[simp] lemma eq_exact (a b : F) : eq a b = decide (a = b) := rfl

@[simp] lemma abs_exact (a : F) : FloatOps.abs a = |a| := rfl

@[simp] lemma ofUnsigned_exact (n : ℕ) : (ofUnsigned n : F) = n := rfl

@[simp] lemma toUnsigned_exact (a : F) : toUnsigned a = ⌊a⌋₊ := rfl

@[simp] lemma max_exact (a b : F) : FloatOps.max a b = Max.max a b := by
  unfold FloatOps.max
  rcases lt_or_ge a b with h | h
  · simp [h, max_eq_right h.le]
  · simp [not_lt.mpr h, max_eq_left h]

end Exact

end FloatOps

end Rvanns.Cpp
