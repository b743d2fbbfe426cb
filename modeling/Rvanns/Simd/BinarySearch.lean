import Mathlib

/-!
# Binary search

The searches of `distances_ref.cc` in a sorted array of 64-bit keys.
-/

namespace Rvanns.Simd

/-- `static_cast<int>`. -/
def castInt (size : ℕ) : ℤ := (BitVec.ofNat 32 size).toInt

def binarySearchLoop (data : ℕ → UInt64) (target : UInt64) : ℕ → ℤ → ℤ → ℤ → ℤ
  | 0, _, _, result => result
  | fuel + 1, left, right, result =>
    if left ≤ right then
      let mid := left + (right - left) / 2
      if data mid.toNat < target then binarySearchLoop data target fuel (mid + 1) right result
      else if target < data mid.toNat then
        binarySearchLoop data target fuel left (mid - 1) result
      else binarySearchLoop data target fuel left (mid - 1) mid
    else result

def u64BinarySearchEqRef (data : ℕ → UInt64) (size : ℕ) (target : UInt64) : ℤ :=
  binarySearchLoop data target (castInt size).toNat 0 (castInt size - 1) (-1)

/-! ### The first key that is not less -/

def binarySearchGeLoop (data : ℕ → UInt64) (target : UInt64) : ℕ → ℤ → ℤ → ℤ → ℤ
  | 0, _, _, result => result
  | fuel + 1, left, right, result =>
    if left ≤ right then
      let mid := left + (right - left) / 2
      if target ≤ data mid.toNat then binarySearchGeLoop data target fuel left (mid - 1) mid
      else binarySearchGeLoop data target fuel (mid + 1) right result
    else result

def u64BinarySearchGeRef (data : ℕ → UInt64) (size : ℕ) (target : UInt64) : ℤ :=
  binarySearchGeLoop data target (castInt size).toNat 0 (castInt size - 1) (-1)

end Rvanns.Simd
