import Rvanns.Cpp.Vector
import Rvanns.Simd.BinarySearch

/-!
# Binary search with AVX-512

`u64_binary_search_eq_avx512` and `u64_binary_search_ge_avx512` of `distances_avx512.cc`.
-/

namespace Rvanns.Simd

open Cpp

variable (arr : ℕ → UInt64) (size : ℕ) (key : UInt64)

def eqLane (start : ℕ) : Option ℕ := (List.range 8).find? fun t => arr (start + t) = key

def scanSmall : ℤ :=
  match (List.range (size / 8)).findSome? fun c => (eqLane arr key (8 * c)).map (8 * c + ·) with
  | some i => castInt i
  | none =>
    match (List.range' (size / 8 * 8) (size - size / 8 * 8)).find? fun i => arr i = key with
    | some i => castInt i
    | none => -1

def bisect : ℕ → ℤ → ℤ → ℤ
  | 0, _, _ => -1
  | fuel + 1, left, right =>
    if left ≤ right then
      let mid := left + (right - left) / 2
      if arr mid.toNat = key then castInt mid.toNat
      else if arr mid.toNat < key then bisect fuel (mid + 1) right
      else bisect fuel left (mid - 1)
    else -1

def chunkStart (left right : ℤ) : ℤ :=
  let mid := left + (right - left) / 2
  max left (mid - 4) / 8 * 8

def bisectChunks : ℕ → ℤ → ℤ → ℤ
  | 0, _, _ => -1
  | fuel + 1, left, right =>
    if 16 ≤ right - left + 1 then
      let mid := left + (right - left) / 2
      let start := chunkStart left right
      if start + 8 ≤ size ∧ start + 7 ≤ right then
        match eqLane arr key start.toNat with
        | some t => castInt (start.toNat + t)
        | none =>
          if arr (start.toNat + 4) < key then bisectChunks fuel (start + 8) right
          else bisectChunks fuel left (start - 1)
      else if arr mid.toNat = key then castInt mid.toNat
      else if arr mid.toNat < key then bisectChunks fuel (mid + 1) right
      else bisectChunks fuel left (mid - 1)
    else bisect arr key (fuel + 1) left right

def u64BinarySearchEqAvx512 : ℤ :=
  if size = 0 then -1
  else if size ≤ 32 then scanSmall arr size key
  else if 128 < size then bisectChunks arr size key size 0 (size - 1)
  else bisect arr key size 0 (size - 1)

/-! ### The first key that is not less -/

section Ge

variable (keys : List UInt64) (target : UInt64)

def bisectGe : ℕ → ℤ → ℤ → ℤ → Option ℤ
  | 0, _, _, _ => none
  | fuel + 1, left, right, result =>
    if left ≤ right then do
      let mid := left + (right - left) / 2
      if target ≤ (← rd keys mid) then bisectGe fuel left (mid - 1) mid
      else bisectGe fuel (mid + 1) right result
    else some result

def alignedMid (size left right : ℤ) : ℤ :=
  let mid := left + (right - left) / 2
  let aligned := mid / 8 * 8
  let aligned := if size ≤ aligned + 7 then size - 8 else aligned
  if aligned < left then left else aligned

def geMask (start : ℤ) : Option Bool := do
  return (← (List.range 8).mapM fun t : ℕ => rd keys (start + t)).any (target ≤ ·)

def bisectGeChunks (size : ℤ) : ℕ → ℤ → ℤ → ℤ → Option ℤ
  | 0, _, _, _ => none
  | fuel + 1, left, right, result =>
    if 32 ≤ right - left + 1 then do
      let mid := left + (right - left) / 2
      let aligned := alignedMid size left right
      if aligned + 8 ≤ size then
        if ← geMask keys target aligned then bisectGeChunks size fuel left (aligned + 7) result
        else bisectGeChunks size fuel (aligned + 8) right result
      else if target ≤ (← rd keys mid) then bisectGeChunks size fuel left (mid - 1) mid
      else bisectGeChunks size fuel (mid + 1) right result
    else bisectGe keys target (fuel + 1) left right result

/-- `none` if it reads outside of the array. -/
def u64BinarySearchGeAvx512 : Option ℤ :=
  if keys.length = 0 then some (-1)
  else bisectGeChunks keys target (castInt keys.length) (keys.length + 1) 0
    (castInt keys.length - 1) (-1)

end Ge

end Rvanns.Simd
