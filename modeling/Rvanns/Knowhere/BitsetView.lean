import Mathlib

/-!
# The filter bitset

`BitsetView` of `bitsetview.h`: a set bit filters its row out.
-/

namespace Rvanns.Knowhere

structure BitsetView where
  bits : ℕ → UInt8
  numBits : ℕ
  numFilteredOutBits : ℕ := 0
  idOffset : ℕ := 0
  outIds : Option (ℕ → ℕ) := none
  numInternalIds : ℕ := 0
  numFilteredOutIds : ℕ := 0

namespace BitsetView

variable (b : BitsetView)

def empty : Bool := b.numBits == 0

def size : ℕ :=
  if b.outIds.isSome then b.numInternalIds else b.numBits

def count : ℕ :=
  if b.outIds.isSome then b.numFilteredOutIds else b.numFilteredOutBits

/-- The bit of a caller's id.  Ids beyond the bits count as filtered out. -/
def testBit (outId : ℕ) : Bool :=
  decide (b.numBits ≤ outId) || (b.bits (outId >>> 3)).toNat.testBit (outId &&& 7)

def test (index : ℕ) : Bool :=
  let outId := index + b.idOffset
  match b.outIds with
  | none => b.testBit outId
  | some outIds => b.testBit (outIds outId)

/-- `get_filtered_out_num_` of a bitset with an id map. -/
def getFilteredOutNum : ℕ :=
  if b.empty then 0 else (List.range b.numInternalIds).countP b.test

def setOutIds (outIds : ℕ → ℕ) (numInternalIds : ℕ) (numFilteredOutIds : ℕ := 0) : BitsetView :=
  let b' := { b with outIds := some outIds, numInternalIds := numInternalIds }
  if 0 < numFilteredOutIds then { b' with numFilteredOutIds := numFilteredOutIds }
  else { b' with numFilteredOutIds := b'.getFilteredOutNum }

/-- `__builtin_ctz` of a value of `width` bits that is not zero. -/
def ctz (width value : ℕ) : ℕ := ((List.range width).find? value.testBit).getD width

def firstClear (width first : ℕ) : Option ℕ :=
  let word := ((List.range width).map fun j => (b.bits (first + j)).toNat <<< (8 * j)).sum
  let value := 2 ^ (8 * width) - 1 - word
  if value = 0 then none else some (8 * first + ctz (8 * width) value)

def getFirstValidIndex : ℕ :=
  if b.outIds.isSome then
    ((List.range b.numInternalIds).find? fun i => !b.test i).getD b.numInternalIds
  else
    let lenUint8 := (b.numBits + 8 - 1) >>> 3
    let lenUint64 := lenUint8 >>> 3
    match (List.range lenUint64).findSome? fun i => b.firstClear 8 (8 * i) with
    | some i => i
    | none =>
      let rest := List.range (lenUint8 - lenUint64 <<< 3)
      (rest.findSome? fun i => b.firstClear 1 (lenUint64 <<< 3 + i)).getD b.numBits

def setIdOffset (idOffset : ℕ) : BitsetView := { b with idOffset := idOffset }

end BitsetView

end Rvanns.Knowhere
