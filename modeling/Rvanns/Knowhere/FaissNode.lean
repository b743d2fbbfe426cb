import Rvanns.Cpp.Numbering
import Rvanns.Cpp.Rows
import Rvanns.Knowhere.BitsetView
import Rvanns.Knowhere.Status

/-!
# The id tables of a Faiss node

A node holds one index, or one for each partition of the rows, and numbers the rows of all of them
one index after the other.
-/

namespace Rvanns.Knowhere

open Cpp

structure FaissNode (I : Type*) where
  indexes : List (Option I)
  labels : List (List ℕ)
  indexRowsSum : List ℕ
  labelToInternalOffset : List ℕ
  internalOffsetToMostExternalId : List ℕ
deriving DecidableEq, Repr

namespace FaissNode

variable {I : Type*}

def init : FaissNode I := ⟨[none], [], [], [], []⟩

variable (node : FaissNode I)

def isIndexEmpty : Bool :=
  node.indexes.isEmpty || node.indexes.any Option.isNone

def checkIndexes (isTrained : I → Bool) : List (Option I) → Except Failure Unit
  | [] => .ok ()
  | none :: _ => .error (.status .emptyIndex "index not loaded")
  | some index :: rest =>
    if isTrained index then checkIndexes isTrained rest
    else .error (.status .indexNotTrained "index not trained")

def checkLoaded (isTrained : I → Bool) : Except Failure Unit :=
  if node.indexes.isEmpty then .error (.status .emptyIndex "index not loaded")
  else checkIndexes isTrained node.indexes

def withMostExternalIds (bitset : BitsetView) : BitsetView :=
  if !node.internalOffsetToMostExternalId.isEmpty && !bitset.empty then
    bitset.setOutIds (node.internalOffsetToMostExternalId.getD · 0)
      node.internalOffsetToMostExternalId.length
  else bitset

def getIndexToSearchByScalarInfo (bitset : BitsetView) : Option (Option ℕ) :=
  if node.indexes.length = 1 then some (some 0)
  else if bitset.empty then some none
  else if bitset.count = bitset.size then some (some 0)
  else do
    let firstValidIndex ← (if bitset.outIds.isSome then some bitset.getFirstValidIndex
      else node.labelToInternalOffset[bitset.getFirstValidIndex]?)
    match node.indexRowsSum.findIdx? (firstValidIndex < ·) with
    | some it => some (some (it - 1))
    -- the offset is read once more for the log
    | none => node.labelToInternalOffset[firstValidIndex]?.map fun _ => none

def rebase (bitset_ : BitsetView) : Except Failure (ℕ × BitsetView) := do
  let bitset := node.withMostExternalIds bitset_
  match ← orUndefined (node.getIndexToSearchByScalarInfo bitset) with
  | none => .error (.status .invalidArgs "partition key value not correctly set")
  | some indexId =>
    if node.labels.isEmpty || bitset.empty then .ok (indexId, bitset)
    else orUndefined do
      let table ← node.labels[indexId]?
      let numMvIds := table.length
      -- in `size_t`
      let numMvFilteredOutIds := ((numMvIds : ℤ) - (bitset.size - bitset.count)) % 2 ^ 64
      if bitset.outIds.isNone then
        some (indexId, bitset.setOutIds (table.getD · 0) numMvIds numMvFilteredOutIds.toNat)
      else do
        let idOffset ← node.indexRowsSum[indexId]?
        some (indexId, (bitset.setOutIds (node.internalOffsetToMostExternalId.getD · 0) numMvIds
          numMvFilteredOutIds.toNat).setIdOffset idOffset)

def internalId (indexId label : ℕ) : Option ℕ :=
  if node.labelToInternalOffset.isEmpty then some label
  else do
    let offset ← node.labelToInternalOffset[label]?
    let base ← node.indexRowsSum[indexId]?
    return (offset + 2 ^ 32 - base) % 2 ^ 32

def externalId (table : List ℕ) (id : ℤ) : Option ℤ :=
  if id < 0 then some id else table[id.toNat]?.map Int.ofNat

inductive Tables (node : FaissNode I) (n : ℕ) : List (List ℕ) → Prop
  /-- The rows have kept their ids. -/
  | plain (labels : node.labels = []) (rowsSum : node.indexRowsSum = [])
      (offsets : node.labelToInternalOffset = []) : Tables node n [List.range n]
  | mapped {parts : List (List ℕ)} (nonempty : parts ≠ []) (labels : node.labels = parts)
      (rowsSum : node.indexRowsSum = rowOffsets parts) (numbering : IsNumbering parts.flatten n)
      (offsets : node.labelToInternalOffset = (List.range n).map parts.flatten.idxOf)
      (small : n < 2 ^ 32) : Tables node n parts

end FaissNode

end Rvanns.Knowhere
