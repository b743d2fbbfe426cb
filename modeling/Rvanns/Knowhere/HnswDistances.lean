import Rvanns.Faiss.IndexCosine
import Rvanns.Knowhere.FaissNode

/-!
# Three ways to a distance

A request for the distances of given ids, an iterator that refines its results and a search that
refines its candidates each set up a distance computer of their own over the same cosine index.
-/

namespace Rvanns.Knowhere

open Cpp Faiss

variable {F : Type} [Field F] [LinearOrder F] (sqrtf : F → F)

def calcDistComputer (index : CosineIndex F) : DistanceComputer F :=
  match index.refineIndex with
  | some vectors => innerProductDis vectors
  | none => index.storage.getDistanceComputer sqrtf

def calcDistByIDs (node : FaissNode (CosineIndex F)) (bitset : BitsetView)
    (queries : List (List F)) (labels : List ℕ) : Except Failure (List (List F)) := do
  node.checkLoaded CosineIndex.isTrained
  let indexId ← orUndefined
    (node.getIndexToSearchByScalarInfo (node.withMostExternalIds bitset))
  match indexId with
  | none => .error (.status .invalidArgs "partition key value not correctly set")
  | some indexId => orUndefined do
    let index ← node.indexes[indexId]?.join
    queries.mapM fun query => labels.mapM fun label => do
      let id ← node.internalId indexId label
      calcDistComputer sqrtf index query id

/-- The computer `qdis_refine` of an iterator over an `IndexRefine`.  The storage of a cosine index
has norms, so the computer of the refine index is wrapped. -/
def refineComputer (index : CosineIndex F) : Option (DistanceComputer F) :=
  index.refineIndex.map fun vectors =>
    withCosineNorm sqrtf index.storage.inverseL2Norms (innerProductDis vectors)

def rawDistance (node : FaissNode (CosineIndex F)) (indexId : ℕ) (query : List F) (id : ℕ) :
    Option F := do
  let index ← node.indexes[indexId]?.join
  let qdisRefine ← refineComputer sqrtf index
  let mvBaseOffset := node.indexRowsSum.getD indexId 0
  if node.labelToInternalOffset.isEmpty then qdisRefine query id
  else do
    let offset ← node.labelToInternalOffset[id]?
    qdisRefine query ((offset + 2 ^ 32 - mvBaseOffset) % 2 ^ 32)

def rescore (dc : ℕ → Option F) : List (F × ℤ) → Option (List (F × ℤ))
  | [] => some []
  | (dis, id) :: rest =>
    if id < 0 then some ((dis, id) :: rest)
    else do
      let dis' ← dc id.toNat
      let rest' ← rescore dc rest
      return (dis', id) :: rest'

/-- What a refined search over index `indexId` makes of the candidates of the base index, before it
sorts them.  `IndexWrapperCosine` wraps the refine index, and the ids become labels. -/
def refineCandidates (node : FaissNode (CosineIndex F)) (indexId : ℕ) (query : List F)
    (candidates : List (F × ℤ)) : Option (List (F × ℤ)) := do
  let index ← node.indexes[indexId]?.join
  let dc ← refineComputer sqrtf index
  let rescored ← rescore (dc query) candidates
  if node.labels.isEmpty then some rescored
  else do
    let table ← node.labels[indexId]?
    rescored.mapM fun r => (FaissNode.externalId table r.2).map fun label => (r.1, label)

structure HoldsRows (codec : Codec F) (kind : StorageKind) (refine : Bool) (rows : List (List F))
    (parts : List (List ℕ)) (node : FaissNode (CosineIndex F)) : Prop where
  tables : node.Tables rows.length parts
  indexes : node.indexes = parts.map fun ids =>
    some ((CosineIndex.trained kind refine).add sqrtf codec (ids.map (rows.getD · [])))

def cosineValue (codec : Codec F) (refine : Bool) (query row : List F) : F :=
  fvecInnerProduct query (if refine then codec.refine row else codec.base row)
    * (inverseL2Norm sqrtf row * inverseQueryNorm sqrtf query)

end Rvanns.Knowhere
