import Rvanns.Cpp.Vector

/-!
# Cosine indexes

A cosine index stores its vectors as they are, or quantised, and beside them the inverse norms of
the vectors that were added.
-/

namespace Rvanns.Faiss

open Cpp

variable {F : Type*} [Field F] [LinearOrder F]

def fvecInnerProduct (x y : List F) : F := (List.zipWith (· * ·) x y).sum

def fvecNormL2sqr (x : List F) : F := fvecInnerProduct x x

def inverseQueryNorm (sqrtf : F → F) (x : List F) : F :=
  if fvecNormL2sqr x ≤ 0 then 1 else 1 / sqrtf (fvecNormL2sqr x)

def inverseL2Norm (sqrtf : F → F) (x : List F) : F :=
  if fvecNormL2sqr x = 0 then 1 else 1 / sqrtf (fvecNormL2sqr x)

structure IsSqrt (sqrtf : F → F) : Prop where
  pos : ∀ {x}, 0 < x → 0 < sqrtf x
  mul_self : ∀ {x}, 0 < x → sqrtf x * sqrtf x = x

def countedNormSqr (x : List F) : F := if fvecNormL2sqr x = 0 then 1 else fvecNormL2sqr x

abbrev DistanceComputer (F : Type*) := List F → ℕ → Option F

def innerProductDis (vectors : List (List F)) : DistanceComputer F := fun q i =>
  vectors[i]?.map (fvecInnerProduct q)

def flatCosineDis (sqrtf : F → F) (vectors : List (List F)) (inverseL2Norms : List F) :
    DistanceComputer F := fun q i => do
  let y ← vectors[i]?
  let dp0 := fvecInnerProduct q y
  let inverseCodeNorm ← inverseL2Norms[i]?
  return dp0 * inverseCodeNorm * inverseQueryNorm sqrtf q

def withCosineNorm (sqrtf : F → F) (inverseL2Norms : List F) (basedis : DistanceComputer F) :
    DistanceComputer F := fun q i => do
  let dis ← basedis q i
  let inverseNorm ← inverseL2Norms[i]?
  return dis * (inverseNorm * inverseQueryNorm sqrtf q)

inductive StorageKind where
  | flat
  | scalarQuantizer
  | productQuantizer
  | productResidualQuantizer
deriving DecidableEq, Repr

structure CosineStorage (F : Type*) where
  kind : StorageKind
  /-- The vectors that the codes decode to. -/
  vectors : List (List F)
  inverseL2Norms : List F

def CosineStorage.getDistanceComputer (sqrtf : F → F) (st : CosineStorage F) : DistanceComputer F :=
  match st.kind with
  | .flat => flatCosineDis sqrtf st.vectors st.inverseL2Norms
  | .scalarQuantizer | .productQuantizer | .productResidualQuantizer =>
    withCosineNorm sqrtf st.inverseL2Norms (innerProductDis st.vectors)

structure CosineIndex (F : Type*) where
  storage : CosineStorage F
  /-- The vectors in the refine index, if there is one. -/
  refineIndex : Option (List (List F))
  isTrained : Bool

structure Codec (F : Type*) where
  base : List F → List F
  refine : List F → List F

def CosineIndex.trained (kind : StorageKind) (refine : Bool) : CosineIndex F where
  storage := ⟨kind, [], []⟩
  refineIndex := if refine then some [] else none
  isTrained := true

def CosineIndex.add (sqrtf : F → F) (codec : Codec F) (index : CosineIndex F) (xs : List (List F)) :
    CosineIndex F :=
  { index with
    storage := { index.storage with
      vectors := index.storage.vectors ++ xs.map codec.base
      inverseL2Norms := index.storage.inverseL2Norms ++ xs.map (inverseL2Norm sqrtf) }
    refineIndex := index.refineIndex.map (· ++ xs.map codec.refine) }

end Rvanns.Faiss
