import Rvanns.Faiss.BruteForce
import Rvanns.Knowhere.BitsetView
import Rvanns.Knowhere.Status

/-!
# Searching with a data view refiner

`IndexNodeWithDataViewRefiner::Search` asks its base index for more candidates than the caller
wants, computes their distances anew from the raw data and keeps the best.
-/

namespace Rvanns.Knowhere

open Cpp Faiss

variable {Q F : Type}

def intOfFloat (y : ℚ) : Option ℤ :=
  if -2 ^ 31 - 1 < y ∧ y < 2 ^ 31 then some (if 0 ≤ y then ⌊y⌋ else ⌈y⌉) else none

def scaledK (round : ℚ → ℚ) (k : ℕ) (refineRatio : ℚ) : ℚ := round (round k * refineRatio)

def reorderK (round : ℚ → ℚ) (k : ℕ) (refineRatio : ℚ) : Option ℤ :=
  intOfFloat (scaledK round k refineRatio)

structure BaseIndex (Q : Type) where
  candidates : ℤ → List Q → BitsetView → Except Failure (List (List ℕ))
  rejects : ∀ k queries bitset, k ≤ 0 → ∃ e, candidates k queries bitset = .error e
  succeeds : ∀ k queries bitset, 1 ≤ k → ∃ cands, candidates k queries bitset = .ok cands
  oneForEach : ∀ k queries bitset cands, candidates k queries bitset = .ok cands →
    cands.length = queries.length
  atMost : ∀ k queries bitset cands, candidates k queries bitset = .ok cands →
    ∀ cand ∈ cands, (cand.length : ℤ) ≤ k

def paddedIds (dim : ℕ) (cand : List ℕ) : List ℤ :=
  cand.map Int.ofNat ++ List.replicate (dim - cand.length) (-1)

/-- The refiner's index.  A query takes `codeSize` bytes, at least two for each component. -/
structure DataViewIndex (Q F : Type) where
  codeSize : ℕ
  two_le_codeSize : 2 ≤ codeSize
  isL2 : Bool
  isCosine : Bool
  computer : Q → ℕ → F
  divideByNorm : F → ℕ → F

namespace DataViewIndex

variable [LinearOrder F] [BoundedOrder F]

variable (index : DataViewIndex Q F)

def cmp : Cmp F :=
  if index.isL2 then CMax ⟨⊥, ⊤⟩ else CMin ⟨⊥, ⊤⟩

def refined (x : Q) (id : ℕ) : F :=
  if index.isCosine then index.divideByNorm (index.computer x id) id else index.computer x id

def baseDist (x : Q) (id : ℤ) : Option F :=
  if 0 ≤ id then some (index.refined x id.toNat)
  else if index.isCosine && id != -1 then none
  else some index.cmp.neutral

/-- The query at `code_size_ * i` bytes, a product of two `int`s. -/
def queryAt (queries : List Q) (i : ℕ) : Option Q :=
  if index.codeSize * i < 2 ^ 31 then queries[i]? else none

def searchQueryWithIds [Zero F] (queries : List Q) (lims : List ℕ)
    (ids : List ℤ) (k i : ℕ) : Option (List (F × ℤ)) := do
  let x ← index.queryAt queries i
  let first ← lims[i]?
  let last ← lims[i + 1]?
  let baseN := last - first
  let baseDist ← (List.range baseN).mapM fun j => do
    let id ← ids[first + j]?
    index.baseDist x id
  reorder2Heaps index.cmp k baseN (fun j => ids[first + j]?) (baseDist[·]?) fun _ => (0, 0)

def searchWithIds [Zero F] (queries : List Q) (lims : List ℕ)
    (ids : List ℤ) (k : ℕ) : Option (List (List (F × ℤ))) :=
  (List.range queries.length).mapM (index.searchQueryWithIds queries lims ids k)

end DataViewIndex

def refinedSearch [LinearOrder F] [BoundedOrder F] [Zero F] (round : ℚ → ℚ) (base : BaseIndex Q)
    (index : DataViewIndex Q F) (k : ℕ) (refineRatio : ℚ) (queries : List Q) (bitset : BitsetView) :
    Except Failure (List (List (F × ℤ))) := do
  let kBase ← orUndefined (reorderK round k refineRatio)
  let cands ← base.candidates kBase queries bitset
  let dim := kBase.toNat
  -- the loop over the limits counts in `int`
  if 2 ^ 31 ≤ queries.length + 1 then throw .undefined
  let lims := (List.range (queries.length + 1)).map (dim * ·)
  orUndefined (index.searchWithIds queries lims (cands.flatMap (paddedIds dim)) k)

end Rvanns.Knowhere
