import Rvanns.Cpp.Returns
import Rvanns.Knowhere.PrecomputedDistanceIterator

/-!
# Iterators that expand their search

`IndexIterator` of `index_node.h`, the superclass of the iterators that get their results in batches
from `next_batch`.
-/

namespace Rvanns.Knowhere

open Cpp

/-- What the constructor is given.  `round` is the rounding of the float unit, which is only met
where a number of elements is multiplied by `refineRatio`. -/
structure IteratorParams where
  largerIsCloser : Bool
  refineRatio : ℚ := 0
  retainIteratorOrder : Bool := false
  round : ℚ → ℚ := id

/-- The two heaps, and what the subclass gets its batches from. -/
structure IndexIterator (F B : Type) where
  initialized : Bool := false
  res : List (DistId F) := []
  refinedRes : List (DistId F) := []
  source : B

namespace IndexIterator

variable {F B : Type} [LinearOrder F] [Neg F]

def above (a b : DistId F) : Bool := DistId.gt b a

variable (Q : StdPriorityQueue (DistId F)) (params : IteratorParams)
  (nextBatch : B → Except Fault (List (DistId F) × B)) (rawDistance : ℤ → F)

def refine : Bool := params.refineRatio != 0

def signed (val : F) : F := if params.largerIsCloser then -val else val

/-- The conversion of a float to `size_t`, which is undefined for what does not fit. -/
def sizeOfFloat (y : ℚ) : Option ℕ := if -1 < y ∧ y < 2 ^ 64 then some ⌊y⌋₊ else none

/-- `size * refine_ratio_`: the number of elements becomes a float first, and so does the product.
-/
def scaledSize (size : ℕ) : ℚ := params.round (params.round size * params.refineRatio)

def minRefineSize (size : ℕ) : Except Fault ℕ := do
  let scaled ← defined (sizeOfFloat (scaledSize params size))
  return max 20 scaled

/-- The condition of the loop in `UpdateNext`, which evaluates `min_refine_size` last. -/
def refinesMore (res refinedRes : List (DistId F)) : Except Fault Bool :=
  if res.isEmpty then return false
  else if refinedRes.isEmpty then return true
  else do
    let size ← minRefineSize params res.length
    return refinedRes.length < size

def refineLoop :
    ℕ → List (DistId F) → List (DistId F) → Except Fault (List (DistId F) × List (DistId F))
  | 0, res, refinedRes => return (res, refinedRes)
  | fuel + 1, res, refinedRes => do
    let more ← refinesMore params res refinedRes
    if more then
      match Q.pop above res with
      | some (pair, res) =>
        refineLoop fuel res
          (Q.push above refinedRes ⟨pair.id, signed params (rawDistance pair.id)⟩)
      | none => return (res, refinedRes)
    else return (res, refinedRes)

variable (it : IndexIterator F B)

def handleBatch (batch : List (DistId F)) : Except Fault (IndexIterator F B) :=
  if batch.isEmpty then return it
  else
    let res := Q.pushAll above it.res (batch.map fun p => ⟨p.id, signed params p.val⟩)
    if refine params then do
      let (res, refinedRes) ← refineLoop Q params rawDistance res.length res it.refinedRes
      return { it with res := res, refinedRes := refinedRes }
    else return { it with res := res }

def updateNext : Except Fault (IndexIterator F B) := do
  let (batch, source) ← nextBatch it.source
  handleBatch Q params rawDistance { it with source := source } batch

def initializeIfNeeded : Except Fault (IndexIterator F B) :=
  if it.initialized then return it
  else do
    let it ← updateNext Q params nextBatch rawDistance it
    return { it with initialized := true }

def popQueue : Option (DistId F × IndexIterator F B) :=
  if it.refinedRes.isEmpty then
    (Q.pop above it.res).map fun p => (p.1, { it with res := p.2 })
  else (Q.pop above it.refinedRes).map fun p => (p.1, { it with refinedRes := p.2 })

def dropEarlier (val : F) : ℕ → IndexIterator F B → Except Fault (IndexIterator F B)
  | 0, _ => .error .undefined
  | fuel + 1, it =>
    match popQueue Q it with
    | none => return it
    | some (top, popped) =>
      if val ≤ top.val then return it
      else do
        let it ← updateNext Q params nextBatch rawDistance popped
        dropEarlier val fuel it

def next (fuel : ℕ) (it : IndexIterator F B) : Except Fault (DistId F × IndexIterator F B) := do
  let it ← initializeIfNeeded Q params nextBatch rawDistance it
  match popQueue Q it with
  | none => .error (.thrown "No more elements")
  | some (ret, it) =>
    let it ← updateNext Q params nextBatch rawDistance it
    let it ← (if params.retainIteratorOrder then
      dropEarlier Q params nextBatch rawDistance ret.val fuel it else return it)
    return (⟨ret.id, signed params ret.val⟩, it)

def hasNext : Except Fault (Bool × IndexIterator F B) := do
  let it ← initializeIfNeeded Q params nextBatch rawDistance it
  return (!it.res.isEmpty || !it.refinedRes.isEmpty, it)

def take (fuel : ℕ) : ℕ → IndexIterator F B → Except Fault (List (DistId F) × IndexIterator F B)
  | 0, it => return ([], it)
  | n + 1, it => do
    let (more, it) ← hasNext Q params nextBatch rawDistance it
    if more then
      let (result, it) ← next Q params nextBatch rawDistance fuel it
      let (rest, it) ← take fuel n it
      return (result :: rest, it)
    else return ([], it)

inductive Call where
  | hasNext
  | next
deriving DecidableEq, Repr

def run (fuel : ℕ) :
    List Call → IndexIterator F B → Except Fault (List (DistId F) × IndexIterator F B)
  | [], it => return ([], it)
  | .hasNext :: calls, it => do
    let (_, it) ← hasNext Q params nextBatch rawDistance it
    run fuel calls it
  | .next :: calls, it => do
    let (result, it) ← next Q params nextBatch rawDistance fuel it
    let (rest, it) ← run fuel calls it
    return (result :: rest, it)

end IndexIterator

end Rvanns.Knowhere
