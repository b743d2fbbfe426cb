import Rvanns.Faiss.IndexIVF
import Rvanns.Knowhere.BitsetView
import Rvanns.Knowhere.IndexIterator

/-!
# The iterator over an IVF index

`IvfIndexNode::iterator` of `ivf.cc`, for the index types IVF_FLAT, IVF_FLAT_CC, IVF_SQ and
IVF_SQ_CC, which do not refine.
-/

namespace Rvanns.Knowhere

open Cpp Faiss

def selects (bitset : BitsetView) (id : ℕ) : Bool := bitset.empty || !bitset.test id

namespace IvfIterator

variable {Q V F : Type} [LinearOrder F] [Neg F]

def iteratorParams (index : IndexIVF Q V F) : IteratorParams := { largerIsCloser := index.isIp }

/-- The constructor. -/
def create (index : IndexIVF Q V F) (storage : ListStorage V) (x : Q) (nprobe : ℕ) :
    Except Fault (IndexIterator F (IndexIVF.IVFIteratorWorkspace Q F)) := do
  let workspace ← index.getIteratorWorkspace storage.invertedLists x nprobe
  return { source := workspace }

variable (P : StdPriorityQueue (DistId F)) (index : IndexIVF Q V F) (bitset : BitsetView)
  (live : ℕ → ℕ → ListStorage V) (rawDistance : ℤ → F)

def nextBatch (resSize : ℕ) (workspace : IndexIVF.IVFIteratorWorkspace Q F) :
    Except Fault (List (DistId F) × IndexIVF.IVFIteratorWorkspace Q F) :=
  index.getIteratorNextBatch (fun i t => (live i t).invertedLists)
    (selects bitset) workspace resSize

variable (it : IndexIterator F (IndexIVF.IVFIteratorWorkspace Q F))

def updateNext : Except Fault (IndexIterator F (IndexIVF.IVFIteratorWorkspace Q F)) :=
  it.updateNext P (iteratorParams index) (nextBatch index bitset live it.res.length) rawDistance

def initializeIfNeeded : Except Fault (IndexIterator F (IndexIVF.IVFIteratorWorkspace Q F)) :=
  it.initializeIfNeeded P (iteratorParams index) (nextBatch index bitset live it.res.length)
    rawDistance

/-- The method `Next`. -/
def next :
    Except Fault (DistId F × IndexIterator F (IndexIVF.IVFIteratorWorkspace Q F)) := do
  let it ← initializeIfNeeded P index bitset live rawDistance it
  match it.popQueue P with
  | none => .error (.thrown "No more elements")
  | some (ret, it) =>
    let it ← updateNext P index bitset live rawDistance it
    return (⟨ret.id, IndexIterator.signed (iteratorParams index) ret.val⟩, it)

/-- The method `HasNext`. -/
def hasNext :
    Except Fault (Bool × IndexIterator F (IndexIVF.IVFIteratorWorkspace Q F)) := do
  let it ← initializeIfNeeded P index bitset live rawDistance it
  return (!it.res.isEmpty || !it.refinedRes.isEmpty, it)

/-- `Next` while `HasNext`, for at most `fuel` turns. -/
def exhaust : ℕ → IndexIterator F (IndexIVF.IVFIteratorWorkspace Q F) →
    Except Fault (List (DistId F))
  | 0, _ => .error .undefined
  | fuel + 1, it => do
    let (more, it) ← hasNext P index bitset live rawDistance it
    if more then
      let (result, it) ← next P index bitset live rawDistance it
      let rest ← exhaust fuel it
      return result :: rest
    else return []

def run : List IndexIterator.Call → IndexIterator F (IndexIVF.IVFIteratorWorkspace Q F) →
    Except Fault (List (DistId F) × IndexIterator F (IndexIVF.IVFIteratorWorkspace Q F))
  | [], it => return ([], it)
  | .hasNext :: calls, it => do
    let (_, it) ← hasNext P index bitset live rawDistance it
    run calls it
  | .next :: calls, it => do
    let (result, it) ← next P index bitset live rawDistance it
    let (rest, it) ← run calls it
    return (result :: rest, it)

end IvfIterator

/-! ### `Search` for IVF_FLAT_CC and IVF_SQ_CC, for one query -/

section

variable {Q V F : Type} [LinearOrder F] [BoundedOrder F] [Zero F]

def sizeOfDouble (y : ℚ) : Option ℕ := if -1 < y ∧ y < 2 ^ 64 then some ⌊y⌋.toNat else none

def scanLimit (round : ℚ → ℚ) (nprobe nlist ntotal count : ℕ) : ℚ :=
  let valid : ℕ := (ntotal + 2 ^ 64 - count % 2 ^ 64) % 2 ^ 64
  round (round (nprobe / nlist) * round valid)

def searchParameters (round : ℚ → ℚ) (index : IndexIVF Q V F) (nprobe : ℕ) (ensureTopkFull : Bool)
    (bitset : BitsetView) : Option IndexIVF.SearchParameters :=
  if ensureTopkFull then do
    let maxCodes ← sizeOfDouble (scanLimit round nprobe index.nlist index.ntotal bitset.count)
    return ⟨index.nlist, maxCodes, true, selects bitset⟩
  else return ⟨nprobe, 0, false, selects bitset⟩

def ivfSearch (round : ℚ → ℚ) (index : IndexIVF Q V F) (storage : ListStorage V) (x : Q)
    (k nprobe : ℕ) (ensureTopkFull : Bool) (bitset : BitsetView) :
    Except Fault (List (F × ℤ)) := do
  let params ← defined (searchParameters round index nprobe ensureTopkFull bitset)
  index.search storage.invertedLists x k params

end

end Rvanns.Knowhere
