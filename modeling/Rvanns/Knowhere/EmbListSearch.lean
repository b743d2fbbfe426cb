import Rvanns.Knowhere.PrecomputedDistanceIterator

/-!
# The rows of an embedding-list search

The selection and the output of `IndexNode::SearchEmbList` and of the embedding-list branch of
`BruteForce::SearchWithBuf`, for the scores that `el_agg_func` has given to the lists.
-/

namespace Rvanns.Knowhere.EmbListSearch

open Cpp List

/-- `std::numeric_limits<float>`. -/
structure FloatLimits (F : Type) where
  min : F
  max : F

variable {F : Type} [LinearOrder F] (Q : StdPriorityQueue (DistId F)) (limits : FloatLimits F)
  (largerIsCloser : Bool) (k : ℕ+)

def above (a b : DistId F) : Bool := sortsBefore largerIsCloser b a

def isCloser (a b : F) : Bool := if largerIsCloser then decide (b < a) else decide (a < b)

/-- One list: a full heap takes it if it is closer than the top. -/
def offer (heap : List (DistId F)) (entry : DistId F) : List (DistId F) :=
  if heap.length < k then Q.push (above largerIsCloser) heap entry
  else
    match Q.pop (above largerIsCloser) heap with
    | some (top, rest) =>
      if isCloser largerIsCloser entry.val top.val then Q.push (above largerIsCloser) rest entry
      else heap
    | none => heap

/-- The rows are filled from the back. -/
def drain : ℕ → List (DistId F) → List (DistId F)
  | 0, _ => []
  | n + 1, heap =>
    match Q.pop (above largerIsCloser) heap with
    | some (top, rest) => drain n rest ++ [top]
    | none => []

/-- Where there are fewer lists than `k`. -/
def filler : DistId F := ⟨-1, if largerIsCloser then limits.min else limits.max⟩

def row (entries : List (DistId F)) : List (DistId F) :=
  let heap := entries.foldl (offer Q largerIsCloser k) []
  let realElK := heap.length
  drain Q largerIsCloser realElK heap ++ replicate (k - realElK) (filler limits largerIsCloser)

def searchEmbList (elIds : List ℕ) (score : ℕ → F) : List (DistId F) :=
  row Q limits largerIsCloser k (elIds.map fun el : ℕ => ⟨el, score el⟩)

def searchWithBuf (xbIdOffset : ℤ) (baseEls : List ℕ) (score : ℕ → F) : List (DistId F) :=
  row Q limits largerIsCloser k (baseEls.map fun el : ℕ => ⟨el + xbIdOffset, score el⟩)

end Rvanns.Knowhere.EmbListSearch
