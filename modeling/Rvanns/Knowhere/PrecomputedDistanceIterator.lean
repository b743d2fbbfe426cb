import Rvanns.Cpp.Sort

/-!
# The iterator over precomputed distances

`PrecomputedDistanceIterator` of `index_node.h`.
-/

namespace Rvanns.Knowhere

open Cpp

@[ext] structure DistId (F : Type*) where
  id : ℤ
  val : F
  deriving DecidableEq, Repr

variable {F : Type*} [LinearOrder F]

namespace DistId

/-- `operator<` -/
def lt (lhs rhs : DistId F) : Bool :=
  decide (lhs.val < rhs.val) || (lhs.val == rhs.val && decide (lhs.id < rhs.id))

/-- `operator>` -/
def gt (lhs rhs : DistId F) : Bool := !lt lhs rhs && !(lhs == rhs)

end DistId

/-- The comparison the iterator sorts by. -/
def sortsBefore (largerIsCloser : Bool) : DistId F → DistId F → Bool :=
  if largerIsCloser then DistId.gt else DistId.lt

/-- `a` is a better distance than `b`. -/
def Better (largerIsCloser : Bool) (a b : F) : Prop :=
  if largerIsCloser then b < a else a < b

structure PrecomputedDistanceIterator (F : Type*) where
  results : List (DistId F) := []
  next : ℕ := 0
  sorted : ℕ := 0
  sortSize : ℕ := 0
  initialized : Bool := false

namespace PrecomputedDistanceIterator

def getSortSize (rows : ℕ) : ℕ := max 50000 (rows / 10)

variable (P : StdPartialSort (DistId F)) (largerIsCloser : Bool) (computeDist : List (DistId F))

variable (it : PrecomputedDistanceIterator F)

def sortNext : PrecomputedDistanceIterator F :=
  if it.next < it.sorted then it
  else
    let currentEnd := min it.results.length (it.sorted + it.sortSize)
    { it with
      results := it.results.take it.sorted ++
        P.run (sortsBefore largerIsCloser) (currentEnd - it.sorted) (it.results.drop it.sorted)
      sorted := currentEnd }

def initializeIfNeeded : PrecomputedDistanceIterator F :=
  if it.initialized then it
  else
    let it' := { it with results := computeDist, sortSize := getSortSize computeDist.length }
    { sortNext P largerIsCloser it' with initialized := true }

def nextCall : Option (DistId F × PrecomputedDistanceIterator F) :=
  let it := sortNext P largerIsCloser (initializeIfNeeded P largerIsCloser computeDist it)
  it.results[it.next]?.map fun result => (result, { it with next := it.next + 1 })

def hasNext : Bool × PrecomputedDistanceIterator F :=
  let it := initializeIfNeeded P largerIsCloser computeDist it
  match it.results[it.next]? with
  | some result => (result.id != -1, it)
  | none => (false, it)

def drain : ℕ → PrecomputedDistanceIterator F → Option (List (DistId F))
  | 0, _ => none
  | fuel + 1, it =>
    let (more, it) := hasNext P largerIsCloser computeDist it
    if more then do
      let (result, it) ← nextCall P largerIsCloser computeDist it
      let rest ← drain fuel it
      some (result :: rest)
    else some []

def iterate : Option (List (DistId F)) :=
  drain P largerIsCloser computeDist (computeDist.length + 1) {}

/-- A caller's use of an iterator. -/
inductive Call
  | hasNext
  | next

def runCalls : List Call → PrecomputedDistanceIterator F → Option (List (DistId F))
  | [], _ => some []
  | .hasNext :: calls, it => runCalls calls (hasNext P largerIsCloser computeDist it).2
  | .next :: calls, it => do
    let (result, it) ← nextCall P largerIsCloser computeDist it
    let rest ← runCalls calls it
    some (result :: rest)

end PrecomputedDistanceIterator

end Rvanns.Knowhere
