import Rvanns.Cpp.Cursor
import Rvanns.Cpp.Rows
import Rvanns.Knowhere.PrecomputedDistanceIterator
import Rvanns.Knowhere.Status

/-!
# Range search over iterators

`IndexNode::RangeSearch` of `index_node.h`, the implementation for indexes that only have iterators,
and `GetRangeSearchResult` of `range_util.cc`.
-/

namespace Rvanns.Knowhere

open Cpp

structure RangeConfig (F : Type) where
  theLargerTheCloser : Bool
  radius : F
  rangeFilter : F
  defaultRangeFilter : F
  rangeSearchK : ℤ
  rangeSearchLevel : ℚ
  retainIteratorOrder : Bool

/-- An iterator, as `AnnIterator` returns it. -/
structure AnnIterator (F : Type) extends Cursor (DistId F) where
  state : State

namespace RangeConfig

variable {F : Type} [LinearOrder F] (cfg : RangeConfig F)

def isFirstCloser (dist1 dist2 : F) : Bool :=
  if cfg.theLargerTheCloser then dist1 > dist2 else dist1 < dist2

def hasCloserBound : Bool := cfg.rangeFilter ≠ cfg.defaultRangeFilter

/-- `too_close`, if there is a filter at all. -/
def tooClose (dist : F) : Bool := cfg.hasCloserBound && cfg.isFirstCloser dist cfg.rangeFilter

/-- `same_or_too_far`, for the current bound. -/
def sameOrTooFar (bound dist : F) : Bool := !cfg.isFirstCloser dist bound

def orderedTurn (results : List (DistId F)) (p : DistId F) : List (DistId F) × Bool :=
  if cfg.tooClose p.val then (results, false)
  else if cfg.sameOrTooFar cfg.radius p.val then (results, true)
  else
    let results := results ++ [p]
    (results, 0 ≤ cfg.rangeSearchK ∧ cfg.rangeSearchK ≤ results.length)

structure UnorderedTask (F : Type) where
  earlyStopFurtherBounds : List F := []
  numNext : ℕ := 0
  numConsecutiveOverFurtherBound : ℕ := 0
  tighterFurtherBound : F
  results : List (DistId F) := []

def above (a b : F) : Bool := cfg.isFirstCloser b a

variable (Q : StdPriorityQueue F)

def tighten (queue : List F) (bound dist : F) : Option (List F × F) :=
  if 0 < cfg.rangeSearchK then
    if queue.length < cfg.rangeSearchK then
      return (Q.push cfg.above queue dist, bound)
    else do
      let (_, rest) ← Q.pop cfg.above queue
      let queue := Q.push cfg.above rest dist
      let (top, _) ← Q.pop cfg.above queue
      return (queue, top)
  else return (queue, bound)

/-- One turn of `task_with_unordered_iterator`. -/
def unorderedTurn (s : UnorderedTask F) (p : DistId F) : Option (UnorderedTask F × Bool) :=
  let s := { s with numNext := s.numNext + 1 }
  if cfg.tooClose p.val then return (s, false)
  else if cfg.sameOrTooFar s.tighterFurtherBound p.val then
    let num := s.numConsecutiveOverFurtherBound + 1
    return ({ s with numConsecutiveOverFurtherBound := num },
      ⌈(s.numNext : ℚ) * cfg.rangeSearchLevel⌉₊ < num)
  else do
    let (queue, bound) ← cfg.tighten Q s.earlyStopFurtherBounds s.tighterFurtherBound p.val
    return ({ s with
      earlyStopFurtherBounds := queue
      numConsecutiveOverFurtherBound := 0
      tighterFurtherBound := bound
      results := s.results ++ [p] }, false)

/-- The variables at the start. -/
def initialTask : UnorderedTask F := { tighterFurtherBound := cfg.radius }

def taskWithOrderedIterator (fuel : ℕ) (it : AnnIterator F) : Except Fault (List (DistId F)) :=
  it.loop (fun results p => some (cfg.orderedTurn results p)) fuel it.state []

def taskWithUnorderedIterator (fuel : ℕ) (it : AnnIterator F) : Except Fault (UnorderedTask F) :=
  it.loop (cfg.unorderedTurn Q) fuel it.state cfg.initialTask

/-- The task that is pushed for a query. -/
def task (fuel : ℕ) (it : AnnIterator F) : Except Fault (List (DistId F)) :=
  if cfg.retainIteratorOrder then cfg.taskWithOrderedIterator fuel it
  else do
    let s ← cfg.taskWithUnorderedIterator Q fuel it
    return s.results

end RangeConfig

structure RangeSearchResult (F : Type) where
  distances : List F
  labels : List ℤ
  lims : List ℕ
deriving DecidableEq

variable {F : Type}

/-- The results of query `i`, as a caller reads them. -/
def RangeSearchResult.query (r : RangeSearchResult F) (i : ℕ) : Option (List F × List ℤ) := do
  let b ← r.lims[i]?
  let e ← r.lims[i + 1]?
  return ((r.distances.drop b).take (e - b), (r.labels.drop b).take (e - b))

def getRangeSearchResult (resultDistances : List (List F)) (resultLabels : List (List ℤ))
    (nq : ℕ) : Except Fault (RangeSearchResult F) := do
  if resultDistances.length ≠ nq then
    throw (.thrown ("result distances size " ++ toString resultDistances.length ++ " not equal to "
      ++ toString nq))
  if resultLabels.length ≠ nq then
    throw (.thrown ("result labels size " ++ toString resultLabels.length ++ " not equal to "
      ++ toString nq))
  return ⟨resultDistances.flatten, resultLabels.flatten, rowOffsets resultDistances⟩

/-- The status and the message of `expected<>::Err`. -/
abbrev SearchError := Status × String

def rangeSearch [LinearOrder F] (Q : StdPriorityQueue F) (cfg : RangeConfig F) (fuel nq : ℕ)
    (annIterator : Except SearchError (List (AnnIterator F))) :
    Except Fault (Except SearchError (RangeSearchResult F)) := do
  if cfg.rangeSearchK = 0 then
    return .ok (← getRangeSearchResult (List.replicate nq []) (List.replicate nq []) nq)
  match annIterator with
  | .error e => return .error (e.1, "RangeSearch failed due to AnnIterator failure: " ++ e.2)
  | .ok its => do
    let results ← its.mapM (cfg.task Q fuel)
    return .ok (← getRangeSearchResult (results.map (·.map DistId.val))
      (results.map (·.map DistId.id)) its.length)

end Rvanns.Knowhere
