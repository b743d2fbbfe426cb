import Rvanns.Cpp.Patch

/-!
# Inverted lists

`InvertedLists` of `invlists/InvertedLists.h` as far as a scan uses it, with two implementations.
-/

namespace Rvanns.Faiss

open Cpp

structure Entry (V : Type) where
  id : ℕ
  code : V
deriving DecidableEq, Repr

variable {V : Type}

/-- The virtual functions that a scan calls.  `getEntries listNo offset j` is what stands `j` places
behind the pointers that `get_ids`, `get_codes` and `get_code_norms` return. -/
structure InvertedLists (V : Type) where
  listSize : ℕ → ℕ
  getSegmentNum : ℕ → ℕ
  getSegmentSize : ℕ → ℕ → ℕ
  getSegmentOffset : ℕ → ℕ → ℕ
  getEntries : ℕ → ℕ → ℕ → Option (Entry V)

def arrayInvertedLists (lists : ℕ → List (Entry V)) : InvertedLists V where
  listSize listNo := (lists listNo).length
  getSegmentNum _ := 1
  getSegmentSize listNo _ := (lists listNo).length
  getSegmentOffset _ _ := 0
  getEntries listNo offset j := (lists listNo)[offset + j]?

structure ConcurrentList (V : Type) where
  segments : List (List (Option (Entry V))) := []
  cur : ℕ := 0

namespace ConcurrentList

def reserve (segmentSize : ℕ) (list : ConcurrentList V) (capacity : ℕ) : ConcurrentList V :=
  { list with
    segments := list.segments ++ List.replicate
      (chunkNum segmentSize capacity - list.segments.length)
      (List.replicate segmentSize none) }

def store (list : ConcurrentList V) (segmentId first : ℕ) (entries : List (Entry V)) :
    Option (ConcurrentList V) := do
  let segments ← writeChunk list.segments segmentId first entries
  return ⟨segments, list.cur + entries.length⟩

/-- The loop of `add_entries` over the segments behind the first.  The result lists the states after
each turn.  Every turn stores an entry, so as many turns as there are entries are enough. -/
def addRest (segmentSize : ℕ) : ℕ → ConcurrentList V → ℕ → List (Entry V) →
    Option (List (ConcurrentList V))
  | _, _, _, [] => some []
  | 0, _, _, _ :: _ => none
  | fuel + 1, list, segmentId, rest => do
    let segmentId := segmentId + 1
    if segmentSize ≤ rest.length then
      let list ← list.store segmentId 0 (rest.take segmentSize)
      let states ← addRest segmentSize fuel list segmentId (rest.drop segmentSize)
      return list :: states
    else
      let list ← list.store segmentId 0 rest
      return [list]

def addEntries (segmentSize : ℕ) (list : ConcurrentList V) (entries : List (Entry V)) :
    Option (List (ConcurrentList V)) :=
  if entries.length = 0 then some []
  else do
    let o := list.cur
    let reserved := list.reserve segmentSize (o + entries.length)
    let firstId := o / segmentSize
    let firstCur := o % segmentSize
    if firstCur + entries.length ≤ segmentSize then
      let list ← reserved.store firstId firstCur entries
      return [reserved, list]
    else
      let firstRest := segmentSize - firstCur
      let list ← reserved.store firstId firstCur (entries.take firstRest)
      let states ← addRest segmentSize entries.length list firstId (entries.drop firstRest)
      return reserved :: list :: states

def getSegmentSize (segmentSize : ℕ) (list : ConcurrentList V) (segmentNo : ℕ) : ℕ :=
  let o := list.cur
  if segmentNo = 0 ∧ o = 0 then 0
  else
    let oLast := if 0 < o % segmentSize then o % segmentSize else segmentSize
    if segmentNo < chunkNum segmentSize o - 1 then segmentSize else oLast

def getEntries (segmentSize : ℕ) (list : ConcurrentList V) (offset j : ℕ) : Option (Entry V) := do
  let segment ← list.segments[offset / segmentSize]?
  let cell ← segment[offset % segmentSize + j]?
  cell

end ConcurrentList

def concurrentArrayInvertedLists (segmentSize : ℕ) (lists : ℕ → ConcurrentList V) :
    InvertedLists V where
  listSize listNo := (lists listNo).cur
  getSegmentNum listNo := chunkNum segmentSize (lists listNo).cur
  getSegmentSize listNo segmentNo := (lists listNo).getSegmentSize segmentSize segmentNo
  getSegmentOffset _ segmentNo := segmentSize * segmentNo
  getEntries listNo offset j := (lists listNo).getEntries segmentSize offset j

inductive ListStorage (V : Type) where
  | array (lists : ℕ → List (Entry V))
  | concurrent (segmentSize : ℕ) (lists : ℕ → ConcurrentList V)

def ListStorage.invertedLists : ListStorage V → InvertedLists V
  | .array lists => arrayInvertedLists lists
  | .concurrent segmentSize lists => concurrentArrayInvertedLists segmentSize lists

end Rvanns.Faiss
