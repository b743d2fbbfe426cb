import Rvanns.Cpp.Sort
import Rvanns.Cpp.WrapInt
import Rvanns.Knowhere.FaissNode

/-!
# Building an HNSW node by partitions

Scalar information splits the rows of a dataset into lists of row ids.
-/

namespace Rvanns.Knowhere

open Cpp List

variable {R V : Type}

structure Combining where
  res : List (List ℕ) := []
  cur : List ℕ := []
  curSize : ℤ := 0

namespace Combining

def turn (sizes : List ℤ) (baseRows : ℤ) (s : Combining) (i : ℕ) : Combining :=
  let curSize := s.curSize + sizes.getD i 0
  let cur := s.cur ++ [i]
  if baseRows ≤ curSize then { res := s.res ++ [cur] } else
    { s with cur := cur, curSize := curSize }

def tail (s : Combining) : List (List ℕ) :=
  if s.cur = [] then s.res
  else match s.res.getLast? with
    | none => [s.cur]
    | some last => s.res.dropLast ++ [last ++ s.cur]

end Combining

def combinePartitions (sort : StdSort ℕ) (scalarInfo : List (List ℕ)) (baseRows : ℤ) :
    Option (List (List ℕ)) :=
  if scalarInfo.length < 2 ^ 31 then
    let sizes := scalarInfo.map fun idList => wrapInt 32 idList.length
    let indices := sort.run (fun i1 i2 => sizes.getD i1 0 < sizes.getD i2 0)
      (range scalarInfo.length)
    some (indices.foldl (Combining.turn sizes baseRows) {}).tail
  else none

structure SubIndex (V : Type) where
  storage : List V := []

/-- `IndexHNSW::add`, which counts all vectors of the index with an `int`. -/
def SubIndex.add (index : SubIndex V) (rows : List V) : Option (SubIndex V) :=
  if rows.isEmpty then some index
  else if index.storage.length + rows.length < 2 ^ 31 then some ⟨index.storage ++ rows⟩
  else none

structure Dataset (R : Type) where
  rows : List R
  scalarInfoMap : List (ℤ × List (List ℕ)) := []

structure HnswNode (V : Type) extends FaissNode (SubIndex V) where
  tmpCombinedScalarIds : List (List ℕ) := []

/-- What depends on the kind of the node: how a row is converted, if its format is supported, how
many rows a group needs (128, or two to the power of `nbits`), and `train_index`, which returns
`none` for success.  It gets no rows where the source passes the data as it is. -/
structure HnswKind (R V : Type) where
  toFp32 : Option (R → V)
  baseRows : ℤ
  baseRows_pos : 0 < baseRows
  trainIndex : Option (List V) → ℕ → Option Status

variable (kind : HnswKind R V)

def convertRowsToFp32 (data : List R) (offsets : List ℕ) : Except Failure (List V) :=
  match kind.toFp32 with
  | none => .error (.status .invalidArgs "Unsupported data format")
  | some convert => orUndefined (offsets.mapM fun offset => data[offset]?.map convert)

def resize {α : Type} (v : List α) (n : ℕ) (d : α) : List α :=
  v.take n ++ replicate (n - v.length) d

structure GroupTables (V : Type) where
  table : List ℕ
  offsets : List ℕ
  curSize : ℕ := 0
  tmpData : List V := []

def labelIds (rowsSum curSize : ℕ) (ids : List ℕ) (tables : List ℕ × List ℕ) :
    Option (List ℕ × List ℕ) :=
  (range ids.length).foldlM (fun tables m => do
    let label ← ids[m]?
    let table ← wr tables.1 (curSize + m) label
    let offsets ← wr tables.2 label ((rowsSum + curSize + m) % 2 ^ 32)
    return (table, offsets)) tables

def labelList (data : List R) (rowsSum : ℕ) (lists : List (List ℕ))
    (s : GroupTables V) (j : ℕ) : Except Failure (GroupTables V) := do
  let ids ← orUndefined lists[j]?
  let rows ← convertRowsToFp32 kind data ids
  let (table, offsets) ← orUndefined (labelIds rowsSum s.curSize ids (s.table, s.offsets))
  return ⟨table, offsets, s.curSize + ids.length, s.tmpData ++ rows⟩

def trainGroup (data : List R) (scalarInfo groups : List (List ℕ))
    (node : FaissNode (SubIndex V)) (i : ℕ) : Except Failure (FaissNode (SubIndex V)) := do
  let group ← orUndefined groups[i]?
  let lists ← orUndefined (group.mapM fun j => scalarInfo[j]?)
  let partitionSize := (lists.map List.length).sum
  let rowsSum ← orUndefined node.indexRowsSum[i]?
  let indexRowsSum ← orUndefined
    (wr node.indexRowsSum (i + 1) ((rowsSum + partitionSize) % 2 ^ 32))
  let s ← (range lists.length).foldlM (labelList kind data rowsSum lists)
    { table := replicate partitionSize 0, offsets := node.labelToInternalOffset }
  let labels ← orUndefined (wr node.labels i s.table)
  match kind.trainIndex (some s.tmpData) i with
  | some status => .error (.status status "train_index")
  | none =>
    let indexes ← orUndefined (wr node.indexes i (some {}))
    return { node with
      indexes := indexes, labels := labels, indexRowsSum := indexRowsSum,
      labelToInternalOffset := s.offsets }

def trainIndexByScalarInfo (data : List R)
    (scalarInfo groups : List (List ℕ)) (node : FaissNode (SubIndex V)) :
    Except Failure (FaissNode (SubIndex V)) :=
  (range groups.length).foldlM (trainGroup kind data scalarInfo groups)
    { node with
      labelToInternalOffset := resize node.labelToInternalOffset data.length 0
      indexRowsSum := resize node.indexRowsSum (groups.length + 1) 0
      labels := resize node.labels groups.length []
      indexes := resize node.indexes groups.length none }

def trainInternal (sort : StdSort ℕ) (dataset : Dataset R)
    (node : HnswNode V) : Except Failure (HnswNode V) :=
  match dataset.scalarInfoMap with
  | [] => trainWhole node.tmpCombinedScalarIds
  | [(_, scalarInfo)] => do
    let groups ← if 1 < scalarInfo.length then
        orUndefined (combinePartitions sort scalarInfo kind.baseRows)
      else .ok []
    if groups.length ≤ 1 then trainWhole groups
    else do
      let trained ← trainIndexByScalarInfo kind dataset.rows scalarInfo groups node.toFaissNode
      return { trained with tmpCombinedScalarIds := groups }
  | _ :: _ :: _ => .error
    (.status .invalidArgs "vector index build with multiple scalar info is not supported")
where
  /-- `train_index` for index 0. -/
  trainWhole (groups : List (List ℕ)) : Except Failure (HnswNode V) := do
    match kind.trainIndex none 0 with
    | some status => .error (.status status "train_index")
    | none =>
      let indexes ← orUndefined (wr node.indexes 0 (some {}))
      return { node with indexes := indexes, tmpCombinedScalarIds := groups }

def addInPieces (data : List R) (ids : List ℕ) (index : SubIndex V) : Except Failure (SubIndex V) :=
  (range ((ids.length + 4095) / 4096)).foldlM (fun index t => do
    let rows ← convertRowsToFp32 kind data ((ids.drop (4096 * t)).take 4096)
    orUndefined (index.add rows)) index

def addPartialDatasetToIndex (data : List R) (ids : List ℕ)
    (index : SubIndex V) : Except Failure (SubIndex V) :=
  if data.length < ids.length then
    .error (.status .invalidArgs "partial ids size larger than whole dataset size")
  else addInPieces kind data ids index

def addGroup (data : List R) (scalarInfo groups : List (List ℕ))
    (indexes : List (Option (SubIndex V))) (i : ℕ) :
    Except Failure (List (Option (SubIndex V))) := do
  let group ← orUndefined groups[i]?
  let lists ← orUndefined (group.mapM fun j => scalarInfo[j]?)
  let index ← orUndefined indexes[i]?.join
  let index ← (range lists.length).foldlM (fun index j => do
    let ids ← orUndefined lists[j]?
    addPartialDatasetToIndex kind data ids index) index
  orUndefined (wr indexes i (some index))

def addInternal (dataset : Dataset R) (node : HnswNode V) : Except Failure (HnswNode V) :=
  if node.isIndexEmpty then
    .error (.status .emptyIndex "Can not add data to an empty index.")
  else if node.indexes.length = 1 ∧ node.labels ≠ [] then
    .error (.status .invalidArgs "Can not add data after a post-build HNSW layout pass.")
  else match dataset.scalarInfoMap with
    | [] => addWhole
    | [(_, scalarInfo)] =>
      if node.tmpCombinedScalarIds.length ≤ 1 then addWhole
      else do
        let indexes ← (range node.tmpCombinedScalarIds.length).foldlM
          (addGroup kind dataset.rows scalarInfo node.tmpCombinedScalarIds) node.indexes
        return { node with indexes := indexes }
    | _ :: _ :: _ =>
      if node.tmpCombinedScalarIds.length ≤ 1 then addWhole
      else .error
        (.status .invalidArgs "vector index build with multiple scalar info is not supported")
where
  /-- `add_to_index` for index 0. -/
  addWhole : Except Failure (HnswNode V) := do
    let index ← orUndefined node.indexes[0]?.join
    let index ← addInPieces kind dataset.rows (range dataset.rows.length) index
    let indexes ← orUndefined (wr node.indexes 0 (some index))
    return { node with indexes := indexes }

def buildNode (sort : StdSort ℕ) (dataset : Dataset R) :
    Except Failure (HnswNode V) := do
  let node ← trainInternal kind sort dataset { FaissNode.init with }
  addInternal kind dataset node

def getVector (node : FaissNode (SubIndex V)) (id : ℕ) : Option (Option V) :=
  if node.labelToInternalOffset.isEmpty then do
    let index ← node.indexes[0]?.join
    index.storage[id]?.map some
  else do
    let offset ← node.labelToInternalOffset[id]?
    -- `std::lower_bound`, with the `+ 1` in 32 bits
    match node.indexRowsSum.findIdx? ((offset + 1) % 2 ^ 32 ≤ ·) with
    | none => some none
    | some 0 => none
    | some (indexId + 1) => do
      let base ← node.indexRowsSum[indexId]?
      let index ← node.indexes[indexId]?.join
      index.storage[(offset + 2 ^ 32 - base) % 2 ^ 32]?.map some

end Rvanns.Knowhere
