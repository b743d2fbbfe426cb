import Rvanns.Cpp.Float
import Rvanns.Cpp.Returns
import Rvanns.Cpp.Sort

/-!
# The sparse inverted index

`InvertedIndex` of `sparse_inverted_index.h`: adding rows, and the distances of all rows or of one.
-/

namespace Rvanns.Knowhere.Sparse

open Cpp

/-! ### `sparse_utils.h` -/

section

variable {S : Type} [FloatOps S]

inductive SparseMetricType where
  | ip
  | bm25
deriving DecidableEq, Repr

def tableT (n : ℕ) : ℕ := n % 2 ^ 32

abbrev SparseRow (S : Type) := List (ℕ × S)

def SparseRow.Sorted (row : SparseRow S) : Prop := row.Pairwise fun a b => a.1 < b.1

abbrev DocValueComputer (S : Type) := S → S → S

def getDocValueOriginalComputer : DocValueComputer S := fun right _ => right

def getDocValueBM25Computer (k1 b avgdl : S) : DocValueComputer S := fun tf docLen =>
  tf * (k1 + 1) / (tf + k1 * (1 - b + b * (docLen / avgdl)))

def dotLoop (computer : DocValueComputer S) (otherSum : S) :
    SparseRow S → SparseRow S → S → S
  | (i, x) :: left, (j, y) :: right, productSum =>
    if i < j then dotLoop computer otherSum left ((j, y) :: right) productSum
    else if j < i then dotLoop computer otherSum ((i, x) :: left) right productSum
    else dotLoop computer otherSum left right (productSum + x * computer y otherSum)
  | [], _, productSum => productSum
  | _ :: _, [], productSum => productSum
termination_by left right => left.length + right.length

def SparseRow.dot (row other : SparseRow S) : S :=
  dotLoop getDocValueOriginalComputer 0 row other 0

structure GrowableVector (α : Type) where
  data : List α := []
  capacity : Option ℕ := none
deriving DecidableEq

namespace GrowableVector

variable {α : Type}

def size (v : GrowableVector α) : ℕ := v.data.length

def emplaceBack (v : GrowableVector α) (a : α) : Except Fault (GrowableVector α) :=
  if v.capacity = some v.size then .error (.thrown "emplace_back on a full GrowableVectorView")
  else .ok { v with data := v.data ++ [a] }

def modifyAt (v : GrowableVector α) (i : ℕ) (f : α → Except Fault α) :
    Except Fault (GrowableVector α) := do
  let a ← defined v.data[i]?
  let a ← f a
  return { v with data := v.data.set i a }

end GrowableVector

end

inductive InvertedIndexAlgo where
  | taatNaive
  | daatWand
  | daatMaxscore
deriving DecidableEq, Repr

def InvertedIndexAlgo.daat (algo : InvertedIndexAlgo) : Bool := algo ≠ .taatNaive

inductive QType where
  | fp32
  | uint16
deriving DecidableEq, Repr

inductive Stored (S : Type) where
  | fp32 (val : S)
  | uint16 (val : ℕ)
deriving DecidableEq

structure BM25Params (S : Type) where
  k1 : S
  b : S
  maxScoreComputer : DocValueComputer S
  rowSums : GrowableVector S := {}
  rowSumsSpans : List S := []

structure InvertedIndex (S : Type) where
  qtype : QType
  algo : InvertedIndexAlgo
  mmapped : Bool := false
  metricType : SparseMetricType
  bm25Params : BM25Params S
  dimMap : List (ℕ × ℕ) := []
  nrInnerDims : ℕ := 0
  invertedIndexIds : GrowableVector (GrowableVector ℕ) := {}
  invertedIndexVals : GrowableVector (GrowableVector (Stored S)) := {}
  idsSpans : List (List ℕ) := []
  valsSpans : List (List (Stored S)) := []
  maxScoreInDim : GrowableVector S := {}
  maxScoreSpans : List S := []
  nRows : ℕ := 0
  maxDim : ℕ := 0
  nextDimId : ℕ := 0
  datasetNnzStats : List ℕ := []
  postingListLengthStats : List ℕ := []

variable {S : Type} [FloatOps S]

def Stored.toFloat : Stored S → S
  | .fp32 val => val
  | .uint16 val => FloatOps.ofUnsigned val

def BM25Params.new (k1 b avgdl : S) : BM25Params S where
  k1 := k1
  b := b
  maxScoreComputer := getDocValueBM25Computer k1 b avgdl

namespace InvertedIndex

def create (mmapped : Bool) (metricType : SparseMetricType) (algo : InvertedIndexAlgo)
    (k1 b avgdl : S) : InvertedIndex S :=
  let capacity := if mmapped then some 0 else none
  { qtype := if metricType = .bm25 then .uint16 else .fp32
    algo := algo
    mmapped := mmapped
    metricType := metricType
    bm25Params :=
      { BM25Params.new k1 b (FloatOps.max avgdl 1) with rowSums := { capacity := capacity } }
    invertedIndexIds := { capacity := capacity }
    invertedIndexVals := { capacity := capacity }
    maxScoreInDim := { capacity := capacity } }

def getQuantVal (qtype : QType) (val : S) : Stored S :=
  match qtype with
  | .fp32 => .fp32 val
  | .uint16 =>
    if FloatOps.le (FloatOps.ofUnsigned 65535) val then .uint16 65535
    else if FloatOps.le val 0 then .uint16 0
    else .uint16 (FloatOps.toUnsigned val)

def rowSum (row : SparseRow S) : S := row.foldl (fun sum e => sum + e.2) 0

variable (idx : InvertedIndex S)

def dimId (dim : ℕ) : Except Fault (InvertedIndex S × ℕ) :=
  match idx.dimMap.lookup dim with
  | some id => .ok (idx, id)
  | none =>
    if idx.mmapped then .error (.thrown "unexpected vector dimension in mmapped InvertedIndex")
    else do
      let ids ← idx.invertedIndexIds.emplaceBack {}
      let vals ← idx.invertedIndexVals.emplaceBack {}
      let maxScore ← if idx.algo.daat then idx.maxScoreInDim.emplaceBack 0
        else pure idx.maxScoreInDim
      let idx' : InvertedIndex S :=
        { idx with
          dimMap := idx.dimMap ++ [(dim, idx.nextDimId)]
          nextDimId := idx.nextDimId + 1
          invertedIndexIds := ids
          invertedIndexVals := vals
          maxScoreInDim := maxScore }
      return (idx', idx.nextDimId)

def addPosting (vecId : ℕ) (idx : InvertedIndex S) (e : ℕ × S) : Except Fault (InvertedIndex S) :=
  if FloatOps.eq e.2 0 then return idx
  else do
    let (idx, id) ← idx.dimId e.1
    let ids ← idx.invertedIndexIds.modifyAt id fun plist => plist.emplaceBack vecId
    let vals ← idx.invertedIndexVals.modifyAt id fun plist =>
      plist.emplaceBack (getQuantVal idx.qtype e.2)
    return { idx with invertedIndexIds := ids, invertedIndexVals := vals }

def valueScore (rowSum val : S) : S :=
  if idx.metricType = .bm25 then idx.bm25Params.maxScoreComputer val rowSum else val

def updateMaxScore (rowSum : S) (idx : InvertedIndex S) (e : ℕ × S) :
    Except Fault (InvertedIndex S) :=
  if FloatOps.eq e.2 0 then return idx
  else
    match idx.dimMap.lookup e.1 with
    | none => .error (.thrown "unexpected vector dimension in InvertedIndex")
    | some id => do
      let maxScore ← idx.maxScoreInDim.modifyAt id fun score =>
        .ok (FloatOps.max score (idx.valueScore rowSum e.2))
      return { idx with maxScoreInDim := maxScore }

def updateMaxScores (row : SparseRow S) : Except Fault (InvertedIndex S) :=
  if idx.algo.daat then row.foldlM (updateMaxScore (rowSum row)) idx else return idx

def appendRowSum (row : SparseRow S) : Except Fault (InvertedIndex S) :=
  if idx.metricType = .bm25 then do
    let rowSums ← idx.bm25Params.rowSums.emplaceBack (rowSum row)
    return { idx with bm25Params := { idx.bm25Params with rowSums := rowSums } }
  else return idx

def addRowToIndex (row : SparseRow S) (vecId : ℕ) :
    Except Fault (InvertedIndex S) := do
  let idx ← row.foldlM (addPosting vecId) idx
  let idx ← updateMaxScores
    { idx with datasetNnzStats := idx.datasetNnzStats ++ [tableT row.length] } row
  idx.appendRowSum row

def addRows (first : ℕ) (rows : List (SparseRow S)) : Except Fault (InvertedIndex S) :=
  rows.zipIdx.foldlM (fun idx p => idx.addRowToIndex p.1 (tableT (first + p.2))) idx

def mapSpans : Except Fault (InvertedIndex S) := do
  let nrInnerDims := tableT idx.dimMap.length
  let ids ← defined ((List.range nrInnerDims).mapM (idx.invertedIndexIds.data[·]?))
  let vals ← defined ((List.range nrInnerDims).mapM (idx.invertedIndexVals.data[·]?))
  return { idx with
    nrInnerDims := nrInnerDims
    postingListLengthStats := ids.map fun plist => tableT plist.size
    idsSpans := ids.map (·.data)
    valsSpans := vals.map (·.data)
    maxScoreSpans := if 0 < idx.maxScoreInDim.size then idx.maxScoreInDim.data
      else idx.maxScoreSpans
    bm25Params := if idx.metricType = .bm25 then
        { idx.bm25Params with rowSumsSpans := idx.bm25Params.rowSums.data }
      else idx.bm25Params }

def add (rows : List (SparseRow S)) (dim : ℤ) : Except Fault (InvertedIndex S) :=
  if idx.mmapped then .error (.thrown "mmapped InvertedIndex does not support Add")
  else do
    let idx' : InvertedIndex S := { idx with maxDim := max idx.maxDim (dim % 2 ^ 64).toNat }
    let idx' ← idx'.addRows idx.nRows rows
    mapSpans { idx' with nRows := idx.nRows + rows.length }

def getThreshold (values : List S) (dropRatio : S) : Option S :=
  let dropCount := FloatOps.toUnsigned (dropRatio * FloatOps.ofUnsigned values.length)
  if dropCount = 0 then some 0 else (insertionSortBy FloatOps.lt values)[dropCount]?

def parseQuery (query : SparseRow S) (dropRatioSearch : S) :
    Option (List (ℕ × S)) := do
  let qThreshold ← if FloatOps.eq dropRatioSearch 0 then some 0
    else getThreshold (query.map fun e => FloatOps.abs e.2) dropRatioSearch
  return query.filterMap fun e =>
    match idx.dimMap.lookup e.1 with
    | none => none
    | some id => if FloatOps.lt (FloatOps.abs e.2) qThreshold then none else some (id, e.2)

def docLength (docId : ℕ) : Option S :=
  if idx.metricType = .bm25 then idx.bm25Params.rowSumsSpans[docId]? else some 0

def addScore (computer : DocValueComputer S) (weight : S)
    (scores : List S) (p : ℕ × Stored S) : Option (List S) := do
  let valSum ← idx.docLength p.1
  let score ← scores[p.1]?
  return scores.set p.1 (score + weight * computer p.2.toFloat valSum)

def plist (id : ℕ) : Option (List (ℕ × Stored S)) := do
  let ids ← idx.idsSpans[id]?
  let vals ← idx.valsSpans[id]?
  -- the values are read at the places of the ids
  if ids.length ≤ vals.length then some (ids.zip vals) else none

def computeAllDistances (qVec : List (ℕ × S)) (computer : DocValueComputer S) : Option (List S) :=
  qVec.foldlM
    (fun scores q => do
      let plist ← idx.plist q.1
      plist.foldlM (idx.addScore computer q.2) scores)
    (List.replicate idx.nRows 0)

def getAllDistances (query : SparseRow S) (dropRatioSearch : S)
    (bitset : Option (ℕ → Bool)) (computer : DocValueComputer S) : Option (List S) :=
  if query.length = 0 then some []
  else do
    let qVec ← idx.parseQuery query dropRatioSearch
    let distances ← idx.computeAllDistances qVec computer
    return match bitset with
      | none => distances
      | some test => distances.mapIdx fun i dis => if test i then 0 else dis

/-- The body of the loop of `GetRawDistance`.  `std::lower_bound` finds the first id that is not
below the row's, in `table_t`; the id is then compared with the label. -/
def addRawScore (vecId : ℕ) (computer : DocValueComputer S) (distance : S) (e : ℕ × S) : Option S :=
  match idx.dimMap.lookup e.1 with
  | none => some distance
  | some id => do
    let plist ← idx.plist id
    match plist.find? fun p => decide (tableT vecId ≤ p.1) with
    | none => return distance
    | some p =>
      if p.1 = vecId then do
        let valSum ← idx.docLength vecId
        return distance + e.2 * computer p.2.toFloat valSum
      else return distance

def getRawDistance (vecId : ℕ) (query : SparseRow S) (computer : DocValueComputer S) : Option S :=
  query.foldlM (idx.addRawScore vecId computer) 0

end InvertedIndex

end Rvanns.Knowhere.Sparse
