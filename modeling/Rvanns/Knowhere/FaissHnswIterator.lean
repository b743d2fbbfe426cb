import Rvanns.Faiss.HnswSearcher
import Rvanns.Knowhere.BitsetView
import Rvanns.Knowhere.IndexIterator
import Rvanns.Knowhere.RangeSearch

/-!
# Iterating over an HNSW graph

`FaissHnswIterator` of `faiss_hnsw.cc`, a subclass of `IndexIterator`.
-/

namespace Rvanns.Knowhere

open Cpp Faiss

structure FaissHnswIterator (F : Type) where
  hnsw : SearchGraph
  distance : ℕ → F
  isSimilarityMetric : Bool
  labels : Option (List ℕ) := none
  bitset : BitsetView
  ef : ℕ+
  maxDist : F

namespace FaissHnswIterator

variable {F : Type} [LinearOrder F] [Neg F] (index : FaissHnswIterator F)

def storageDistance (v : ℕ) : F :=
  if index.isSimilarityMetric then -index.distance v else index.distance v

def isMember (v : ℕ) : Bool := index.bitset.empty || !index.bitset.test v

def searcher : HnswSearcher F where
  hnsw := index.hnsw
  qdis := index.storageDistance
  isMember := index.isMember
  kAlpha := 1
  efSearch := some index.ef
  maxDist := index.maxDist

structure Workspace (F : Type) where
  visitedNodes : List Bool
  accumulatedAlpha : ℚ
  initialSearchDone : Bool := false
  toVisit : List (Neighbor F) := []

def floatMax : ℚ := (2 ^ 24 - 1) * 2 ^ 104

def filterThreshold : ℚ := 15602811 / 2 ^ 24

def workspace : Workspace F where
  visitedNodes := List.replicate index.searcher.ntotal false
  accumulatedAlpha :=
    if index.searcher.ntotal * filterThreshold ≤ index.bitset.count then floatMax else 1

variable (Q : StdPriorityQueue (Neighbor F))

def firstBatch (w : Workspace F) : Option (List (Neighbor F) × Workspace F) :=
  if index.hnsw.entryPoint = -1 then some ([], { w with initialSearchDone := true })
  else do
    let nearest ← index.searcher.descend
    let st ← index.searcher.searchFrom Q nearest index.ef w.visitedNodes w.accumulatedAlpha
      (some w.toVisit)
    return (st.candidates.retset.validNs.data,
      { w with
        visitedNodes := st.visited
        initialSearchDone := true
        toVisit := st.candidates.disqualified.getD [] })

def visitTurn (w : Workspace F) : Option (Turn (Workspace F) (List (Neighbor F) × Workspace F)) :=
  match Q.pop HnswSearcher.above w.toVisit with
  | none => some (.done ([], w))
  | some (top, rest) => do
    let (visited, alpha, toVisit) ← index.searcher.evaluateSingleNode (Q.push HnswSearcher.above)
      top.id 0 w.visitedNodes w.accumulatedAlpha rest
    let w := { w with visitedNodes := visited, accumulatedAlpha := alpha, toVisit := toVisit }
    return if index.isMember top.id then .done ([top], w) else .next w

def laterBatch (w : Workspace F) : Option (List (Neighbor F) × Workspace F) :=
  whileLoop (index.visitTurn Q) (w.toVisit.length + w.visitedNodes.length + 1) w

def label (v : ℕ) : Option ℕ :=
  match index.labels with
  | none => some v
  | some labels => labels[v]?

def toDistId (n : Neighbor F) : Option (DistId F) :=
  (index.label n.id).map fun id : ℕ =>
    ⟨id, if index.isSimilarityMetric then -n.distance else n.distance⟩

def nextBatch (w : Workspace F) : Except Fault (List (DistId F) × Workspace F) := do
  let (dists, w) ← defined (if w.initialSearchDone then index.laterBatch Q w
    else index.firstBatch Q w)
  let batch ← defined (dists.mapM index.toDistId)
  return (batch, w)

def iterator : IndexIterator F (Workspace F) := { source := index.workspace }

end FaissHnswIterator

/-! ### Range search -/

section

variable {F B : Type} [LinearOrder F] [Neg F]

def IndexIterator.cursor (heap : StdPriorityQueue (DistId F)) (params : IteratorParams)
    (nextBatch : B → Except Fault (List (DistId F) × B)) (rawDistance : ℤ → F) (fuel : ℕ) :
    Cursor (DistId F) where
  State := IndexIterator F B
  hasNext := IndexIterator.hasNext heap params nextBatch rawDistance
  next := IndexIterator.next heap params nextBatch rawDistance fuel

/-- What `AnnIterator` makes the iterator of a query from.  The ratio is 0 unless the index refines;
`rawDistance` is the distance that `qdis_refine` computes from the raw data. -/
structure HnswQuery (F : Type) extends FaissHnswIterator F where
  refineRatio : ℚ
  round : ℚ → ℚ
  rawDistance : ℤ → F

namespace HnswQuery

variable (heap : StdPriorityQueue (DistId F)) (toVisit : StdPriorityQueue (Faiss.Neighbor F))
  (query : HnswQuery F)

/-- What the constructor gives to the superclass: `retain_iterator_order` is not passed on. -/
def params : IteratorParams where
  largerIsCloser := query.isSimilarityMetric
  refineRatio := query.refineRatio
  round := query.round

def annIterator : AnnIterator F where
  toCursor := IndexIterator.cursor heap query.params (query.nextBatch toVisit) query.rawDistance 0
  state := query.iterator

end HnswQuery

def hnswRangeSearch (heap : StdPriorityQueue (DistId F))
    (toVisit : StdPriorityQueue (Faiss.Neighbor F)) (bounds : StdPriorityQueue F)
    (cfg : RangeConfig F) (fuel : ℕ) (queries : List (HnswQuery F)) :
    Except Fault (Except SearchError (RangeSearchResult F)) :=
  rangeSearch bounds cfg fuel queries.length
    (.ok (queries.map (·.annIterator heap toVisit)))

end

end Rvanns.Knowhere
