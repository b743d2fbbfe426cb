import Rvanns.Cpp.Returns
import Rvanns.Cpp.Sort
import Rvanns.Faiss.HNSW
import Rvanns.Faiss.Neighbor

/-!
# Searching an HNSW graph

`v2_hnsw_searcher` of `HnswSearcher.h`.
-/

namespace Rvanns.Faiss

open Cpp

structure SearchGraph extends HNSW where
  maxLevel : ℤ
  efSearch : ℕ := 16
  upperBeam : ℤ := 1

/-- What building leaves behind, as far as a search is concerned: the entry point is on the highest
level, and the neighbours of a node on a level are on that level too. -/
structure SearchGraph.WellFormed (g : SearchGraph) : Prop where
  graph : g.toHNSW.WellFormed
  maxLevel_lt : g.maxLevel < g.levels.getD g.entryPoint.toNat 0
  neighbors_on_level : ∀ u level ids, u < g.levels.length → level < g.levels.getD u 0 →
    g.neighborIds u level = some ids → ∀ v ∈ ids, level < g.levels.getD v 0

structure SearchGraph.Empty (g : SearchGraph) : Prop where
  entryPoint_eq : g.entryPoint = -1
  levels_eq : g.levels = []

structure HnswSearcher (D : Type) where
  hnsw : SearchGraph
  qdis : ℕ → D
  isMember : ℕ → Bool
  kAlpha : ℚ
  efSearch : Option ℕ := none
  maxDist : D

namespace HnswSearcher

variable {D : Type} [LinearOrder D] (s : HnswSearcher D)

def ntotal : ℕ := s.hnsw.levels.length

def distance (v : ℕ) : Option D := if v < s.ntotal then some (s.qdis v) else none

structure Nearest (D : Type) where
  node : ℕ
  distance : D

def visitNeighbor (nearest : Nearest D) (v : ℕ) : Option (Nearest D) := do
  let dis ← s.distance v
  return if dis < nearest.distance then ⟨v, dis⟩ else nearest

def greedyTurn (level : ℕ) (prev : Nearest D) : Option (Turn (Nearest D) (Nearest D)) := do
  let ids ← s.hnsw.neighborIds prev.node level
  let nearest ← ids.foldlM s.visitNeighbor prev
  return if nearest.node = prev.node then .done nearest else .next nearest

def greedyUpdateNearest (nearest : Nearest D) (level : ℕ) : Option (Nearest D) :=
  whileLoop (s.greedyTurn level) (s.ntotal + 1) nearest

def greedySearchTopLevels (nearest : Nearest D) : Option (Nearest D) :=
  ((List.range s.hnsw.maxLevel.toNat).reverse.map (· + 1)).foldlM s.greedyUpdateNearest nearest

def descend : Option (Nearest D) := do
  let entry ← (if 0 ≤ s.hnsw.entryPoint then some s.hnsw.entryPoint.toNat else none)
  let dis ← s.distance entry
  s.greedySearchTopLevels ⟨entry, dis⟩

variable {σ : Type} (add : σ → Neighbor D → σ)

/-- What the loop of `evaluate_single_node` changes: the marks, `accumulated_alpha`, the ids and
statuses saved for the next evaluation of distances, and what `func_add_candidate` works on. -/
structure Evaluation (σ : Type) where
  visited : List Bool
  alpha : ℚ
  saved : List (ℕ × NeighborStatus) := []
  candidates : σ

def flush (saved : List (ℕ × NeighborStatus)) (candidates : σ) : Option σ :=
  saved.foldlM
    (fun candidates p => do
      let dis ← s.distance p.1
      return add candidates ⟨p.1, dis, p.2⟩)
    candidates

def save (e : Evaluation σ) (v1 : ℕ) (status : NeighborStatus) : Option (Evaluation σ) :=
  let saved := e.saved ++ [(v1, status)]
  if saved.length = 4 then do
    let candidates ← s.flush add saved e.candidates
    return { e with saved := [], candidates := candidates }
  else return { e with saved := saved }

def evaluateNeighbor (e : Evaluation σ) (v1 : ℕ) : Option (Evaluation σ) := do
  let seen ← e.visited[v1]?
  if seen then return e
  else
    let e := { e with visited := e.visited.set v1 true }
    if s.isMember v1 then s.save add e v1 .valid
    else
      let alpha := e.alpha + s.kAlpha
      if alpha < 1 then return { e with alpha := alpha }
      else s.save add { e with alpha := alpha - 1 } v1 .invalid

def evaluateSingleNode (node level : ℕ) (visited : List Bool) (alpha : ℚ) (candidates : σ) :
    Option (List Bool × ℚ × σ) := do
  let ids ← s.hnsw.neighborIds node level
  let e ← ids.foldlM (s.evaluateNeighbor add)
    { visited := visited, alpha := alpha, candidates := candidates }
  let candidates ← s.flush add e.saved e.candidates
  return (e.visited, e.alpha, candidates)

structure Candidates (D : Type) where
  retset : NeighborSetDoublePopList D
  disqualified : Option (List (Neighbor D)) := none

def above (a b : Neighbor D) : Bool := a.distance < b.distance

variable (Q : StdPriorityQueue (Neighbor D))

def addSearchCandidate (c : Candidates D) (n : Neighbor D) : Candidates D :=
  let (retset, fallen) := c.retset.insert s.maxDist n
  { retset := retset
    disqualified := c.disqualified.map fun heap => Q.pushAll above heap fallen.toList }

structure LevelSearch (D : Type) where
  visited : List Bool
  alpha : ℚ
  candidates : Candidates D

def searchTurn (level : ℕ) (st : LevelSearch D) : Option (Turn (LevelSearch D) (LevelSearch D)) :=
  if st.candidates.retset.hasNext s.maxDist then do
    let (neighbor, retset) ← st.candidates.retset.pop
    let (visited, alpha, candidates) ← s.evaluateSingleNode (s.addSearchCandidate Q) neighbor.id
      level st.visited st.alpha { st.candidates with retset := retset }
    return .next { visited := visited, alpha := alpha, candidates := candidates }
  else some (.done st)

def searchOnALevel (level : ℕ) (st : LevelSearch D) : Option (LevelSearch D) :=
  whileLoop (s.searchTurn Q level) (s.ntotal + 2) st

def neighbor (v : ℕ) (dis : D) : Neighbor D :=
  ⟨v, dis, if s.isMember v then .valid else .invalid⟩

def searchFrom (nearest : Nearest D) (capacity : ℕ+) (visited : List Bool) (alpha : ℚ)
    (disqualified : Option (List (Neighbor D))) : Option (LevelSearch D) := do
  let start := s.neighbor nearest.node nearest.distance
  let retset := ((NeighborSetDoublePopList.new D capacity).insert s.maxDist start).1
  let visited ← wr visited nearest.node true
  s.searchOnALevel Q 0
    { visited := visited, alpha := alpha,
      candidates := { retset := retset, disqualified := disqualified } }

def ef : ℕ := s.efSearch.getD s.hnsw.efSearch

def nCandidates (k : ℕ+) : ℕ+ := ⟨max s.ef k, lt_max_of_lt_right k.2⟩

def populate (k : ℕ) (retset : NeighborSetDoublePopList D) : List (D × ℤ) :=
  let found := (retset.validNs.data.take k).map fun n => (n.distance, (n.id : ℤ))
  found ++ List.replicate (k - found.length) (s.maxDist, -1)

def search (k : ℕ+) (visited : List Bool) (slots : List (D × ℤ)) : Except Fault (List (D × ℤ)) :=
  if s.hnsw.entryPoint = -1 then return slots
  else if s.hnsw.upperBeam ≠ 1 then .error (.thrown "Not implemented")
  else do
    let nearest ← defined s.descend
    let st ← defined (s.searchFrom Q nearest (s.nCandidates k) visited 1 none)
    return s.populate k st.candidates.retset

end HnswSearcher

/-! ### Range search -/

structure RangeHandler (D : Type) where
  threshold : D
  results : List (D × ℤ) := []

def RangeHandler.addResult {D : Type} [LinearOrder D] (rres : RangeHandler D) (dis : D) (idx : ℤ) :
    RangeHandler D :=
  if dis < rres.threshold then { rres with results := rres.results ++ [(dis, idx)] } else rres

namespace HnswSearcher

variable {D : Type} [LinearOrder D] (s : HnswSearcher D) (Q : StdPriorityQueue (Neighbor D))

/-- `n_candidates` of a range search.  A list of capacity 0, of which the last entry is read, is not
modelled; the range of the parameter `ef` begins with 1. -/
def nRangeCandidates : Option ℕ+ := if h : 0 < s.ef then some ⟨s.ef, h⟩ else none

def initialList (visited : List Bool) : Option (List (Neighbor D)) :=
  if s.hnsw.entryPoint = -1 then some []
  else do
    let nearest ← s.descend
    let nCandidates ← s.nRangeCandidates
    let st ← s.searchFrom Q nearest nCandidates visited 1 none
    return st.candidates.retset.validNs.data

structure Flood (D : Type) where
  visited : List Bool
  queue : List (D × ℕ) := []
  rres : RangeHandler D

def Flood.report (f : Flood D) (dis : D) (v : ℕ) : Flood D :=
  { f with queue := f.queue ++ [(dis, v)], rres := f.rres.addResult dis v }

def pickCandidate (radius : D) (f : Flood D) (candidate : Neighbor D) : Option (Flood D) :=
  if candidate.distance < radius then do
    let visited ← wr f.visited candidate.id true
    return Flood.report { f with visited := visited } candidate.distance candidate.id
  else some f

def floodNeighbor (radius : D) (f : Flood D) (ngb : ℤ) : Option (Flood D) := do
  let seen ← rd f.visited ngb
  if seen then return f
  else
    let f := { f with visited := f.visited.set ngb.toNat true }
    if s.isMember ngb.toNat then
      let dis ← s.distance ngb.toNat
      return if dis < radius then f.report dis ngb.toNat else f
    else return f

def floodTurn (radius : D) (f : Flood D) : Option (Turn (Flood D) (Flood D)) :=
  match f.queue with
  | [] => some (.done f)
  | current :: rest => do
    let slots ← s.hnsw.neighborSlots current.2 0
    let f ← (slots.takeWhile (· ≠ -1)).foldlM (s.floodNeighbor radius) { f with queue := rest }
    return .next f

def flood (radius : D) (candidates : List (Neighbor D)) (rres : RangeHandler D) :
    Option (Flood D) := do
  let f ← candidates.reverse.foldlM (pickCandidate radius)
    { visited := List.replicate s.ntotal false, rres := rres }
  whileLoop (s.floodTurn radius) (s.ntotal + 1) f

def rangeSearch (radius : D) (visited : List Bool) (rres : RangeHandler D) :
    Except Fault (RangeHandler D) :=
  if s.hnsw.entryPoint = -1 then return rres
  else if s.hnsw.upperBeam ≠ 1 then .error (.thrown "Not implemented")
  else do
    let candidates ← defined (s.initialList Q visited)
    let f ← defined (s.flood radius candidates rres)
    return f.rres

end HnswSearcher

end Rvanns.Faiss
