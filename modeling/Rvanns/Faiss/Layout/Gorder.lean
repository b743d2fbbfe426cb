import Rvanns.Faiss.HNSW
import Rvanns.Faiss.Layout.UnitHeap

/-!
# The Gorder layout

`generateGorderPermutation` places one node after the other.
-/

namespace Rvanns.Faiss

open Cpp List

structure GorderGraph where
  outGraph : List (List ℕ)
  inGraph : List (List ℕ)
  outdegree : List ℕ
  hugevertex : ℕ

def addEdges (S : StdSort ℕ) (h : HNSW) (s : List (List ℕ) × List (List ℕ)) (i : ℕ) :
    Option (List (List ℕ) × List (List ℕ)) := do
  let ids ← h.neighborIds i 0
  let (outGraph, inGraph) ← ids.foldlM
    (fun s v => do
      let outGraph ← pushBackAt s.1 i v
      let inGraph ← pushBackAt s.2 v i
      return (outGraph, inGraph))
    s
  let outGraph ← modifyAt outGraph i (S.run (· < ·))
  return (outGraph, inGraph)

def countIndegrees (outGraph : List (List ℕ)) (n : ℕ) : Option (List ℕ) :=
  (range n).foldlM
    (fun indegree i => do
      let row ← outGraph[i]?
      row.foldlM (fun indegree v => modifyAt indegree v (· + 1)) indegree)
    (replicate n 0)

def setKeys (indegree : List ℕ) (h : UnitHeap) (i : ℕ) : Option UnitHeap := do
  let d ← indegree[i]?
  let cells ← modifyAt h.linkedList i fun e => { e with key := d }
  let update ← wr h.update i (some (-d))
  return { h with linkedList := cells, update := update }

structure SeedSearch where
  unitheap : UnitHeap
  tmpindex : ℕ
  tmpweight : ℤ
  zero : List ℕ

def seedTurn (indegree outdegree : List ℕ) (s : SeedSearch) (i : ℕ) : Option SeedSearch := do
  let din ← indegree[i]?
  let dout ← outdegree[i]?
  if s.tmpweight < din then return { s with tmpweight := din, tmpindex := i }
  else if din + dout = 0 then do
    let unitheap ← (s.unitheap.mark i >>= fun h => h.deleteElement i)
    return { s with zero := s.zero ++ [i], unitheap := unitheap }
  else return s

namespace GorderGraph

variable (g : GorderGraph)

def outShare (v : ℕ) : Option (List ℕ) := do
  let d ← g.outdegree[v]?
  if d ≤ g.hugevertex then g.outGraph[v]? else some []

def seedVia (h : UnitHeap) (u : ℕ) : Option UnitHeap := do
  let d ← g.outdegree[u]?
  if d ≤ g.hugevertex then
    let h ← h.raise u
    if 1 < d then
      let row ← g.outGraph[u]?
      row.foldlM UnitHeap.raise h
    else return h
  else return h

structure Counting where
  unitheap : UnitHeap
  popvexist : List Bool

/-- An in-neighbour `u` of the node that leaves the window while `v` enters it.  If `u` is an
in-neighbour of `v` too, its out-neighbours keep their count, and `u` gets a mark instead. -/
def popVia (v : ℕ) (s : Counting) (u : ℕ) : Option Counting := do
  let d ← g.outdegree[u]?
  if d ≤ g.hugevertex then
    let h ← s.unitheap.decrementKey u
    if 1 < d then
      let row ← g.outGraph[u]?
      -- `std::binary_search` in a sorted row
      if v ∈ row then
        let marks ← wr s.popvexist u true
        return ⟨h, marks⟩
      else
        let h ← row.foldlM UnitHeap.decrementKey h
        return ⟨h, s.popvexist⟩
    else return ⟨h, s.popvexist⟩
  else return s

def pushVia (s : Counting) (u : ℕ) : Option Counting := do
  let d ← g.outdegree[u]?
  if d ≤ g.hugevertex then
    let h ← s.unitheap.raise u
    let marked ← s.popvexist[u]?
    if marked then
      return ⟨h, s.popvexist.set u false⟩
    else if 1 < d then
      let row ← g.outGraph[u]?
      let h ← row.foldlM UnitHeap.raise h
      return ⟨h, s.popvexist⟩
    else return ⟨h, s.popvexist⟩
  else return s

def leaveWindow (v popv : ℕ) (s : Counting) : Option Counting := do
  let share ← g.outShare popv
  let h ← share.foldlM UnitHeap.decrementKey s.unitheap
  let row ← g.inGraph[popv]?
  row.foldlM (g.popVia v) ⟨h, s.popvexist⟩

def enterWindow (v : ℕ) (s : Counting) : Option Counting := do
  let share ← g.outShare v
  let h ← share.foldlM UnitHeap.raise s.unitheap
  let row ← g.inGraph[v]?
  row.foldlM g.pushVia ⟨h, s.popvexist⟩

def window : ℕ := 5

def slideWindow (order : List ℕ) (count v : ℕ) (s : Counting) : Option Counting :=
  if window ≤ count then do
    let popv ← order[count - window]?
    g.leaveWindow v popv s
  else some s

def placeTurn (s : Counting × List ℕ) (count : ℕ) :
    Option (Counting × List ℕ) := do
  let (v, h) ← s.1.unitheap.extractMax
  let order := s.2 ++ [v]
  let h ← h.mark v
  let popped ← g.slideWindow order count v ⟨h, s.1.popvexist⟩
  let pushed ← g.enterWindow v popped
  return (pushed, order)

def placeFirst (h : UnitHeap) (tmpindex : ℕ) : Option UnitHeap := do
  let h ← (h.mark tmpindex >>= fun h => h.deleteElement tmpindex)
  let row ← g.inGraph[tmpindex]?
  let h ← row.foldlM g.seedVia h
  let share ← g.outShare tmpindex
  share.foldlM UnitHeap.raise h

end GorderGraph

def generateGorderPermutation (S : StdSort ℕ) (h : HNSW) (ntotal : ℕ) : Option (List ℕ) :=
  if ntotal = 0 then some []
  else if ntotal = 1 then some [0]
  else do
    let (outGraph, inGraph) ← (range ntotal).foldlM (addEdges S h)
      (replicate ntotal [], replicate ntotal [])
    let indegree ← countIndegrees outGraph ntotal
    let g : GorderGraph := ⟨outGraph, inGraph, outGraph.map List.length, Nat.sqrt ntotal⟩
    let unitheap ← (range ntotal).foldlM (setKeys indegree) (UnitHeap.create ntotal)
    let unitheap ← unitheap.reConstruct S
    let seed ← (range ntotal).foldlM (seedTurn indegree g.outdegree) ⟨unitheap, 0, -1, []⟩
    let unitheap ← g.placeFirst seed.unitheap seed.tmpindex
    let placed ← (range (ntotal - 1 - seed.zero.length)).foldlM
      (fun s i => g.placeTurn s (i + 1))
      (⟨unitheap, replicate ntotal false⟩, [seed.tmpindex])
    -- the nodes without edges go before the last node
    let order := placed.2
    return order.take (order.length - 1) ++ seed.zero ++ order.drop (order.length - 1)

end Rvanns.Faiss
