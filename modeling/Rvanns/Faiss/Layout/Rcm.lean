import Rvanns.Cpp.Sort
import Rvanns.Cpp.Traversal
import Rvanns.Faiss.HNSW

/-!
# The layouts of a traversal

`generateBFSPermutation`, and `generateRCMPermutation`, which works on the undirected graph of
level 0.
-/

namespace Rvanns.Faiss

open Cpp

def bfsTraversal (h : HNSW) (level : ℕ) (s : Traversal) (start : ℕ) : Option Traversal := do
  let seen ← s.visited[start]?
  if seen then return s
  else
    let begun : Traversal := { s with visited := s.visited.set start true, queue := [start] }
    begun.run fun _ node => h.neighborIds node level

def generateBFSPermutation (h : HNSW) (ntotal level : ℕ) : Option (List ℕ) := do
  let fresh : Traversal := ⟨List.replicate ntotal false, [], []⟩
  let s ← if 0 ≤ h.entryPoint then bfsTraversal h level fresh h.entryPoint.toNat else none
  let s' ← (List.range ntotal).foldlM
    (fun s i => do
      let seen ← s.visited[i]?
      if seen then return s else bfsTraversal h level s i)
    s
  return s'.out

def addUndirected (i : ℕ) (graph : List (List ℕ)) (neighbor : ℕ) : Option (List (List ℕ)) := do
  let graph ← pushBackAt graph i neighbor
  if neighbor = i then return graph else pushBackAt graph neighbor i

/-- `build_undirected_level0_graph`. -/
def buildUndirectedLevel0Graph (S : StdSort ℕ) (h : HNSW) (ntotal : ℕ) :
    Option (List (List ℕ)) := do
  let graph ← (List.range ntotal).foldlM
    (fun graph i => do
      let ids ← h.neighborIds i 0
      ids.foldlM (addUndirected i) graph)
    (List.replicate ntotal [])
  return graph.map fun neighbors => unique (S.run (· < ·) neighbors)

variable (graph : List (List ℕ))

def degree (i : ℕ) : ℕ := (graph.getD i []).length

def degreeThenId (lhs rhs : ℕ) : Bool :=
  if degree graph lhs ≠ degree graph rhs then degree graph lhs < degree graph rhs else lhs < rhs

def chooseLowDegreeSeed (componentVisited : List Bool) : Option (Option ℕ) :=
  (List.range graph.length).foldlM
    (fun best i => do
      let seen ← componentVisited[i]?
      if seen then return best
      else
        match best with
        | none => return some i
        | some b => return if degree graph i < degree graph b then some i else best)
    none

structure DistanceSearch where
  distance : List ℤ
  queue : List ℕ
  eccentricity : ℤ
  farthest : List ℕ

def measure (componentVisited : List Bool) (nodeDistance : ℤ) (s : DistanceSearch) (next : ℕ) :
    Option DistanceSearch := do
  let seen ← componentVisited[next]?
  if seen then return s
  else
    let d ← s.distance[next]?
    if 0 ≤ d then return s
    else return { s with
      distance := s.distance.set next (nodeDistance + 1)
      queue := s.queue ++ [next] }

def distanceTurn (componentVisited : List Bool) (s : DistanceSearch) :
    Option (Turn DistanceSearch DistanceSearch) :=
  match s.queue with
  | [] => some (.done s)
  | node :: rest => do
    let nodeDistance ← s.distance[node]?
    -- a node farther away than all before it empties the list of the farthest ones
    let (eccentricity, farthest) :=
      if s.eccentricity < nodeDistance then (nodeDistance, []) else (s.eccentricity, s.farthest)
    let farthest := if nodeDistance = eccentricity then farthest ++ [node] else farthest
    let neighbors ← graph[node]?
    let s' ← neighbors.foldlM (measure componentVisited nodeDistance)
      ⟨s.distance, rest, eccentricity, farthest⟩
    return .next s'

def leastDegree (first : ℕ) (farthest : List ℕ) : ℕ :=
  farthest.foldl
    (fun seed candidate => if degree graph candidate < degree graph seed then candidate else seed)
    first

def peripheralTurn (componentVisited : List Bool) (s : ℕ × ℤ) :
    Option (Turn (ℕ × ℤ) ℕ) := do
  let (current, previousEccentricity) := s
  let distance ← wr (List.replicate graph.length (-1)) current 0
  let found ← whileLoop (distanceTurn graph componentVisited) (graph.length + 1)
    ⟨distance, [current], 0, []⟩
  match found.farthest with
  | [] => return .done current
  | first :: others =>
    if found.eccentricity ≤ previousEccentricity then return .done current
    else
      let nextSeed := leastDegree graph first others
      if nextSeed = current then return .done current
      else return .next (nextSeed, found.eccentricity)

def choosePseudoPeripheralSeed (start : ℕ) (componentVisited : List Bool) : Option ℕ :=
  whileLoop (peripheralTurn graph componentVisited) (graph.length + 2) (start, -1)

/-- The neighbours that have no mark yet, sorted. -/
def rcmNeighbors (S : StdSort ℕ) (graph : List (List ℕ)) (marks : List Bool) (node : ℕ) :
    Option (List ℕ) := do
  let neighbors ← graph[node]?
  let buffer ← neighbors.foldlM
    (fun buffer neighbor => do
      let seen ← marks[neighbor]?
      return if seen then buffer else buffer ++ [neighbor])
    []
  return S.run (degreeThenId graph) buffer

/-- One component. -/
def rcmTurn (S : StdSort ℕ) (n : ℕ) (graph : List (List ℕ)) (s : List Bool × List ℕ) :
    Option (Turn (List Bool × List ℕ) (List ℕ)) := do
  let (componentVisited, perm) := s
  if perm.length < n then
    match ← chooseLowDegreeSeed graph componentVisited with
    | none => return .done perm
    | some start =>
      let seed ← choosePseudoPeripheralSeed graph start componentVisited
      let marks ← wr componentVisited seed true
      let t ← Traversal.run (rcmNeighbors S graph) ⟨marks, [seed], []⟩
      return .next (t.visited, perm ++ t.out.reverse)
  else return .done perm

def generateRCMPermutation (S : StdSort ℕ) (h : HNSW) (ntotal : ℕ) : Option (List ℕ) :=
  if ntotal = 0 then some []
  else do
    let graph ← buildUndirectedLevel0Graph S h ntotal
    whileLoop (rcmTurn S ntotal graph) (ntotal + 1) (List.replicate ntotal false, [])

end Rvanns.Faiss
