import Rvanns.Faiss.Layout.Rcm

/-!
# The Rabbit layout

`generateRabbitOrderPermutation` merges communities of nodes.
-/

namespace Rvanns.Faiss

open Cpp List

/-- `struct RabbitCommunity`. -/
structure RabbitCommunity (F : Type) where
  parent : ℕ
  members : List ℕ
  strength : F
  active : Bool

section FindRoot

variable {F : Type}

def climbTurn (communities : List (RabbitCommunity F)) (root : ℕ) : Option (Turn ℕ ℕ) :=
  communities[root]?.map fun c => if c.parent ≠ root then .next c.parent else .done root

def shortenTurn (root : ℕ) (s : List (RabbitCommunity F) × ℕ) :
    Option (Turn (List (RabbitCommunity F) × ℕ) (List (RabbitCommunity F))) :=
  s.1[s.2]?.map fun c =>
    if c.parent ≠ s.2 then .next (s.1.set s.2 { c with parent := root }, c.parent) else .done s.1

/-- `rabbit_find_root`. -/
def rabbitFindRoot (communities : List (RabbitCommunity F)) (node : ℕ) :
    Option (ℕ × List (RabbitCommunity F)) := do
  let root ← whileLoop (climbTurn communities) (communities.length + 1) node
  let shortened ← whileLoop (shortenTurn root) (communities.length + 1) (communities, node)
  return (root, shortened)

end FindRoot

/-- `rabbit_emit_members`, for one member. -/
def rabbitEmit (s : List Bool × List ℕ) (member : ℕ) : Option (List Bool × List ℕ) := do
  let seen ← s.1[member]?
  return if seen then s else (s.1.set member true, s.2 ++ [member])

variable {F : Type} [LinearOrder F] [Zero F] [One F] [Add F] [Sub F] [Mul F] [Div F] [NatCast F]

structure EdgeCount (F : Type) where
  communities : List (RabbitCommunity F)
  edgeWeights : List F
  touchedRoots : List ℕ

def countEdge (sourceRoot : ℕ) (s : EdgeCount F) (neighbor : ℕ) : Option (EdgeCount F) := do
  let (neighborRoot, communities) ← rabbitFindRoot s.communities neighbor
  let c ← communities[neighborRoot]?
  if neighborRoot = sourceRoot ∨ !c.active then return { s with communities := communities }
  else
    let weight ← s.edgeWeights[neighborRoot]?
    return {
      communities := communities
      edgeWeights := s.edgeWeights.set neighborRoot (weight + 1)
      touchedRoots :=
        if weight = 0 then s.touchedRoots ++ [neighborRoot] else s.touchedRoots }

/-- The edges of all members. -/
def countEdges (graph : List (List ℕ)) (sourceRoot : ℕ) (members : List ℕ) (s : EdgeCount F) :
    Option (EdgeCount F) :=
  members.foldlM
    (fun s member => do
      let neighbors ← graph[member]?
      neighbors.foldlM (countEdge sourceRoot) s)
    s

def betterTarget (s : EdgeCount F) (sourceStrength totalEdgeWeight : F) (best : Option ℕ × F)
    (targetRoot : ℕ) : Option (Option ℕ × F) := do
  let edgeWeight ← s.edgeWeights[targetRoot]?
  let c ← s.communities[targetRoot]?
  let score := edgeWeight - (sourceStrength * c.strength) / totalEdgeWeight
  let ahead :=
    best.2 < score ∨ (score = best.2 ∧ ∃ b ∈ best.1, targetRoot < b)
  return if ahead then (some targetRoot, score) else best

variable (communities : List (RabbitCommunity F))

def mergeInto (source target : ℕ) :
    Option (List (RabbitCommunity F)) := do
  let s ← communities[source]?
  let linked := communities.set source { s with parent := target }
  let t ← linked[target]?
  let grown := linked.set target
    { t with members := t.members ++ s.members, strength := t.strength + s.strength }
  let s' ← grown[source]?
  return grown.set source { s' with active := false, members := [], strength := 0 }

def mergeBest (sourceRoot : ℕ) (best : Option ℕ × F) : Option (List (RabbitCommunity F)) :=
  match best.1 with
  | some bestRoot =>
    if 0 < best.2 then mergeInto communities sourceRoot bestRoot else some communities
  | none => some communities

/-- The state between two nodes of the merging loop. -/
structure MergeState (F : Type) where
  communities : List (RabbitCommunity F)
  edgeWeights : List F
  rootProcessed : List Bool

/-- One node of the merging loop. -/
def mergeTurn (graph : List (List ℕ)) (totalEdgeWeight : F) (s : MergeState F) (node : ℕ) :
    Option (MergeState F) := do
  let (sourceRoot, communities) ← rabbitFindRoot s.communities node
  let c ← communities[sourceRoot]?
  let processed ← s.rootProcessed[sourceRoot]?
  if !c.active ∨ processed then return { s with communities := communities }
  else
    let counted ← countEdges graph sourceRoot c.members ⟨communities, s.edgeWeights, []⟩
    let best ← counted.touchedRoots.foldlM
      (betterTarget counted c.strength totalEdgeWeight) (none, 0)
    let merged ← mergeBest counted.communities sourceRoot best
    let cleared ← counted.touchedRoots.foldlM (fun w r => wr w r 0) counted.edgeWeights
    return ⟨merged, cleared, s.rootProcessed.set sourceRoot true⟩

def smallestMember (root : ℕ) : ℕ :=
  match communities[root]? with
  | some c => c.members.min?.getD root
  | none => root

def strengthOf (root : ℕ) : F :=
  match communities[root]? with
  | some c => c.strength
  | none => 0

def strongerRoot (lhs rhs : ℕ) : Bool :=
  if strengthOf communities lhs ≠ strengthOf communities rhs then
    strengthOf communities rhs < strengthOf communities lhs
  else smallestMember communities lhs < smallestMember communities rhs

/-- The communities that are left. -/
def activeRoots (n : ℕ) (communities : List (RabbitCommunity F)) :
    Option (List (RabbitCommunity F) × List ℕ) :=
  (range n).foldlM
    (fun s i => do
      let (root, communities) ← rabbitFindRoot s.1 i
      let c ← communities[i]?
      return (communities, if root = i ∧ c.active then s.2 ++ [i] else s.2))
    (communities, [])

def generateRabbitOrderPermutation (S : StdSort ℕ) (h : HNSW) (ntotal : ℕ) (F : Type)
    [LinearOrder F] [Zero F] [One F] [Add F] [Sub F] [Mul F] [Div F] [NatCast F] :
    Option (List ℕ) :=
  if ntotal = 0 then some []
  else do
    let graph ← buildUndirectedLevel0Graph S h ntotal
    let order := S.run (degreeThenId graph) (range ntotal)
    let communities : List (RabbitCommunity F) :=
      (range ntotal).map fun i => ⟨i, [i], (degree graph i : F), true⟩
    let sum := communities.foldl (fun total c => total + c.strength) 0
    let totalEdgeWeight := if sum ≤ 0 then 1 else sum
    let s ← order.foldlM (mergeTurn graph totalEdgeWeight)
      ⟨communities, replicate ntotal 0, replicate ntotal false⟩
    let (communities, roots) ← activeRoots ntotal s.communities
    let sorted := S.run (strongerRoot communities) roots
    let (emitted, perm) ← sorted.foldlM
      (fun s root => do
        let c ← communities[root]?
        c.members.foldlM rabbitEmit s)
      (replicate ntotal false, [])
    (range ntotal).foldlM
      (fun perm i => do
        let seen ← emitted[i]?
        return if seen then perm else perm ++ [i])
      perm

end Rvanns.Faiss
