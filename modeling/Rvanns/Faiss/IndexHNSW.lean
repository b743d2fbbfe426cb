import Rvanns.Cpp.Numbering
import Rvanns.Faiss.Layout.Gorder
import Rvanns.Faiss.Layout.RabbitOrder

/-!
# The layout pass of `IndexHNSW`

After an index has been built, `reorder_graph_after_build` computes a new numbering of its nodes and
moves everything that is kept for a node.
-/

namespace Rvanns.Faiss

open Cpp

structure IndexFlatCodes (V : Type) where
  ntotal : ℕ
  codeSize : ℕ
  codes : List UInt8
  codeNorms : List V
  inverseL2Norms : Option (List V)
deriving DecidableEq, Repr

structure IndexHNSW (V : Type) where
  ntotal : ℕ
  hnsw : HNSW
  storage : Option (IndexFlatCodes V)
  reorderPerm : List ℕ
deriving DecidableEq, Repr

variable {V : Type}

def IndexFlatCodes.codeRow (st : IndexFlatCodes V) (i : ℕ) : Option (List UInt8) :=
  readRange st.codes (i * st.codeSize) (i * st.codeSize + st.codeSize)

def IndexFlatCodes.permuteEntries (st : IndexFlatCodes V) (perm : List ℕ) :
    Option (IndexFlatCodes V) := do
  let rows ← (List.range st.ntotal).mapM fun i => do
    let o ← perm[i]?
    st.codeRow o
  -- `new_codes` has the size of the old array and is filled from the front
  if rows.flatten.length ≤ st.codes.length then
    some { st with
      codes := rows.flatten ++ List.replicate (st.codes.length - rows.flatten.length) 0 }
  else none

def reorderNodeMetadata (ntotal : ℕ) (perm : List ℕ) (values : List V) : Option (List V) :=
  if values.length ≠ ntotal then some values
  else (List.range ntotal).mapM fun i => do
    let o ← perm[i]?
    values[o]?

def IndexHNSW.permuteFlat (idx : IndexHNSW V) (st : IndexFlatCodes V) (perm : List ℕ) :
    Option (IndexHNSW V) := do
  let codeNorms ← reorderNodeMetadata idx.ntotal perm st.codeNorms
  let st ← ({ st with codeNorms := codeNorms } : IndexFlatCodes V).permuteEntries perm
  let hnsw ← idx.hnsw.permuteEntries perm
  let inverseL2Norms ← st.inverseL2Norms.mapM (reorderNodeMetadata idx.ntotal perm)
  return { idx with hnsw := hnsw, storage := some { st with inverseL2Norms := inverseL2Norms } }

def IndexHNSW.permuteEntries (idx : IndexHNSW V) (perm : List ℕ) : Except Fault (IndexHNSW V) :=
  match idx.storage with
  | none => .error (.thrown "don't know how to permute this index")
  | some st => defined (idx.permuteFlat st perm)

def sortedSlots (S : StdSort ℕ) (slots : List ℤ) : List ℤ :=
  (S.run (· < ·) (HNSW.validIds slots)).map Nat.cast
    ++ List.replicate (slots.length - (HNSW.validIds slots).length) (-1)

def HNSW.optimizeNeighborsById (S : StdSort ℕ) (h : HNSW) (ntotal : ℕ) : Option HNSW := do
  let neighbors ← (List.range ntotal).foldlM
    (fun neighbors i => do
      let range ← h.neighborRange i 0
      let slots ← readRange neighbors range.1 range.2
      writeRange neighbors range.1 (sortedSlots S slots))
    h.neighbors
  return { h with neighbors := neighbors }

def methodEquals (lhs : Option String) (rhs : String) : Bool :=
  match lhs with
  | none => false
  | some s => s.toList.map Char.toLower == rhs.toList.map Char.toLower

section Reorder

variable (S : StdSort ℕ) (F : Type)
  [LinearOrder F] [Zero F] [One F] [Add F] [Sub F] [Mul F] [Div F] [NatCast F]

inductive LayoutMethod where
  | rorder
  | gorder
  | rcm
  | rabbitorder
  | bfs
deriving DecidableEq, Repr

def LayoutMethod.name : LayoutMethod → String
  | .rorder => "rorder"
  | .gorder => "gorder"
  | .rcm => "rcm"
  | .rabbitorder => "rabbitorder"
  | .bfs => "bfs"

def selectMethod (method : Option String) : Option LayoutMethod :=
  if methodEquals method "rorder" then some .rorder
  else if methodEquals method "gorder" then some .gorder
  else if methodEquals method "rcm" then some .rcm
  else if methodEquals method "rabbitorder" then some .rabbitorder
  else if methodEquals method "bfs" then some .bfs
  else none

def generatePermutation (h : HNSW) (ntotal level : ℕ) : LayoutMethod → Option (List ℕ)
  | .rorder => generateGorderPermutation S h ntotal
  | .gorder => generateGorderPermutation S h ntotal
  | .rcm => generateRCMPermutation S h ntotal
  | .rabbitorder => generateRabbitOrderPermutation S h ntotal F
  | .bfs => generateBFSPermutation h ntotal level

def applyLayout (idx : IndexHNSW V) (level : ℕ) (m : LayoutMethod) :
    Except Fault (IndexHNSW V) := do
  let perm ← defined (generatePermutation S F idx.hnsw idx.ntotal level m)
  let moved ← idx.permuteEntries perm
  let marked := { moved with reorderPerm := perm }
  match m with
  | .rorder => do
    let hnsw ← defined (marked.hnsw.optimizeNeighborsById S marked.ntotal)
    return { marked with hnsw := hnsw }
  | _ => return marked

def reorderGraphAfterBuild (idx : IndexHNSW V) (level : ℤ) (method : Option String)
    (_freeze : Bool) : Except Fault (IndexHNSW V) :=
  if idx.reorderPerm ≠ [] then
    .error (.thrown ("The post-build HNSW layout pass may be applied only once; "
      ++ "reset or rebuild the index first"))
  else if idx.ntotal = 0 ∨ idx.hnsw.entryPoint = -1 then .ok idx
  else if level ≠ 0 then .error (.thrown "Only level-0 reordering is supported")
  else
    match selectMethod method with
    | some m => applyLayout S F idx level.toNat m
    | none => .error (.thrown ("Unknown HNSW layout method: " ++ method.getD "(null)"))

end Reorder

def IndexFlatCodes.inverseNorm (st : IndexFlatCodes V) (i : ℕ) : Option V :=
  st.inverseL2Norms.bind (·[i]?)

structure IndexFlatCodes.Stores (st : IndexFlatCodes V) (n : ℕ) : Prop where
  ntotal : st.ntotal = n
  codes : st.codes.length = n * st.codeSize
  codeNorms : st.codeNorms = [] ∨ st.codeNorms.length = n
  inverseNorms : ∀ norms ∈ st.inverseL2Norms, norms = [] ∨ norms.length = n

structure IndexHNSW.Built (idx : IndexHNSW V) : Prop where
  graph : idx.hnsw.WellFormed
  nodes : idx.hnsw.levels.length = idx.ntotal
  storage : ∃ st, idx.storage = some st ∧ st.Stores idx.ntotal

structure Payload (V : Type) where
  level : Option ℕ
  codeRow : Option (List UInt8)
  codeNorm : Option V
  inverseNorm : Option V
deriving DecidableEq, Repr

def IndexHNSW.payload (idx : IndexHNSW V) (i : ℕ) : Payload V where
  level := idx.hnsw.levels[i]?
  codeRow := idx.storage.bind (·.codeRow i)
  codeNorm := idx.storage.bind (·.codeNorms[i]?)
  inverseNorm := idx.storage.bind (·.inverseNorm i)

structure IsRelabelling (old new : IndexHNSW V) (perm : List ℕ) : Prop where
  numbering : IsNumbering perm old.ntotal
  ntotal : new.ntotal = old.ntotal
  /-- The directed edges, with multiplicity. -/
  edges : ∀ level, ((new.hnsw.edges level).map (Prod.map (perm.getD · 0) (perm.getD · 0))).Perm
    (old.hnsw.edges level)
  payload : ∀ i < old.ntotal, new.payload i = old.payload (perm.getD i 0)
  entryPoint : new.hnsw.entryPoint = perm.idxOf old.hnsw.entryPoint.toNat

end Rvanns.Faiss
