import Rvanns.Cpp.Rows

/-!
# The HNSW graph

The neighbour lists of all nodes and levels are one array.
-/

namespace Rvanns.Faiss

open Cpp

structure HNSW where
  cumNneighborPerLevel : List ℕ
  levels : List ℕ
  offsets : List ℕ
  neighbors : List ℤ
  entryPoint : ℤ
deriving DecidableEq, Repr

namespace HNSW

def neighborRange (h : HNSW) (no layerNo : ℕ) : Option (ℕ × ℕ) := do
  let o ← h.offsets[no]?
  let first ← h.cumNneighborPerLevel[layerNo]?
  let last ← h.cumNneighborPerLevel[layerNo + 1]?
  return (o + first, o + last)

def neighborSlots (h : HNSW) (no layerNo : ℕ) : Option (List ℤ) := do
  let range ← h.neighborRange no layerNo
  readRange h.neighbors range.1 range.2

def validIds (slots : List ℤ) : List ℕ := (slots.takeWhile (0 ≤ ·)).map Int.toNat

def neighborIds (h : HNSW) (no layerNo : ℕ) : Option (List ℕ) :=
  (h.neighborSlots no layerNo).map validIds

def nodeEdges (h : HNSW) (level u : ℕ) : List (ℕ × ℕ) :=
  if level < h.levels.getD u 0 then ((h.neighborIds u level).getD []).map (u, ·) else []

def edges (h : HNSW) (level : ℕ) : List (ℕ × ℕ) :=
  (List.range h.levels.length).flatMap (h.nodeEdges level)

def inverseMap (map : List ℕ) (ntotal : ℕ) : Option (List ℕ) :=
  (List.range ntotal).foldlM
    (fun imap i => do
      let o ← map[i]?
      wr imap o i)
    (List.replicate ntotal 0)

def renumber (imap : List ℕ) (neigh : ℤ) : Option ℤ :=
  if 0 ≤ neigh then imap[neigh.toNat]?.map Nat.cast else some neigh

def permutedBlock (h : HNSW) (imap : List ℕ) (o : ℕ) : Option (List ℤ) := do
  let first ← h.offsets[o]?
  let last ← h.offsets[o + 1]?
  let block ← readRange h.neighbors first last
  block.mapM (renumber imap)

def permuteEntries (h : HNSW) (map : List ℕ) : Option HNSW := do
  let ntotal := h.levels.length
  let imap ← inverseMap map ntotal
  let entryPoint ←
    if h.entryPoint = -1 then some h.entryPoint else (rd imap h.entryPoint).map Nat.cast
  let olds ← readRange map 0 ntotal
  let newLevels ← olds.mapM (h.levels[·]?)
  let blocks ← olds.mapM (h.permutedBlock imap)
  -- `new_neighbors` has the size of the old array and is filled from the front
  if blocks.flatten.length ≤ h.neighbors.length then
    some { h with
      levels := newLevels
      offsets := rowOffsets blocks
      neighbors :=
        blocks.flatten ++ List.replicate (h.neighbors.length - blocks.flatten.length) 0
      entryPoint := entryPoint }
  else none

structure WellFormed (h : HNSW) : Prop where
  /-- The levels follow each other in a block. -/
  cum_sorted : h.cumNneighborPerLevel.Pairwise (· ≤ ·)
  levels_pos : ∀ lv ∈ h.levels, 1 ≤ lv
  levels_lt : ∀ lv ∈ h.levels, lv < h.cumNneighborPerLevel.length
  /-- Block `i` has room for the levels of node `i`. -/
  blocks : ∃ rows : List (List ℤ), h.offsets = rowOffsets rows ∧ h.neighbors = rows.flatten ∧
    rows.map List.length = h.levels.map (h.cumNneighborPerLevel.getD · 0)
  ids_lt : ∀ v ∈ h.neighbors, v < h.levels.length
  entry_nonneg : 0 ≤ h.entryPoint
  entry_lt : h.entryPoint < h.levels.length

end HNSW

end Rvanns.Faiss
