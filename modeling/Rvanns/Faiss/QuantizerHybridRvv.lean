import Rvanns.Faiss.QuantizerHybrid
import Rvanns.Faiss.ScalarQuantizerCodecRvv
import Rvanns.Simd.DistancesRef

/-!
# The hybrid quantiser with vector instructions

`QuantizerHybridFP8_rvv` and `HybridDistanceComputer_rvv` of `ScalarQuantizerCodec_rvv.h`.
-/

namespace Rvanns.Faiss

open Cpp Literals Rvv

variable {K : Type} [Field K] [LinearOrder K]

/-- `residual_tile_capacity` and `tile_size`. -/
def tileSize : ℕ := 256

/-- The answers to `vsetvl` while a tile is decoded. -/
structure TileHardware where
  base : Hardware
  residual : Hardware

namespace QuantizerHybrid

section Tile

variable (F : FloatCodec K) (q : QuantizerHybrid)

def loadPacked (code : Code) (offset n : ℕ) : Option (List (BitVec 16)) :=
  if tileSize < n then none
  else (List.range n).mapM fun k => load16 code (offset + k * 2)

/-- The strips in which packed values are widened. -/
def widen {v : ℕ} (V : Vsetvl v) (packed : List (BitVec 16)) : Option (List K) :=
  (V.strips 0 packed.length).foldlM (fun widened s => do
    let residual16 ← vle packed s.offset s.len
    return widened ++ residual16.map F.ofHalf) []

def scatter (start : ℕ) (widened : List K) (state : List K × ℕ) (i : ℕ) :
    Option (List K × ℕ) := do
  let (out, packedIndex) := state
  if ← q.pools.fp16.bits[start + i]? then
    let residual ← widened[packedIndex]?
    return (← modifyAt out i (· + residual), packedIndex + 1)
  return (out, packedIndex)

def tileRanks (start count : ℕ) : Option (ℕ × ℕ) := do
  let beginRank ← q.pools.fp16.ranks[start]?
  let endRank ← if start + count = q.d then some q.pools.fp16.count
    else q.pools.fp16.ranks[start + count]?
  return (beginRank, endRank)

def addFp16Tile {v : ℕ} (V : Vsetvl v) (code : Code) (start count : ℕ) (out : List K) :
    Except Fault (List K) := do
  let (beginRank, endRank) ← defined (q.tileRanks start count)
  if endRank < beginRank then throw .undefined
  let tileCount := endRank - beginRank
  if tileCount = 0 then return out
  let packed ← defined (loadPacked code (q.d + beginRank * 2) tileCount)
  let widened ← defined (widen F V packed)
  let (out, packedIndex) ←
    defined ((List.range count).foldlM (q.scatter start widened) (out, 0))
  if packedIndex ≠ tileCount then
    throw (.thrown "Error: 'packed_index == fp16_tile_count' failed")
  return out

/-- The 32-bit difference of one component of a tile. -/
def addFp32 (code : Code) (start : ℕ) (out : List K) (i : ℕ) : Option (List K) := do
  if ← q.pools.fp32.bits[start + i]? then
    let residual ← load32 code (← q.offset32 (start + i))
    modifyAt out i (· + F.ofFloat residual)
  else
    return out

/-- One turn of the scalar loop. -/
def addResidual (code : Code) (start : ℕ) (out : List K) (i : ℕ) : Option (List K) := do
  let residual ← q.residualComponent F code (start + i)
  modifyAt out i (· + residual)

/-- `add_residual_tile`. -/
def addResidualTile (lmul : Option Lmul) (H : Hardware) (code : Code) (start count : ℕ)
    (out : List K) : Except Fault (List K) := do
  if count = 0 then return out
  if ¬ (start ≤ q.d ∧ count ≤ q.d - start) then
    throw (.thrown "MPMI RVV recovery tile is outside the vector dimension")
  match lmul with
  | none => defined ((List.range count).foldlM (q.addResidual F code start) out)
  | some l => do
    if tileSize < count then
      throw (.thrown "MPMI RVV recovery tile exceeds its fixed capacity")
    let out ← q.addFp16Tile F (H.vsetvl l) code start count out
    defined ((List.range count).foldlM (q.addFp32 F code start) out)

/-- One strip of the base: `normalized * diffs + mins`. -/
def decodeStrip (code : Code) (start : ℕ) (out : List K) (s : Strip) : Option (List K) := do
  let q8 ← vle code (start + s.offset) s.len
  let normalized := q8.map fun c => (c.toNat : K) * (1 / 255)
  let mins ← vle q.vmin (start + s.offset) s.len
  let diffs ← vle q.vdiff (start + s.offset) s.len
  return out ++ vfmadd normalized (diffs.map F.ofFloat) (mins.map F.ofFloat)

/-- `decode_tile`. -/
def decodeTile (lmul : Option Lmul) (H : TileHardware) (code : Code) (start count : ℕ) :
    Except Fault (List K) := do
  let out ← match lmul with
    | none => defined ((List.range count).mapM fun i => q.decodeBase F code (start + i))
    | some l => defined (((H.base.vsetvl l).strips 0 count).foldlM (q.decodeStrip F code start) [])
  q.addResidualTile F lmul H.residual code start count out

end Tile

/-- `begin` and `count` of the loops over the tiles. -/
def tiles (d : ℕ) : List Strip := (Vsetvl.greedy tileSize (by decide)).strips 0 d

structure Answers where
  first : ℕ → TileHardware
  second : ℕ → TileHardware
  accumulate : ℕ → Hardware

section Accumulate

variable (G : Leftovers K) (sim : Similarity)

/-- One strip of `RVANNS_HYBRID_ACCUMULATE`. -/
def accumulateStrip (a b : List K) (total : K) (s : Strip) : Option K := do
  let lhs ← vle a s.offset s.len
  let rhs ← vle b s.offset s.len
  let p := sim.factors lhs rhs
  let sum := vfmacc (splat 0) p.1 p.2 (G.tail 0 s.offset)
  return total + vfredusum sum s.len (G.undef 0)

/-- `accumulate_tile`. -/
def accumulateTile (lmul : Option Lmul) (H : Hardware) (a b : List K) (count : ℕ) : Option K :=
  match lmul with
  | none => (List.range count).foldlM (fun total i => do
      let ai ← a[i]?
      let bi ← b[i]?
      return total + sim.term ai bi) 0
  | some l => ((H.vsetvl l).strips 0 count).foldlM (accumulateStrip G sim a b) 0

end Accumulate

section Distance

variable (F : FloatCodec K) (q : QuantizerHybrid) (dec acc : Option Lmul) (A : Answers)
  (G : Leftovers K) (sim : Similarity)

/-- `compute_distance`, which is also `query_to_code`. -/
def computeDistanceRvv (x : List K) (code : Code) : Except Fault K :=
  (tiles q.d).foldlM (fun total s => do
    let decoded ← q.decodeTile F dec (A.first s.offset) code s.offset s.len
    let t ← defined (accumulateTile G sim acc (A.accumulate s.offset) (x.drop s.offset) decoded
      s.len)
    return total + t) 0

/-- `symmetric_dis`, for two records. -/
def symmetricDisRvv (codeI codeJ : Code) : Except Fault K :=
  (tiles q.d).foldlM (fun total s => do
    let decoded ← q.decodeTile F dec (A.first s.offset) codeI s.offset s.len
    let decoded2 ← q.decodeTile F dec (A.second s.offset) codeJ s.offset s.len
    let t ← defined (accumulateTile G sim acc (A.accumulate s.offset) decoded decoded2 s.len)
    return total + t) 0

def computeDistance (x : List K) (code : Code) : Option K := do
  let decoded ← q.decodeVector F code
  match sim with
  | .l2 => Simd.fvecL2sqrRef x decoded q.d
  | .ip => Simd.fvecInnerProductRef x decoded q.d

def symmetricDis (codeI codeJ : Code) : Option K := do
  let decoded ← q.decodeVector F codeI
  let decoded2 ← q.decodeVector F codeJ
  match sim with
  | .l2 => Simd.fvecL2sqrRef decoded decoded2 q.d
  | .ip => Simd.fvecInnerProductRef decoded decoded2 q.d

end Distance

end QuantizerHybrid

end Rvanns.Faiss
