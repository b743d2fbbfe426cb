import Rvanns.Cpp.RankedBits
import Rvanns.Cpp.Returns
import Rvanns.Faiss.ScalarQuantizerCodec

/-!
# The hybrid quantiser

`QuantizerHybrid` of `ScalarQuantizerCodec.h`.
-/

namespace Rvanns.Faiss

open Cpp Literals

variable {K : Type} [Field K] [LinearOrder K] [FloorRing K]

def wordBit (words : List (BitVec 32)) (i : ℕ) : Option Bool := do
  let word ← words[i / 32]?
  let mask := 1#32 <<< (i % 32)
  return word &&& mask ≠ 0

structure ResidualPools where
  fp16 : RankedBits 32
  fp32 : RankedBits 32
  length_eq : fp16.bits.length = fp32.bits.length
  disjoint : ∀ i, ¬ (IsSet fp16.bits i ∧ IsSet fp32.bits i)

def ResidualPools.empty : ResidualPools where
  fp16 := .empty
  fp32 := .empty
  length_eq := rfl
  disjoint := by simp [RankedBits.empty]

def ResidualPools.push (p : ResidualPools) (fp16 fp32 : Bool) (h : ¬ (fp16 ∧ fp32)) :
    ResidualPools where
  fp16 := p.fp16.push fp16
  fp32 := p.fp32.push fp32
  length_eq := by simp [RankedBits.push, p.length_eq]
  disjoint i := by
    show ¬ ((p.fp16.bits ++ [fp16])[i]? = some true ∧ (p.fp32.bits ++ [fp32])[i]? = some true)
    rw [List.getElem?_append, List.getElem?_append, p.length_eq]
    by_cases hi : i < p.fp32.bits.length
    · rw [if_pos hi, if_pos hi]
      exact p.disjoint i
    · rw [if_neg hi, if_neg hi]
      rintro ⟨h16, h32⟩
      simp only [List.getElem?_singleton, Option.ite_none_right_eq_some, Option.some.injEq]
        at h16 h32
      exact h ⟨h16.2, h32.2⟩

structure QuantizerHybrid where
  d : ℕ
  vmin : List (BitVec 32)
  vdiff : List (BitVec 32)
  pools : ResidualPools
  codeSize : ℕ

namespace QuantizerHybrid

/-- `read_word_count`. -/
def readWordCount (F : FloatCodec K) (value : BitVec 32) : Except Fault ℕ := do
  let v := F.ofFloat value
  if ¬ (F.isFinite value ∧ 0 ≤ v ∧ (⌊v⌋ : K) = v) then
    throw (.thrown "MPMI bitmap word count is invalid")
  -- a number that is no `size_t` cannot be converted
  if 2 ^ 64 ≤ ⌊v⌋.toNat then throw .undefined
  return ⌊v⌋.toNat

/-- The loop of the constructor over the components. -/
def fillPools (d : ℕ) (words16 words32 : List (BitVec 32)) : Except Fault ResidualPools :=
  (List.range d).foldlM (fun pools i => do
    let fp16 ← defined (wordBit words16 i)
    let fp32 ← defined (wordBit words32 i)
    if h : fp16 ∧ fp32 then
      throw (.thrown "MPMI FP16 and FP32 residual pools must be disjoint")
    else
      return pools.push fp16 fp32 h) .empty

/-- The constructor. -/
def make (F : FloatCodec K) (d : ℕ) (trained : List (BitVec 32)) :
    Except Fault QuantizerHybrid := do
  let headerSize := 2 + 2 * d
  if trained.length < headerSize then
    throw (.thrown "MPMI metadata is shorter than its affine header")
  let fp16Words ← readWordCount F (← defined trained[0]?)
  let fp32Words ← readWordCount F (← defined trained[1]?)
  let requiredWords := (d + 31) / 32
  if ¬ (fp16Words = requiredWords ∧ fp32Words = requiredWords) then
    throw (.thrown "MPMI bitmap dimensions do not match the quantizer")
  if trained.length < headerSize + fp16Words + fp32Words then
    throw (.thrown "MPMI metadata is shorter than its bitmap payload")
  let words16 := (trained.drop headerSize).take fp16Words
  let words32 := (trained.drop (headerSize + fp16Words)).take fp32Words
  let pools ← fillPools d words16 words32
  return {
    d := d
    vmin := (trained.drop 2).take d
    vdiff := (trained.drop (2 + d)).take d
    pools := pools
    codeSize := d + pools.fp16.count * 2 + pools.fp32.count * 4 }

/-- `hybrid_code_size_from_trained`. -/
def hybridCodeSizeFromTrained (F : FloatCodec K) (d : ℕ) (trained : List (BitVec 32)) :
    Except Fault ℕ := do
  let q ← make F d trained
  return q.codeSize

section Components

variable (F : FloatCodec K) (q : QuantizerHybrid)

def degenerate (vdiff : BitVec 32) : Bool := ¬ 0 < F.ofFloat vdiff ∨ ¬ F.isFinite vdiff

def quantize (vmin vdiff value : K) : BitVec 8 :=
  let normalized := (value - vmin) / vdiff
  let normalized := max 0 (min 1 normalized)
  BitVec.ofNat 8 (round (normalized * 255)).toNat

def encodeBase (value : K) (i : ℕ) : Option (BitVec 8) := do
  let vdiff ← q.vdiff[i]?
  if degenerate F vdiff then return 0
  let vmin ← q.vmin[i]?
  return quantize (F.ofFloat vmin) (F.ofFloat vdiff) value

def decodeBase (code : Code) (i : ℕ) : Option K := do
  let vdiff ← q.vdiff[i]?
  let vmin ← q.vmin[i]?
  if degenerate F vdiff then return F.ofFloat vmin
  let c ← code[i]?
  return F.ofFloat vmin + (c.toNat : K) / 255 * F.ofFloat vdiff

/-- `memcpy` of two bytes. -/
def load16 (code : Code) (offset : ℕ) : Option (BitVec 16) := do
  let b0 ← code[offset]?
  let b1 ← code[offset + 1]?
  return b1 ++ b0

/-- `memcpy` of four bytes. -/
def load32 (code : Code) (offset : ℕ) : Option (BitVec 32) := do
  let b0 ← code[offset]?
  let b1 ← code[offset + 1]?
  let b2 ← code[offset + 2]?
  let b3 ← code[offset + 3]?
  return b3 ++ (b2 ++ (b1 ++ b0))

def bytes16 (w : BitVec 16) : Code := [w.extractLsb' 0 8, w.extractLsb' 8 8]

def bytes32 (w : BitVec 32) : Code :=
  [w.extractLsb' 0 8, w.extractLsb' 8 8, w.extractLsb' 16 8, w.extractLsb' 24 8]

/-- Where the 16-bit difference of component `i` is. -/
def offset16 (i : ℕ) : Option ℕ := do
  let rank ← q.pools.fp16.ranks[i]?
  return q.d + rank * 2

/-- Where the 32-bit difference of component `i` is. -/
def offset32 (i : ℕ) : Option ℕ := do
  let rank ← q.pools.fp32.ranks[i]?
  return q.d + q.pools.fp16.count * 2 + rank * 4

def residualComponent (code : Code) (i : ℕ) : Option K := do
  if ← q.pools.fp16.bits[i]? then
    let encoded ← load16 code (← q.offset16 i)
    return F.ofHalf encoded
  if ← q.pools.fp32.bits[i]? then
    let residual ← load32 code (← q.offset32 i)
    return F.ofFloat residual
  return 0

def reconstructComponent (code : Code) (i : ℕ) : Option K := do
  let base ← q.decodeBase F code i
  let residual ← q.residualComponent F code i
  return base + residual

/-- One turn of `encode_vector`. -/
def encodeComponent (x : List K) (code : Code) (i : ℕ) : Option Code := do
  let xi ← x[i]?
  let baseCode ← q.encodeBase F xi i
  let code ← wr code i baseCode
  let residual := xi - (← q.decodeBase F code i)
  if ← q.pools.fp16.bits[i]? then
    writeRange code (← q.offset16 i) (bytes16 (F.toHalf residual))
  else if ← q.pools.fp32.bits[i]? then
    writeRange code (← q.offset32 i) (bytes32 (F.toFloat residual))
  else
    return code

def encodeVector (x : List K) (code : Code) : Option Code :=
  (List.range q.d).foldlM (q.encodeComponent F x) code

def decodeVector (code : Code) : Option (List K) :=
  (List.range q.d).mapM (q.reconstructComponent F code)

end Components

end QuantizerHybrid

end Rvanns.Faiss
