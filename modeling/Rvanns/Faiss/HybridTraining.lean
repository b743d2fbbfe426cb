import Rvanns.Cpp.Sort
import Rvanns.Faiss.QuantizerHybrid

/-!
# Training the hybrid quantiser

`ScalarQuantizer::train` for `QT_HYBRID_FP8_16_32`.
-/

namespace Rvanns.Faiss

open Cpp Literals List

variable {K : Type} [Field K] [LinearOrder K] [FloorRing K]

/-- A `float` of a training set, which nothing keeps from being no number. -/
inductive Sample (K : Type) where
  | finite (v : K)
  | infinite (negative : Bool)
  | nan
deriving DecidableEq

/-- `train_NonUniform` with the statistic of the quantiser. -/
structure RangeTrainer (K : Type) where
  run : (n d : ℕ) → List (Sample K) → List (BitVec 32)
  length_run : ∀ n d x, (run n d x).length = 2 * d

namespace HybridTraining

def trainNonUniform (R : RangeTrainer K) (n d : ℕ) (x : List (Sample K)) :
    Except Fault (List (BitVec 32)) := do
  let d ← defined (intIndex d)
  if 2 ^ 31 ≤ 2 * d then throw .undefined
  return R.run n d x

variable (F : FloatCodec K)

def cleanMin (v : BitVec 32) : BitVec 32 := if F.isFinite v then v else 0

def cleanDiff (v : BitVec 32) : BitVec 32 :=
  if ¬ F.isFinite v ∨ F.ofFloat v ≤ 0 then 0 else v

def baseRanges (R : RangeTrainer K) (n d : ℕ) (x : List (Sample K)) :
    Except Fault (List (BitVec 32) × List (BitVec 32)) :=
  if n ≠ 0 then do
    let affine ← trainNonUniform R n d x
    if affine.length ≠ 2 * d then
      throw (.thrown "MPMI affine training returned invalid metadata")
    return ((affine.take d).map (cleanMin F), (affine.drop d).map (cleanDiff F))
  else
    return (replicate d 0#32, replicate d 0x3F800000#32)

def reconstructed (vmin vdiff value : K) : K :=
  let baseCode : BitVec 8 := if 0 < vdiff then QuantizerHybrid.quantize vmin vdiff value else 0
  vmin + (baseCode.toNat : K) / 255 * vdiff

/-- A sum of squares: `none` is no number, and `⊤` is infinite. -/
abbrev Error (K : Type) := Option (WithTop K)

/-- What the base of the quantiser misses of a value.  An infinite value and one that is no number
are clamped to some base code, and the residual is as they are for each of them. -/
def squaredResidual (vmin vdiff : K) : Sample K → Error K
  | .finite value =>
    let residual := value - reconstructed vmin vdiff value
    some ↑(residual * residual)
  | .infinite _ => some ⊤
  | .nan => none

def addError (ranges : List (BitVec 32) × List (BitVec 32)) (d : ℕ) (x : List (Sample K))
    (row : ℕ) (sse : List (Error K)) (col : ℕ) : Option (List (Error K)) := do
  let value ← x[row * d + col]?
  let vmin ← ranges.1[col]?
  let vdiff ← ranges.2[col]?
  let residual := squaredResidual (F.ofFloat vmin) (F.ofFloat vdiff) value
  modifyAt sse col fun s => Option.map₂ (· + ·) s residual

def residualSse (ranges : List (BitVec 32) × List (BitVec 32)) (n d : ℕ)
    (x : List (Sample K)) : Option (List (Error K)) :=
  (range n).foldlM (fun sse row => (range d).foldlM (addError F ranges d x row) sse)
    (replicate d (some 0))

/-- What is no number is unequal to everything, and not above anything. -/
def ranksBefore (lhs rhs : Error K × ℕ) : Bool :=
  match lhs.1, rhs.1 with
  | some a, some b => if a ≠ b then a > b else lhs.2 < rhs.2
  | _, _ => false

def ranking (S : StdSort (Error K × ℕ)) (n d : ℕ) (sse : List (Error K)) :
    Option (List (Error K × ℕ)) := do
  let ranked ← (range d).mapM fun i => do
    let s ← sse[i]?
    return ((if n = 0 then some 0 else s.map (WithTop.map (· / (n : K))) : Error K), i)
  S.sortRange ranksBefore ranked

def fp32Dims (n d : ℕ) : ℕ := min (if d = 0 ∨ n = 0 then 0 else ⌈(d : ℚ) / 100⌉₊) d

def fp16Dims (n d : ℕ) : ℕ :=
  min (if d = 0 ∨ n = 0 then 0 else ⌈(d : ℚ) / 10⌉₊) (d - fp32Dims n d)

def setWordBit (words : List (BitVec 32)) (dim : ℕ) : Option (List (BitVec 32)) :=
  modifyAt words (dim / 32) fun w => w ||| 1#32 <<< (dim % 32)

def selectDims (ranked : List (Error K × ℕ)) (first count : ℕ) (words : List (BitVec 32)) :
    Option (List (BitVec 32)) :=
  (range count).foldlM (fun words k => do
    let entry ← ranked[first + k]?
    setWordBit words entry.2) words

structure Trained where
  trained : List (BitVec 32)
  codeSize : ℕ
deriving DecidableEq

def metadata (d : ℕ) (ranges : List (BitVec 32) × List (BitVec 32))
    (words16 words32 : List (BitVec 32)) : List (BitVec 32) :=
  [F.ofSize ((d + 31) / 32), F.ofSize ((d + 31) / 32)] ++ ranges.1 ++ ranges.2 ++ words16 ++ words32

def setDerivedSizes (d : ℕ) (trained : List (BitVec 32)) : Except Fault ℕ :=
  if trained.isEmpty then return 0 else QuantizerHybrid.hybridCodeSizeFromTrained F d trained

def train (R : RangeTrainer K) (S : StdSort (Error K × ℕ)) (n d : ℕ) (x : List (Sample K)) :
    Except Fault Trained := do
  let bitmapWords := (d + 31) / 32
  let ranges ← baseRanges F R n d x
  let sse ← defined (residualSse F ranges n d x)
  let ranked ← defined (ranking S n d sse)
  let words32 ← defined (selectDims ranked 0 (fp32Dims n d) (replicate bitmapWords 0))
  let words16 ← defined
    (selectDims ranked (fp32Dims n d) (fp16Dims n d) (replicate bitmapWords 0))
  let trained := metadata F d ranges words16 words32
  let codeSize ← setDerivedSizes F d trained
  return ⟨trained, codeSize⟩

end HybridTraining

end Rvanns.Faiss
