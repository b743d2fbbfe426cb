import Rvanns.Cpp.Float
import Rvanns.Cpp.Vector

/-!
# Scalar quantisers

`ScalarQuantizerCodec.h`.
-/

namespace Rvanns.Faiss

open Cpp Literals

variable {K : Type} [Field K]

/-- The bytes of a code. -/
abbrev Code := List (BitVec 8)

def intIndex (i : ℕ) : Option ℕ := if i % 2 ^ 32 < 2 ^ 31 then some (i % 2 ^ 32) else none

def Codec8bit.decodeComponent (code : Code) (i : ℕ) : Option K := do
  let c ← code[i]?
  return (c.toNat + 1 / 2) / 255

def Codec4bit.decodeComponent (code : Code) (i : ℕ) : Option K := do
  let c ← code[i / 2]?
  return (((c >>> ((i &&& 1) <<< 2)) &&& 0xf#8).toNat + 1 / 2) / 15

def Codec6bit.bits (code : Code) (i : ℕ) : Option (BitVec 8) :=
  match i % 4 with
  | 0 => do
    let c0 ← code[i / 4 * 3]?
    return c0 &&& 0x3f#8
  | 1 => do
    let c0 ← code[i / 4 * 3]?
    let c1 ← code[i / 4 * 3 + 1]?
    return c0 >>> 6 ||| (c1 &&& 0xf#8) <<< 2
  | 2 => do
    let c1 ← code[i / 4 * 3 + 1]?
    let c2 ← code[i / 4 * 3 + 2]?
    return c1 >>> 4 ||| (c2 &&& 3#8) <<< 4
  | _ => do
    let c2 ← code[i / 4 * 3 + 2]?
    return c2 >>> 2

def Codec6bit.decodeComponent (code : Code) (i : ℕ) : Option K := do
  let bits ← Codec6bit.bits code i
  return (bits.toNat + 1 / 2) / 63

/-- `QuantizerTemplateScaling`. -/
inductive Scaling where
  | uniform
  | nonUniform
deriving DecidableEq, Repr

def Scaling.trainedSize (d : ℕ) : Scaling → ℕ
  | .uniform => 2
  | .nonUniform => 2 * d

inductive QuantizerKind where
  | codec8bit (scaling : Scaling)
  | codec4bit (scaling : Scaling)
  | codec6bit
  | fp16
  | bf16
  | direct8bit
  | directSigned8bit
deriving DecidableEq, Repr

/-- `code_size`, as `set_derived_sizes` sets it. -/
def QuantizerKind.codeSize (q : QuantizerKind) (d : ℕ) : ℕ :=
  match q with
  | .codec8bit _ | .direct8bit | .directSigned8bit => d
  | .codec4bit _ => (d + 1) / 2
  | .codec6bit => (d * 6 + 7) / 8
  | .fp16 | .bf16 => d * 2

def QuantizerKind.trainedSize (q : QuantizerKind) (d : ℕ) : ℕ :=
  match q with
  | .codec8bit scaling | .codec4bit scaling => scaling.trainedSize d
  | .codec6bit => Scaling.nonUniform.trainedSize d
  | .fp16 | .bf16 | .direct8bit | .directSigned8bit => 0

structure Quantizer (K : Type) where
  kind : QuantizerKind
  d : ℕ
  trained : List K

/-- `vmin + xi * vdiff`. -/
def Quantizer.scale (Q : Quantizer K) (scaling : Scaling) (i : ℕ) (xi : K) : Option K :=
  match scaling with
  | .uniform => do
    let vmin ← Q.trained[0]?
    let vdiff ← Q.trained[1]?
    return vmin + xi * vdiff
  | .nonUniform => do
    let vmin ← Q.trained[i]?
    let vdiff ← Q.trained[Q.d + i]?
    return vmin + xi * vdiff

/-- `((uint16_t*)code)[i]`. -/
def halfAt (code : Code) (i : ℕ) : Option (BitVec 16) := do
  let low ← code[2 * i]?
  let high ← code[2 * i + 1]?
  return high ++ low

def Quantizer.reconstructComponent (F : FloatFormat K) (Q : Quantizer K) (code : Code) (i : ℕ) :
    Option K := do
  let i ← intIndex i
  match Q.kind with
  | .codec8bit scaling => do
    let xi ← Codec8bit.decodeComponent code i
    Q.scale scaling i xi
  | .codec4bit scaling => do
    let xi ← Codec4bit.decodeComponent code i
    Q.scale scaling i xi
  | .codec6bit => do
    let xi ← Codec6bit.decodeComponent code i
    Q.scale .nonUniform i xi
  | .fp16 => do
    let h ← halfAt code i
    return F.ofHalf h
  | .bf16 => do
    let h ← halfAt code i
    return F.ofBf16 h
  | .direct8bit => do
    let c ← code[i]?
    return c.toNat
  | .directSigned8bit => do
    let c ← code[i]?
    return c.toNat - 128

/-- `SimilarityL2` and `SimilarityIP`. -/
inductive Similarity where
  | l2
  | ip
deriving DecidableEq, Repr

def Similarity.term (sim : Similarity) (a b : K) : K :=
  match sim with
  | .l2 => (a - b) * (a - b)
  | .ip => a * b

/-- `DCTemplate::compute_distance`. -/
def Quantizer.computeDistance (F : FloatFormat K) (Q : Quantizer K) (sim : Similarity)
    (x : List K) (code : Code) : Option K :=
  (List.range Q.d).foldlM (fun accu i => do
    let xi ← Q.reconstructComponent F code i
    let yi ← x[i]?
    return accu + sim.term yi xi) 0

/-- `DCTemplate::compute_code_distance`. -/
def Quantizer.computeCodeDistance (F : FloatFormat K) (Q : Quantizer K) (sim : Similarity)
    (code1 code2 : Code) : Option K :=
  (List.range Q.d).foldlM (fun accu i => do
    let x1 ← Q.reconstructComponent F code1 i
    let x2 ← Q.reconstructComponent F code2 i
    return accu + sim.term x1 x2) 0

end Rvanns.Faiss
