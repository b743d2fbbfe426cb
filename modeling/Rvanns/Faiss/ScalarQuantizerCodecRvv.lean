import Rvanns.Cpp.Returns
import Rvanns.Faiss.ScalarQuantizerCodec
import Rvanns.Rvv.Lanes

/-!
# Scalar quantisers with vector instructions

`ScalarQuantizerCodec_rvv.h`, but for the hybrid quantiser.
-/

namespace Rvanns.Faiss

open Cpp Literals Rvv

variable {K : Type} [Field K]

def Codec8bit.decodeComponents (code : Code) (i vl : ℕ) : Option (List K) := do
  let v ← vle code i vl
  return v.map fun c => (c.toNat : K) * (1 / 255) + 1 / 2 / 255

def Codec4bit.decodeComponents (code : Code) (i vl : ℕ) : Option (List K) := do
  let unpacked ← (List.range vl).mapM fun j => do
    let byte ← code[(i + j) / 2]?
    return if (i + j) % 2 = 0 then byte &&& 0x0f#8 else byte >>> 4
  return unpacked.map fun x => ((x.toNat : K) + 1 / 2) * (1 / 15)

def rvvCodecStackThreshold : ℕ := 512

def Codec6bit.unpack (code : Code) (i : ℕ) : Option (BitVec 32) :=
  match i % 4 with
  | 0 => do
    let p0 ← code[i / 4 * 3]?
    return p0.setWidth 32 &&& 0x3f#32
  | 1 => do
    let p0 ← code[i / 4 * 3]?
    let p1 ← code[i / 4 * 3 + 1]?
    return (p0.setWidth 32 >>> 6 ||| p1.setWidth 32 <<< 2) &&& 0x3f#32
  | 2 => do
    let p1 ← code[i / 4 * 3 + 1]?
    let p2 ← code[i / 4 * 3 + 2]?
    return (p1.setWidth 32 >>> 4 ||| p2.setWidth 32 <<< 4) &&& 0x3f#32
  | _ => do
    let p2 ← code[i / 4 * 3 + 2]?
    return p2.setWidth 32 >>> 2 &&& 0x3f#32

def chunks (H : Hardware) (vl : ℕ) : List Strip :=
  (Vsetvl.greedy (H.vlmax .m4) (H.vlmax_pos .m4)).strips 0 vl

def Codec6bit.decodeComponents (H : Hardware) (code : Code) (i vl : ℕ) :
    Except Fault (List K) := do
  if rvvCodecStackThreshold < H.vlmax .m4 then
    throw (.thrown "RVV max_chunk exceeds stack buffer")
  (chunks H vl).foldlM (fun out chunk => do
    let unpacked ← defined ((List.range chunk.len).mapM fun j =>
      Codec6bit.unpack code (i + chunk.offset + j))
    return out ++ unpacked.map fun x => (x.toNat : K) * (1 / 63) + 1 / 2 / 63) []

def Quantizer.scaleComponents (Q : Quantizer K) (scaling : Scaling) (i : ℕ) (xi : List K) :
    Option (List K) :=
  match scaling with
  | .uniform => do
    let vmin ← Q.trained[0]?
    let vdiff ← Q.trained[1]?
    return xi.map fun a => a * vdiff + vmin
  | .nonUniform => do
    let vmin ← vle Q.trained i xi.length
    let vdiff ← vle Q.trained (Q.d + i) xi.length
    return vfmadd xi vdiff vmin

def Quantizer.scaleChunks (H : Hardware) (Q : Quantizer K) (i : ℕ) (out : List K) :
    Option (List K) :=
  (chunks H out.length).foldlM (fun scaled chunk => do
    let xi ← vle out chunk.offset chunk.len
    return scaled ++ (← Q.scaleComponents .nonUniform (i + chunk.offset) xi)) []

def loadHalves (code : Code) (i vl : ℕ) : Option (List (BitVec 16)) :=
  (List.range vl).mapM fun k => halfAt code (i + k)

def Quantizer.reconstructComponents (F : FloatFormat K) (H : Hardware) (Q : Quantizer K)
    (code : Code) (i vl : ℕ) : Except Fault (List K) := do
  let i ← defined (intIndex i)
  match Q.kind with
  | .codec8bit scaling => defined do
    let xi ← Codec8bit.decodeComponents code i vl
    Q.scaleComponents scaling i xi
  | .codec4bit scaling => defined do
    let xi ← Codec4bit.decodeComponents code i vl
    Q.scaleComponents scaling i xi
  | .codec6bit => do
    let out ← Codec6bit.decodeComponents H code i vl
    defined (Q.scaleChunks H i out)
  | .fp16 => defined do
    let v ← loadHalves code i vl
    return v.map F.ofHalf
  | .bf16 => defined do
    let v ← loadHalves code i vl
    return v.map F.ofBf16
  | .direct8bit => defined do
    let v ← vle code i vl
    return v.map fun c => (c.toNat : K)
  | .directSigned8bit => defined do
    let v ← vle code i vl
    return v.map fun c => (c.toNat : K) - 128

/-! ### Operands

An operand of a distance is a query or a code.  It is read in three ways: four register groups at a
time, a strip of one group, and a strip of up to two groups. -/

structure Operand (K : Type) where
  four : ℕ → Except Fault (Fin 4 → List K)
  one : Strip → Except Fault (List K)
  two : Strip → Except Fault (List K × List K)

def QuantizerKind.narrow : QuantizerKind → Bool
  | .fp16 | .bf16 => true
  | _ => false

def splitVl (vlmax vl : ℕ) : ℕ × ℕ :=
  let vl0 := if vl > vlmax then vlmax else vl
  (vl0, vl - vl0)

def queryOperand (H : Hardware) (x : List K) : Operand K where
  four i := defined do
    let y0 ← vle x i (H.vlmax .m2)
    let y1 ← vle x (i + H.vlmax .m2) (H.vlmax .m2)
    let y2 ← vle x (i + 2 * H.vlmax .m2) (H.vlmax .m2)
    let y3 ← vle x (i + 3 * H.vlmax .m2) (H.vlmax .m2)
    return ![y0, y1, y2, y3]
  one s := defined (vle x s.offset s.len)
  two s := defined do
    let (vl0, vl1) := splitVl (H.vlmax .m2) s.len
    let y0 ← vle x s.offset vl0
    let y1 ← vle x (s.offset + vl0) vl1
    return (y0, y1)

def codeOperand (F : FloatFormat K) (H : Hardware) (Q : Quantizer K) (code : Code) :
    Operand K where
  four i :=
    if Q.kind.narrow then do
      let x0 ← Q.reconstructComponents F H code i (H.vlmax .m2)
      let x1 ← Q.reconstructComponents F H code (i + H.vlmax .m2) (H.vlmax .m2)
      let x2 ← Q.reconstructComponents F H code (i + 2 * H.vlmax .m2) (H.vlmax .m2)
      let x3 ← Q.reconstructComponents F H code (i + 3 * H.vlmax .m2) (H.vlmax .m2)
      return ![x0, x1, x2, x3]
    else do
      let m0 ← Q.reconstructComponents F H code i (2 * H.vlmax .m2)
      let m1 ← Q.reconstructComponents F H code (i + 2 * H.vlmax .m2) (2 * H.vlmax .m2)
      return ![m0.take (H.vlmax .m2), m0.drop (H.vlmax .m2), m1.take (H.vlmax .m2),
        m1.drop (H.vlmax .m2)]
  one s := Q.reconstructComponents F H code s.offset s.len
  two s := do
    let m ← Q.reconstructComponents F H code s.offset s.len
    return (m.take (H.vlmax .m2), m.drop (H.vlmax .m2))

def Similarity.factors (sim : Similarity) (a b : List K) : List K × List K :=
  match sim with
  | .l2 => (vfsub a b, vfsub a b)
  | .ip => (a, b)

def addTerms (G : Leftovers K) (sim : Similarity) (vacc : Fin 4 → Reg K) (j : Fin 4) (o : ℕ)
    (a b : List K) : Fin 4 → Reg K :=
  let p := sim.factors a b
  Function.update vacc j (vfmacc (vacc j) p.1 p.2 (G.tail j o))

section Distance

variable (H : Hardware) (G : Leftovers K) (sim : Similarity) (kind : QuantizerKind)

/-- One turn of the loop over four register groups.  The 6-bit quantiser puts `buffers * vlmax`
components into a buffer with room for `buffers * 128` of them. -/
def fourTurn (buffers : ℕ) (a b : Operand K) (vacc : Fin 4 → Reg K) (i : ℕ) :
    Except Fault (Fin 4 → Reg K) := do
  if kind = .codec6bit ∧ buffers * 128 < buffers * H.vlmax .m2 then
    throw (.thrown "RVV vlmax too large for stack buffer in DCTemplate_rvv")
  let b ← b.four i
  let a ← a.four i
  let vacc := addTerms G sim vacc 0 i (a 0) (b 0)
  let vacc := addTerms G sim vacc 1 (i + H.vlmax .m2) (a 1) (b 1)
  let vacc := addTerms G sim vacc 2 (i + 2 * H.vlmax .m2) (a 2) (b 2)
  return addTerms G sim vacc 3 (i + 3 * H.vlmax .m2) (a 3) (b 3)

def stripTurn (a b : Operand K) (vacc : Fin 4 → Reg K) (s : Strip) : Except Fault (Fin 4 → Reg K) :=
  if kind.narrow then do
    let b ← b.one s
    let a ← a.one s
    return addTerms G sim vacc 0 s.offset a b
  else do
    let (vl0, vl1) := splitVl (H.vlmax .m2) s.len
    let b ← b.two s
    let a ← a.two s
    let vacc := if 0 < vl0 then addTerms G sim vacc 0 s.offset a.1 b.1 else vacc
    return if 0 < vl1 then addTerms G sim vacc 1 (s.offset + vl0) a.2 b.2 else vacc

def componentStrips (o n : ℕ) : List Strip :=
  if kind.narrow then (H.vsetvl .m2).strips o n else (H.vsetvl .m4).strips o n

def distanceRvv (buffers : ℕ) (a b : Operand K) (d : ℕ) : Except Fault K := do
  let vlmax := H.vlmax .m2
  let vacc ← (List.range (d / (4 * vlmax))).foldlM
    (fun vacc n => fourTurn H G sim kind buffers a b vacc (4 * vlmax * n)) fun _ => splat 0
  let vacc ← (componentStrips H kind (4 * vlmax * (d / (4 * vlmax))) (d % (4 * vlmax))).foldlM
    (stripTurn H G sim kind a b) vacc
  let f := fun j : Fin 4 => vfredusum (vacc j) vlmax (G.undef j)
  return f 0 + f 1 + f 2 + f 3

end Distance

variable (F : FloatFormat K) (H : Hardware) (G : Leftovers K)

def Quantizer.computeDistanceRvv (Q : Quantizer K) (sim : Similarity) (x : List K) (code : Code) :
    Except Fault K :=
  distanceRvv H G sim Q.kind 4 (queryOperand H x) (codeOperand F H Q code) Q.d

def Quantizer.computeCodeDistanceRvv (Q : Quantizer K) (sim : Similarity) (code1 code2 : Code) :
    Except Fault K :=
  distanceRvv H G sim Q.kind 8 (codeOperand F H Q code1) (codeOperand F H Q code2) Q.d

def batchTurn (sim : Similarity) (kind : QuantizerKind) (q : Operand K)
    (codes : Fin 4 → Operand K) (vacc : Fin 4 → Reg K) (s : Strip) :
    Except Fault (Fin 4 → Reg K) :=
  if kind.narrow then do
    let x0 ← (codes 0).one s
    let x1 ← (codes 1).one s
    let x2 ← (codes 2).one s
    let x3 ← (codes 3).one s
    let y ← q.one s
    let vacc := addTerms G sim vacc 0 s.offset y x0
    let vacc := addTerms G sim vacc 1 s.offset y x1
    let vacc := addTerms G sim vacc 2 s.offset y x2
    return addTerms G sim vacc 3 s.offset y x3
  else do
    let (vl0, vl1) := splitVl (H.vlmax .m2) s.len
    let x0 ← (codes 0).two s
    let x1 ← (codes 1).two s
    let x2 ← (codes 2).two s
    let x3 ← (codes 3).two s
    let y ← q.two s
    let low := fun vacc =>
      let vacc := addTerms G sim vacc 0 s.offset y.1 x0.1
      let vacc := addTerms G sim vacc 1 s.offset y.1 x1.1
      let vacc := addTerms G sim vacc 2 s.offset y.1 x2.1
      addTerms G sim vacc 3 s.offset y.1 x3.1
    let high := fun vacc =>
      let vacc := addTerms G sim vacc 0 (s.offset + vl0) y.2 x0.2
      let vacc := addTerms G sim vacc 1 (s.offset + vl0) y.2 x1.2
      let vacc := addTerms G sim vacc 2 (s.offset + vl0) y.2 x2.2
      addTerms G sim vacc 3 (s.offset + vl0) y.2 x3.2
    let vacc := if 0 < vl0 then low vacc else vacc
    return if 0 < vl1 then high vacc else vacc

def Quantizer.queryToCodesBatch4Rvv (Q : Quantizer K) (sim : Similarity) (x : List K)
    (codes : Fin 4 → Code) : Except Fault (Fin 4 → K) := do
  let vacc ← (componentStrips H Q.kind 0 Q.d).foldlM
    (batchTurn H G sim Q.kind (queryOperand H x) fun j => codeOperand F H Q (codes j))
    fun _ => splat 0
  return fun j => vfredusum (vacc j) (H.vlmax .m2) (G.undef j)

end Rvanns.Faiss
