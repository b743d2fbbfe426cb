import Rvanns.Cpp.Float
import Rvanns.Rvv.Lanes

/-!
# The vector kernels

`distances_rvv.cc`.
-/

namespace Rvanns.Simd

open Cpp Literals Rvv

variable {K : Type} [CommRing K]

abbrev Factors (K : Type) := Strip → Option (List K × List K)

/-- The same for four accumulators. -/
abbrev Factors4 (K : Type) := Strip → Option (Fin 4 → List K × List K)

/-- Load a strip and convert its elements. -/
def loadStrip {α : Type} (value : α → K) (x : List α) (s : Strip) : Option (List K) := do
  let vx ← vle x s.offset s.len
  return vx.map value

section Factors

variable {α : Type} (value : α → K)

def innerProductFactors (x y : List α) : Factors K := fun s => do
  let vx ← loadStrip value x s
  let vy ← loadStrip value y s
  return (vx, vy)

def l2sqrFactors (x y : List α) : Factors K := fun s => do
  let vx ← loadStrip value x s
  let vy ← loadStrip value y s
  let vtmp := vfsub vx vy
  return (vtmp, vtmp)

def normL2sqrFactors (x : List α) : Factors K := fun s => do
  let vx ← loadStrip value x s
  return (vx, vx)

def innerProductFactors4 (x : List α) (y : Fin 4 → List α) : Factors4 K := fun s => do
  let vx ← loadStrip value x s
  let vy0 ← loadStrip value (y 0) s
  let vy1 ← loadStrip value (y 1) s
  let vy2 ← loadStrip value (y 2) s
  let vy3 ← loadStrip value (y 3) s
  return ![(vx, vy0), (vx, vy1), (vx, vy2), (vx, vy3)]

def l2sqrFactors4 (x : List α) (y : Fin 4 → List α) : Factors4 K := fun s => do
  let vx ← loadStrip value x s
  let vy0 ← loadStrip value (y 0) s
  let vy1 ← loadStrip value (y 1) s
  let vy2 ← loadStrip value (y 2) s
  let vy3 ← loadStrip value (y 3) s
  let vtmp0 := vfsub vx vy0
  let vtmp1 := vfsub vx vy1
  let vtmp2 := vfsub vx vy2
  let vtmp3 := vfsub vx vy3
  return ![(vtmp0, vtmp0), (vtmp1, vtmp1), (vtmp2, vtmp2), (vtmp3, vtmp3)]

end Factors

def unrolledTurn (vlmax : ℕ) (factors : Factors K) (vacc : Fin 4 → Reg K) (offset : ℕ) :
    Option (Fin 4 → Reg K) := do
  let p0 ← factors ⟨offset, vlmax⟩
  let p1 ← factors ⟨offset + vlmax, vlmax⟩
  let p2 ← factors ⟨offset + 2 * vlmax, vlmax⟩
  let p3 ← factors ⟨offset + 3 * vlmax, vlmax⟩
  return ![vfmaccTu (vacc 0) p0.1 p0.2, vfmaccTu (vacc 1) p1.1 p1.2,
    vfmaccTu (vacc 2) p2.1 p2.2, vfmaccTu (vacc 3) p3.1 p3.2]

/-- One strip of a loop with a single accumulator. -/
def keepTurn (factors : Factors K) (vacc : Reg K) (s : Strip) : Option (Reg K) := do
  let p ← factors s
  return vfmaccTu vacc p.1 p.2

/-- One strip of a loop with four accumulators. -/
def keepTurn4 (factors : Factors4 K) (vacc : Fin 4 → Reg K) (s : Strip) :
    Option (Fin 4 → Reg K) := do
  let p ← factors s
  return fun j => vfmaccTu (vacc j) (p j).1 (p j).2

def fvecRvv (H : Hardware) (G : Leftovers K) (factors : Factors K) (d : ℕ) : Option K := do
  let vlmax := H.vlmax .m2
  let vacc ← (List.range (d / (4 * vlmax))).foldlM
    (fun vacc j => unrolledTurn vlmax factors vacc (4 * vlmax * j)) fun _ => splat 0
  let vacc0 := vfadd (vacc 0) (vacc 1)
  let vacc2 := vfadd (vacc 2) (vacc 3)
  let vacc0 := vfadd vacc0 vacc2
  let vacc0 ← ((H.vsetvl .m2).strips (4 * vlmax * (d / (4 * vlmax))) (d % (4 * vlmax))).foldlM
    (keepTurn factors) vacc0
  return vfredusum vacc0 vlmax (G.undef 0)

def fvecBatch4Rvv (H : Hardware) (G : Leftovers K) (factors : Factors4 K) (d : ℕ) :
    Option (Fin 4 → K) := do
  let vlmax := H.vlmax .m1
  let vacc ← (List.range (d / vlmax)).foldlM
    (fun vacc j => keepTurn4 factors vacc ⟨vlmax * j, vlmax⟩) fun _ => splat 0
  let vacc ← ((H.vsetvl .m1).strips (vlmax * (d / vlmax)) (d % vlmax)).foldlM
    (keepTurn4 factors) vacc
  return fun j => vfredusum (vacc j) vlmax (G.undef j)

section Float

variable (H : Hardware) (G : Leftovers K)

def fvecInnerProductRvv (x y : List K) (d : ℕ) : Option K :=
  fvecRvv H G (innerProductFactors id x y) d

def fvecL2sqrRvv (x y : List K) (d : ℕ) : Option K := fvecRvv H G (l2sqrFactors id x y) d

def fvecNormL2sqrRvv (x : List K) (d : ℕ) : Option K := fvecRvv H G (normL2sqrFactors id x) d

def fvecInnerProductBatch4Rvv (x : List K) (y : Fin 4 → List K) (d : ℕ) : Option (Fin 4 → K) :=
  fvecBatch4Rvv H G (innerProductFactors4 id x y) d

def fvecL2sqrBatch4Rvv (x : List K) (y : Fin 4 → List K) (d : ℕ) : Option (Fin 4 → K) :=
  fvecBatch4Rvv H G (l2sqrFactors4 id x y) d

end Float

def looseTurn (G : Leftovers K) (factors : Factors K) (vacc : Reg K) (s : Strip) :
    Option (Reg K) := do
  let p ← factors s
  return vfmacc vacc p.1 p.2 (G.tail 0 s.offset)

/-- One strip with four accumulators. -/
def looseTurn4 (G : Leftovers K) (factors : Factors4 K) (vacc : Fin 4 → Reg K) (s : Strip) :
    Option (Fin 4 → Reg K) := do
  let p ← factors s
  return fun j => vfmacc (vacc j) (p j).1 (p j).2 (G.tail j s.offset)

def halfVecRvv (H : Hardware) (G : Leftovers K) (l : Lmul) (factors : Factors K) (d : ℕ) :
    Option K := do
  let vacc ← ((H.vsetvl l).strips 0 d).foldlM (looseTurn G factors) (splat 0)
  return vfredusum vacc ((H.vsetvl l).run d d) (G.undef 0)

/-- The half-precision batch kernels. -/
def halfVecBatch4Rvv (H : Hardware) (G : Leftovers K) (l : Lmul) (factors : Factors4 K) (d : ℕ) :
    Option (Fin 4 → K) := do
  let vacc ← ((H.vsetvl l).strips 0 d).foldlM (looseTurn4 G factors) fun _ => splat 0
  return fun j => vfredusum (vacc j) ((H.vsetvl l).run d d) (G.undef j)

section Half

variable (F : FloatFormat K) (H : Hardware) (G : Leftovers K)

def fp16VecInnerProductRvv (x y : List (BitVec 16)) (d : ℕ) : Option K :=
  halfVecRvv H G .m8 (innerProductFactors F.ofHalf x y) d

def fp16VecL2sqrRvv (x y : List (BitVec 16)) (d : ℕ) : Option K :=
  halfVecRvv H G .m4 (l2sqrFactors F.ofHalf x y) d

variable (x : List (BitVec 16))

def fp16VecNormL2sqrRvv (d : ℕ) : Option K :=
  halfVecRvv H G .m8 (normL2sqrFactors F.ofHalf x) d

def fp16VecInnerProductBatch4Rvv (y : Fin 4 → List (BitVec 16)) (d : ℕ) : Option (Fin 4 → K) :=
  halfVecBatch4Rvv H G .m4 (innerProductFactors4 F.ofHalf x y) d

def fp16VecL2sqrBatch4Rvv (y : Fin 4 → List (BitVec 16)) (d : ℕ) : Option (Fin 4 → K) :=
  halfVecBatch4Rvv H G .m4 (l2sqrFactors4 F.ofHalf x y) d

def bf16VecInnerProductRvv (x y : List (BitVec 16)) (d : ℕ) : Option K :=
  halfVecRvv H G .m8 (innerProductFactors F.ofBf16 x y) d

def bf16VecL2sqrRvv (x y : List (BitVec 16)) (d : ℕ) : Option K :=
  halfVecRvv H G .m4 (l2sqrFactors F.ofBf16 x y) d

def bf16VecNormL2sqrRvv (d : ℕ) : Option K :=
  halfVecRvv H G .m8 (normL2sqrFactors F.ofBf16 x) d

def bf16VecInnerProductBatch4Rvv (y : Fin 4 → List (BitVec 16)) (d : ℕ) : Option (Fin 4 → K) :=
  halfVecBatch4Rvv H G .m4 (innerProductFactors4 F.ofBf16 x y) d

def bf16VecL2sqrBatch4Rvv (y : Fin 4 → List (BitVec 16)) (d : ℕ) : Option (Fin 4 → K) :=
  halfVecBatch4Rvv H G .m2 (l2sqrFactors4 F.ofBf16 x y) d

end Half

end Rvanns.Simd
