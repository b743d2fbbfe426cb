import Rvanns.Cpp.Float
import Rvanns.Cpp.Vector

/-!
# The scalar reference kernels

`distances_ref.cc`.
-/

namespace Rvanns.Simd

open Cpp Literals

variable {α K : Type} [CommRing K]

def component (value : α → K) (x : List α) (i : ℕ) : Option K := x[i]?.map value

/-- `x[i] * y[i]`. -/
def innerProductTerm (value : α → K) (x y : List α) (i : ℕ) : Option K := do
  let xi ← component value x i
  let yi ← component value y i
  return xi * yi

/-- `tmp * tmp` for `tmp = x[i] - y[i]`. -/
def l2sqrTerm (value : α → K) (x y : List α) (i : ℕ) : Option K := do
  let xi ← component value x i
  let yi ← component value y i
  let tmp := xi - yi
  return tmp * tmp

/-- `x[i] * x[i]`. -/
def normL2sqrTerm (value : α → K) (x : List α) (i : ℕ) : Option K := do
  let xi ← component value x i
  return xi * xi

/-- `res = 0; for (i = 0; i < d; i++) res += term`. -/
def sumRef (term : ℕ → Option K) (d : ℕ) : Option K :=
  (List.range d).foldlM (fun res i => do return res + (← term i)) 0

/-- The same loop with four sums. -/
def sumBatch4Ref (term : Fin 4 → ℕ → Option K) (d : ℕ) : Option (Fin 4 → K) :=
  (List.range d).foldlM (fun dis i => do
    let t0 ← term 0 i
    let t1 ← term 1 i
    let t2 ← term 2 i
    let t3 ← term 3 i
    return ![dis 0 + t0, dis 1 + t1, dis 2 + t2, dis 3 + t3]) 0

def fvecInnerProductRef (x y : List K) (d : ℕ) : Option K := sumRef (innerProductTerm id x y) d

def fvecL2sqrRef (x y : List K) (d : ℕ) : Option K := sumRef (l2sqrTerm id x y) d

def fvecNormL2sqrRef (x : List K) (d : ℕ) : Option K := sumRef (normL2sqrTerm id x) d

def fvecInnerProductBatch4Ref (x : List K) (y : Fin 4 → List K) (d : ℕ) : Option (Fin 4 → K) :=
  sumBatch4Ref (fun j => innerProductTerm id x (y j)) d

def fvecL2sqrBatch4Ref (x : List K) (y : Fin 4 → List K) (d : ℕ) : Option (Fin 4 → K) :=
  sumBatch4Ref (fun j => l2sqrTerm id x (y j)) d

section Half

variable (F : FloatFormat K)

def fp16VecInnerProductRef (x y : List (BitVec 16)) (d : ℕ) : Option K :=
  sumRef (innerProductTerm F.ofHalf x y) d

def fp16VecL2sqrRef (x y : List (BitVec 16)) (d : ℕ) : Option K :=
  sumRef (l2sqrTerm F.ofHalf x y) d

variable (x : List (BitVec 16))

def fp16VecNormL2sqrRef (d : ℕ) : Option K :=
  sumRef (normL2sqrTerm F.ofHalf x) d

def fp16VecInnerProductBatch4Ref (y : Fin 4 → List (BitVec 16)) (d : ℕ) : Option (Fin 4 → K) :=
  sumBatch4Ref (fun j => innerProductTerm F.ofHalf x (y j)) d

def fp16VecL2sqrBatch4Ref (y : Fin 4 → List (BitVec 16)) (d : ℕ) : Option (Fin 4 → K) :=
  sumBatch4Ref (fun j => l2sqrTerm F.ofHalf x (y j)) d

def bf16VecInnerProductRef (x y : List (BitVec 16)) (d : ℕ) : Option K :=
  sumRef (innerProductTerm F.ofBf16 x y) d

def bf16VecL2sqrRef (x y : List (BitVec 16)) (d : ℕ) : Option K :=
  sumRef (l2sqrTerm F.ofBf16 x y) d

def bf16VecNormL2sqrRef (d : ℕ) : Option K :=
  sumRef (normL2sqrTerm F.ofBf16 x) d

def bf16VecInnerProductBatch4Ref (y : Fin 4 → List (BitVec 16)) (d : ℕ) : Option (Fin 4 → K) :=
  sumBatch4Ref (fun j => innerProductTerm F.ofBf16 x (y j)) d

def bf16VecL2sqrBatch4Ref (y : Fin 4 → List (BitVec 16)) (d : ℕ) : Option (Fin 4 → K) :=
  sumBatch4Ref (fun j => l2sqrTerm F.ofBf16 x (y j)) d

end Half

end Rvanns.Simd
