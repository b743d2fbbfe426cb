import Rvanns.Simd.DistancesAvx512

/-!
# The functions chosen for a processor

`fvec_hook` of `hook.cc`: every function has a portable version, which is replaced where the
processor has better instructions.
-/

namespace Rvanns.Simd

/-- The texts that `fvec_hook` can leave in `simd_type`. -/
inductive SimdType
  | generic
  | sse42
  | avx2
  | avx512
  | neon
  | sve
  | rvv
  | ppc
  deriving DecidableEq

def u64BinarySearchEq : SimdType → (ℕ → UInt64) → ℕ → UInt64 → ℤ
  | .avx512 => u64BinarySearchEqAvx512
  | _ => u64BinarySearchEqRef

end Rvanns.Simd
