import Mathlib

/-!
# The ordered similarity of embedding lists

`get_ordered_sum_max_sim` of `emb_list_utils.h` aligns the vectors of a query with the vectors of a
list, without crossings, in one row of scores.  Distances are rational numbers.
-/

namespace Rvanns.Knowhere.OrderedMaxSim

section

variable (largerIsCloser : Bool)

def closer (a b : ℚ) : ℚ := if largerIsCloser then max a b else min a b

variable (dists : ℕ → ℚ)

/-- One turn of the outer loop: `scores[j]` is overwritten after `scores[j - 1]`. -/
def addRow (scores : ℕ → ℚ) : ℕ → ℚ
  | 0 => scores 0 + dists 0
  | j + 1 => closer largerIsCloser (addRow scores j) (scores (j + 1) + dists (j + 1))

/-- `scores` after `nq` turns; the source has its first `elLen` entries. -/
def addRows (elLen : ℕ) : ℕ → ℕ → ℚ
  | 0 => fun _ => 0
  | nq + 1 => addRow largerIsCloser (fun j => dists (nq * elLen + j)) (addRows elLen nq)

end

def getOrderedSumMaxSim (dists : ℕ → ℚ) (nq elLen : ℕ) (largerIsCloser : Bool) : Option ℚ :=
  if nq = 0 ∨ elLen = 0 then none
  else some (addRows largerIsCloser dists elLen nq (elLen - 1))

end Rvanns.Knowhere.OrderedMaxSim
