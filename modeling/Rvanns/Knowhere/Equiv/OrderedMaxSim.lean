import Rvanns.Knowhere.OrderedMaxSim

/-!
# Optimal alignments

The row of scores holds the optima of all alignments up to each position.
-/

namespace Rvanns.Knowhere.OrderedMaxSim

/-- The sums of all alignments of `nq` query vectors with positions below `bound` that do not go
back; `f i` is the position of the query vector `i`. -/
def sums (dists : ℕ → ℚ) (elLen nq bound : ℕ) : Set ℚ :=
  {x | ∃ f : ℕ → ℕ, Monotone f ∧ (∀ i < nq, f i < bound) ∧
    ∑ i ∈ Finset.range nq, dists (i * elLen + f i) = x}

variable {dists : ℕ → ℚ} {elLen nq : ℕ}

lemma sums_zero (bound : ℕ) : sums dists elLen 0 bound = {0} := by
  ext x
  constructor
  · rintro ⟨f, -, -, rfl⟩
    rfl
  · rintro rfl
    exact ⟨id, monotone_id, nofun, rfl⟩

lemma sums_succ_zero : sums dists elLen (nq + 1) 0 = ∅ := by
  refine Set.eq_empty_of_forall_notMem ?_
  rintro x ⟨f, -, hlt, -⟩
  exact absurd (hlt 0 (Nat.succ_pos nq)) (Nat.not_lt_zero _)

/-- The last query vector is aligned with position `bound` or with an earlier one. -/
lemma sums_succ (bound : ℕ) : sums dists elLen (nq + 1) (bound + 1) =
    sums dists elLen (nq + 1) bound ∪
      (· + dists (nq * elLen + bound)) '' sums dists elLen nq (bound + 1) := by
  ext x
  constructor
  · rintro ⟨f, hf, hlt, rfl⟩
    rcases Nat.lt_succ_iff_lt_or_eq.mp (hlt nq (Nat.lt_succ_self nq)) with hlast | rfl
    · exact .inl ⟨f, hf, fun i hi => (hf (Nat.le_of_lt_succ hi)).trans_lt hlast, rfl⟩
    · exact .inr ⟨_, ⟨f, hf, fun i hi => hlt i (hi.trans (Nat.lt_succ_self nq)), rfl⟩,
        (Finset.sum_range_succ ..).symm⟩
  · rintro (⟨f, hf, hlt, rfl⟩ | ⟨_, ⟨f, hf, hlt, rfl⟩, rfl⟩)
    · exact ⟨f, hf, fun i hi => (hlt i hi).trans (Nat.lt_succ_self bound), rfl⟩
    · refine ⟨fun i => if i < nq then f i else bound, fun i j hij => ?_, fun i hi => ?_, ?_⟩
      · dsimp only
        split_ifs with hi hj
        · exact hf hij
        · exact Nat.le_of_lt_succ (hlt i hi)
        · omega
        · exact le_rfl
      · dsimp only
        split_ifs with hi'
        · exact hlt i hi'
        · exact Nat.lt_succ_self bound
      · rw [Finset.sum_range_succ]
        dsimp only
        rw [if_neg (lt_irrefl nq)]
        refine congrArg (· + _) (Finset.sum_congr rfl fun i hi => ?_)
        rw [if_pos (Finset.mem_range.mp hi)]

/-- The optimum, for similarities or distances. -/
def IsClosest (larger : Bool) (all : Set ℚ) (x : ℚ) : Prop :=
  if larger then IsGreatest all x else IsLeast all x

variable {larger : Bool} {all all' : Set ℚ} {a b : ℚ}

lemma IsClosest.closer (ha : IsClosest larger all a) (hb : IsClosest larger all' b) :
    IsClosest larger (all ∪ all') (closer larger a b) := by
  cases larger with
  | true => exact IsGreatest.union ha hb
  | false => exact IsLeast.union ha hb

lemma IsClosest.add (ha : IsClosest larger all a) (d : ℚ) :
    IsClosest larger ((· + d) '' all) (a + d) := by
  cases larger with
  | true => exact add_left_mono.map_isGreatest ha
  | false => exact add_left_mono.map_isLeast ha

lemma closest_addRows (larger : Bool) (dists : ℕ → ℚ) (elLen nq last : ℕ) :
    IsClosest larger (sums dists elLen nq (last + 1))
      (addRows larger dists elLen nq last) := by
  induction nq generalizing last with
  | zero =>
    rw [sums_zero]
    cases larger with
    | true => exact isGreatest_singleton
    | false => exact isLeast_singleton
  | succ nq ih =>
    -- along the row that is being added, the entry before is already the new one
    induction last with
    | zero =>
      rw [sums_succ, sums_succ_zero, Set.empty_union]
      exact (ih 0).add _
    | succ last ihrow =>
      rw [sums_succ]
      exact ihrow.closer ((ih (last + 1)).add _)

/-- **The optimal alignment**: the result is the greatest sum, or the least one for distances, of
all alignments of the query vectors with positions of the list that do not go back. -/
theorem getOrderedSumMaxSim_isClosest (dists : ℕ → ℚ) (nq elLen : ℕ+) (larger : Bool) :
    ∃ x, getOrderedSumMaxSim dists nq elLen larger = some x ∧
      IsClosest larger (sums dists elLen nq elLen) x := by
  have hclosest := closest_addRows larger dists elLen nq (elLen - 1)
  have hlen : (elLen : ℕ) - 1 + 1 = elLen := Nat.sub_add_cancel elLen.2
  rw [hlen] at hclosest
  exact ⟨_, if_neg (not_or.mpr ⟨nq.2.ne', elLen.2.ne'⟩), hclosest⟩

end Rvanns.Knowhere.OrderedMaxSim
