import Mathlib

/-!
# Bits with ranks

A sequence of bits together with a table that says for each position how many bits before it are
set.
-/

namespace Rvanns.Cpp

open List

/-- Bit `i` is there and set. -/
abbrev IsSet (bits : List Bool) (i : ℕ) : Prop := bits[i]? = some true

lemma getElem?_of_not_isSet (hi : i < bits.length)
    (h : ¬ IsSet bits i) : bits[i]? = some false := by
  rw [IsSet, getElem?_eq_getElem hi, Option.some.injEq, Bool.not_eq_true] at h
  rw [getElem?_eq_getElem hi, h]

/-- Bits and the table of their ranks. -/
structure RankedBits (w : ℕ) where
  bits : List Bool
  ranks : List ℕ
  count : ℕ
  ranks_eq : ranks = (List.range bits.length).map fun i => Nat.count (IsSet bits) i % 2 ^ w
  count_eq : count = Nat.count (IsSet bits) bits.length

namespace RankedBits

variable {w : ℕ}

def empty : RankedBits w where
  bits := []
  ranks := []
  count := 0
  ranks_eq := rfl
  count_eq := rfl

lemma count_append {bits : List Bool} (hi : i ≤ bits.length) (b : Bool) :
    Nat.count (IsSet (bits ++ [b])) i = Nat.count (IsSet bits) i := by
  rw [Nat.count_eq_card_filter_range, Nat.count_eq_card_filter_range]
  congr 1
  apply Finset.filter_congr
  intro k hk
  have hlt := Finset.mem_range.mp hk
  rw [IsSet, getElem?_append_left (by omega)]

def push (r : RankedBits w) (b : Bool) : RankedBits w where
  bits := r.bits ++ [b]
  ranks := r.ranks ++ [r.count % 2 ^ w]
  count := r.count + if b then 1 else 0
  ranks_eq := by
    rw [length_append, length_singleton, range_succ, map_append, r.ranks_eq, r.count_eq]
    congr 1
    · apply map_congr_left
      intro i hi
      rw [count_append (mem_range.mp hi).le]
    · simp only [map_cons, map_nil]
      rw [count_append le_rfl]
  count_eq := by
    rw [length_append, length_singleton, Nat.count_succ, count_append le_rfl, r.count_eq]
    simp [IsSet]

variable (r : RankedBits w)

/-- How many bits before `i` are set. -/
def rank (i : ℕ) : ℕ := Nat.count (IsSet r.bits) i

lemma getElem?_ranks (hi : i < r.bits.length) : r.ranks[i]? = some (r.rank i % 2 ^ w) := by
  rw [r.ranks_eq]
  simp [hi, rank]

lemma lt_length (hi : IsSet r.bits i) : i < r.bits.length :=
  (List.getElem?_eq_some_iff.mp hi).1

lemma rank_lt_count (hi : IsSet r.bits i) : r.rank i < r.count := by
  rw [r.count_eq]
  exact Nat.count_strict_mono hi (r.lt_length hi)

lemma rank_mono (h : i ≤ j) : r.rank i ≤ r.rank j := Nat.count_monotone _ h

lemma rank_add_le (i n : ℕ) : r.rank (i + n) ≤ r.rank i + n := by
  rw [rank, Nat.count_add]
  exact Nat.add_le_add_left (Nat.count_le _) _

/-- A set bit is counted behind it. -/
lemma rank_succ (i : ℕ) : r.rank (i + 1) = r.rank i + if IsSet r.bits i then 1 else 0 :=
  Nat.count_succ _ i

lemma rank_length : r.rank r.bits.length = r.count := r.count_eq.symm

lemma rank_le_count (h : i ≤ r.bits.length) : r.rank i ≤ r.count :=
  (r.rank_mono h).trans_eq r.rank_length

/-- Counting the set bits by a list of them. -/
lemma count_eq_length {l : List ℕ} (hl : l.Nodup) (h : ∀ i, IsSet r.bits i ↔ i ∈ l) :
    r.count = l.length := by
  have hfilter : {i ∈ Finset.range r.bits.length | IsSet r.bits i} = l.toFinset := by
    ext i
    rw [Finset.mem_filter, Finset.mem_range, mem_toFinset, ← h i]
    exact ⟨fun hi => hi.2, fun hi => ⟨r.lt_length hi, hi⟩⟩
  rw [r.count_eq, Nat.count_eq_card_filter_range, hfilter, toFinset_card_of_nodup hl]

/-- While all ranks fit, set bits have different ranks. -/
lemma rank_mod_injective (h : r.count ≤ 2 ^ w) (hi : IsSet r.bits i)
    (hj : IsSet r.bits j) (heq : r.rank i % 2 ^ w = r.rank j % 2 ^ w) : i = j := by
  rw [Nat.mod_eq_of_lt ((r.rank_lt_count hi).trans_le h),
    Nat.mod_eq_of_lt ((r.rank_lt_count hj).trans_le h)] at heq
  exact Nat.count_injective hi hj heq

end RankedBits

end Rvanns.Cpp
