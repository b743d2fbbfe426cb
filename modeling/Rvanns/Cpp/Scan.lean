import Mathlib

/-!
# Scanning a vector

A loop that moves an index on while a condition holds of the entry there stops at the first entry of
which it does not hold.
-/

namespace Rvanns.Cpp

open List

variable {α : Type*}

/-- `while (i < v.size() && p(v[i])) i++`. -/
def skipWhile (p : α → Bool) (v : List α) (i : ℕ) : ℕ := i + ((v.drop i).takeWhile p).length

lemma skipWhile_le (p : α → Bool) (h : i ≤ v.length) : skipWhile p v i ≤ v.length := by
  have hle := IsPrefix.length_le <| takeWhile_prefix p (l := v.drop i)
  rw [length_drop] at hle
  unfold skipWhile
  omega

lemma of_lt_skipWhile {p : α → Bool} (hij : i ≤ j)
    (hj : j < skipWhile p v i) (ha : v[j]? = some a) : p a = true := by
  obtain ⟨d, rfl⟩ := Nat.exists_eq_add_of_le hij
  have hd : d < ((v.drop i).takeWhile p).length := by
    unfold skipWhile at hj
    omega
  have hget : ((v.drop i).takeWhile p)[d]? = some a := by
    obtain ⟨rest, hrest⟩ := takeWhile_prefix p (l := v.drop i)
    rw [← getElem?_append_left hd, hrest, getElem?_drop]
    exact ha
  exact mem_takeWhile_imp (mem_of_getElem? hget)

lemma not_of_skipWhile {p : α → Bool} (ha : v[skipWhile p v i]? = some a) : p a = false := by
  rw [skipWhile, ← getElem?_drop] at ha
  generalize v.drop i = l at ha
  induction l with
  | nil => simp at ha
  | cons b l ih =>
    cases hb : p b with
    | true => exact ih (by simpa [hb] using ha)
    | false =>
      have hba : b = a := by simpa [hb] using ha
      exact hba ▸ hb

variable {D : Type*} [LinearOrder D] (key : α → D)

/-- The position that `std::upper_bound` returns. -/
def upperBound (l : List α) (a : D) : ℕ := (l.takeWhile fun x => key x ≤ a).length

@[simp]
lemma upperBound_nil (a : D) : upperBound key [] a = 0 := rfl

lemma upperBound_cons (x : α) (l : List α) (a : D) :
    upperBound key (x :: l) a = if key x ≤ a then upperBound key l a + 1 else 0 := by
  unfold upperBound
  by_cases h : key x ≤ a <;> simp [h]

lemma upperBound_le_length (l : List α) (a : D) : upperBound key l a ≤ l.length :=
  IsPrefix.length_le <| takeWhile_prefix _

/-- **Insertion keeps a vector sorted.** -/
lemma pairwise_insertIdx_upperBound {l : List α} (h : l.Pairwise fun x y => key x ≤ key y)
    (a : α) : (l.insertIdx (upperBound key l (key a)) a).Pairwise fun x y => key x ≤ key y := by
  induction l with
  | nil => simp
  | cons x l ih =>
    obtain ⟨hx, hl⟩ := pairwise_cons.mp h
    rw [upperBound_cons]
    split_ifs with hle
    · -- `x` stays in front
      rw [insertIdx_succ_cons, pairwise_cons]
      refine ⟨fun y hy => ?_, ih hl⟩
      rcases (mem_insertIdx (upperBound_le_length key l (key a))).mp hy with rfl | hy
      · exact hle
      · exact hx y hy
    · have hax : key a ≤ key x := le_of_not_ge hle
      rw [insertIdx_zero, pairwise_cons]
      refine ⟨fun y hy => ?_, h⟩
      rcases mem_cons.mp hy with rfl | hy
      · exact hax
      · exact le_trans hax (hx y hy)

end Rvanns.Cpp
