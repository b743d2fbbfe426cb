import Mathlib

/-!
# Tables stored row by row

A table of `m` rows of `n` entries each, stored as one list.
-/

namespace Rvanns.Cpp

open List

variable {α : Type*}

/-- The rows `f 0, f 1, …, f (m - 1)` one after the other. -/
def tableOf (m : ℕ) (f : ℕ → List α) : List α := (List.range m).flatMap f

variable {f : ℕ → List α} {n : ℕ}

lemma tableOf_succ (m : ℕ) (f : ℕ → List α) : tableOf (m + 1) f = tableOf m f ++ f m := by
  simp [tableOf, range_succ, flatMap_append]

lemma length_tableOf (h : ∀ i < m, (f i).length = n) : (tableOf m f).length = m * n := by
  induction m with
  | zero => simp [tableOf]
  | succ m ih =>
    rw [tableOf_succ, length_append, ih fun i hi => h i (by omega), h m (by omega)]
    ring

/-- Cutting a row out of a table. -/
lemma take_drop_tableOf (h : ∀ i < m, (f i).length = n) (hi : i < m) :
    ((tableOf m f).drop (n * i)).take n = f i := by
  induction m with
  | zero => omega
  | succ m ih =>
    have hm : ∀ i < m, (f i).length = n := fun i hi => h i (by omega)
    have hlen : (tableOf m f).length = n * m := by rw [length_tableOf hm, mul_comm]
    rw [tableOf_succ]
    rcases lt_or_ge i m with him | him
    · have hle : n * i + n ≤ n * m := by exact Nat.mul_le_mul_left n him
      rw [drop_append_of_le_length (by omega), take_append_of_le_length, ih hm him]
      rw [length_drop]
      omega
    · obtain rfl : i = m := by omega
      rw [drop_left' hlen, take_of_length_le (h i (by omega)).le]

lemma getElem?_tableOf (h : ∀ i < m, (f i).length = n) (hi : i < m) (hs : s < n) :
    (tableOf m f)[i * n + s]? = (f i)[s]? := by
  rw [← take_drop_tableOf h hi, getElem?_take, if_pos hs, getElem?_drop, mul_comm]

/-! ### Blocks with padding -/

section

variable {β : Type*}

def padded (block used : ℕ) (D : ℕ → β) (fill : β) (p : ℕ) : β :=
  if p % block < used then D (p / block * used + p % block) else fill

variable {block used : ℕ} {D : ℕ → β} {fill : β}

lemma padded_of_lt (hle : used ≤ block) (hp : p < used) : padded block used D fill p = D p := by
  have hlt : p < block := by omega
  rw [padded, Nat.mod_eq_of_lt hlt, if_pos hp, Nat.div_eq_of_lt hlt, zero_mul, zero_add]

lemma padded_self (hpos : 0 < block) (p : ℕ) : padded block block D fill p = D p := by
  rw [padded, if_pos (Nat.mod_lt p hpos), mul_comm, Nat.div_add_mod]

lemma padded_of_le (hlt : used < block) (hp : used ≤ p) : padded block used D fill p = fill ∨
      ∃ q, used ≤ q ∧ q < p ∧ padded block used D fill p = D q := by
  unfold padded
  split_ifs with hmod
  · right
    have hdiv := Nat.div_add_mod p block
    have hone : 0 < p / block := by
      rcases Nat.eq_zero_or_pos (p / block) with h0 | h0
      · rw [h0] at hdiv
        omega
      · exact h0
    refine ⟨p / block * used + p % block, ?_, ?_, rfl⟩
    · have := Nat.le_mul_of_pos_left used hone
      omega
    · have := Nat.mul_lt_mul_of_pos_left hlt hone
      rw [mul_comm] at hdiv
      omega
  · exact .inl rfl

lemma padded_eq_iff (L : ℕ) (hused : 0 < used) (hle : used ≤ block) :
    (∀ p < L, padded block used D fill p = D p) ↔
      used = block ∨ ∀ p, used ≤ p → p < L → D p = fill := by
  constructor
  · intro h
    rcases Nat.lt_or_eq_of_le hle with hlt | heq
    · right
      -- each place takes its value from padding or from an earlier place behind the first block
      intro p
      induction p using Nat.strong_induction_on with
      | h p ih =>
        intro hp hpL
        rw [← h p hpL]
        rcases padded_of_le hlt hp with hfill | ⟨q, hq, hqp, hval⟩
        · exact hfill
        · rw [hval]
          exact ih q hqp hq (by omega)
    · exact .inl heq
  · rintro (rfl | hfill) p hpL
    · exact padded_self hused p
    · rcases lt_or_ge p used with hp | hp
      · exact padded_of_lt hle hp
      · rcases Nat.lt_or_eq_of_le hle with hlt | rfl
        · rcases padded_of_le hlt hp with hval | ⟨q, hq, hqp, hval⟩
          · rw [hval, hfill p hp hpL]
          · rw [hval, hfill p hp hpL, hfill q hq (by omega)]
        · exact padded_self hused p

end

end Rvanns.Cpp
