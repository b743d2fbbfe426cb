import Mathlib

/-!
# Numberings

A list that is a permutation of `0, 1, …, n - 1` renumbers `n` things.
-/

namespace Rvanns.Cpp

open List

/-- `l` lists `0, 1, …, n - 1` in some order. -/
def IsNumbering (l : List ℕ) (n : ℕ) : Prop := l.Perm (range n)

instance (l : List ℕ) (n : ℕ) : Decidable (IsNumbering l n) :=
  inferInstanceAs (Decidable (l.Perm (range n)))

namespace IsNumbering

variable {l : List ℕ} {n : ℕ}

lemma length (h : IsNumbering l n) : l.length = n := by
  simpa using List.Perm.length_eq h

lemma nodup (h : IsNumbering l n) : l.Nodup := (List.Perm.nodup_iff h).mpr nodup_range

lemma mem_iff (h : IsNumbering l n) : o ∈ l ↔ o < n := by
  rw [List.Perm.mem_iff h, mem_range]

lemma of_nodup (hnd : l.Nodup) (hmem : ∀ o, o ∈ l ↔ o < n) : IsNumbering l n :=
  (perm_ext_iff_of_nodup hnd nodup_range).mpr fun o => by rw [hmem, mem_range]

/-- `n` different numbers below `n` are all of them. -/
lemma of_length_le (hnd : l.Nodup) (hlt : ∀ o ∈ l, o < n) (hlen : n ≤ l.length) :
    IsNumbering l n := by
  have hsub : l.Subperm (range n) := List.Nodup.subperm hnd fun o ho => mem_range.mpr (hlt o ho)
  exact hsub.perm_of_length_le (by simpa using hlen)

variable (h : IsNumbering l n)

include h

lemma getElem?_eq (hi : i < n) : l[i]? = some (l.getD i 0) := by
  rw [← h.length] at hi
  simp [hi]

lemma getD_map {α : Type*} (hi : i < n) (f : ℕ → α) (d : α) :
    (l.map f).getD i d = f (l.getD i 0) := by
  rw [getD_eq_getElem?_getD, getElem?_map, h.getElem?_eq hi, Option.map_some, Option.getD_some]

lemma getD_lt (hi : i < n) : l.getD i 0 < n :=
  h.mem_iff.mp (mem_of_getElem? (h.getElem?_eq hi))

lemma idxOf_lt (ho : o < n) : l.idxOf o < n := by
  rw [← h.length]
  exact idxOf_lt_length_of_mem (h.mem_iff.mpr ho)

lemma getD_idxOf (ho : o < n) : l.getD (l.idxOf o) 0 = o := by
  have hlt : l.idxOf o < l.length := idxOf_lt_length_of_mem (h.mem_iff.mpr ho)
  rw [getD_eq_getElem _ _ hlt, getElem_idxOf hlt]

lemma idxOf_getD (hi : i < n) : l.idxOf (l.getD i 0) = i := by
  have hlt : i < l.length := h.length.symm ▸ hi
  rw [getD_eq_getElem _ _ hlt, h.nodup.idxOf_getElem i hlt]

/-- The table of the places is the inverse of the numbering. -/
lemma getElem?_inverse_iff {i o : ℕ} : ((range n).map l.idxOf)[o]? = some i ↔ l[i]? = some o := by
  constructor
  · intro ho
    obtain ⟨hlt, rfl⟩ : o < n ∧ l.idxOf o = i := by simpa [List.getElem?_eq_some_iff] using ho
    rw [h.getElem?_eq (h.idxOf_lt hlt), h.getD_idxOf hlt]
  · intro hi
    have hlt := h.mem_iff.mp (mem_of_getElem? hi)
    obtain ⟨hil, rfl⟩ := List.getElem?_eq_some_iff.mp hi
    simp [hlt, h.nodup.idxOf_getElem i hil]

lemma eq_map_range : l = (range n).map (l.getD · 0) := by
  apply ext_getElem?
  intro i
  rcases lt_or_ge i n with hi | hi
  · rw [h.getElem?_eq hi]
    simp [hi]
  · rw [getElem?_eq_none (h.length.symm ▸ hi), getElem?_eq_none (by simpa using hi)]

lemma flatMap_perm {α : Type*} (f : ℕ → List α) :
    ((range n).flatMap fun i => f (l.getD i 0)).Perm ((range n).flatMap f) := by
  have hmap : ((range n).flatMap fun i => f (l.getD i 0)) = l.flatMap f := by
    conv_rhs => rw [h.eq_map_range, flatMap_map]
  rw [hmap]
  exact List.Perm.flatMap_right f h

end IsNumbering

def scattered {α : Type*} (l : List ℕ) (n : ℕ) (f : ℕ → α) (d : α) (i : ℕ) : List α :=
  (range n).map fun o => if l.idxOf o < i then f (l.idxOf o) else d

section Scattered

variable {α : Type*} {l : List ℕ} {n i : ℕ} {f : ℕ → α} {d : α}

@[simp] lemma length_scattered : (scattered l n f d i).length = n := by simp [scattered]

lemma scattered_zero : scattered l n f d 0 = replicate n d := by
  simp [scattered, map_const']

lemma getElem?_scattered (ho : o < n) :
    (scattered l n f d i)[o]? = some (if l.idxOf o < i then f (l.idxOf o) else d) := by
  simp [scattered, ho]

lemma IsNumbering.scattered_succ (hl : IsNumbering l n) (hi : i < n) :
    (scattered l n f d i).set (l.getD i 0) (f i) = scattered l n f d (i + 1) := by
  apply ext_getElem (by simp)
  intro o ho _
  have hon : o < n := by simpa using ho
  simp only [scattered, getElem_set, getElem_map, getElem_range]
  -- slot `o` changes in turn `i` exactly when `i` is the new number of `o`
  have hiff : l.getD i 0 = o ↔ l.idxOf o = i := by
    constructor
    · rintro rfl
      exact hl.idxOf_getD hi
    · rintro rfl
      exact hl.getD_idxOf hon
  by_cases heq : l.idxOf o = i
  · rw [if_pos (hiff.mpr heq), if_pos (by omega), heq]
  · rw [if_neg (hiff.not.mpr heq)]
    by_cases hlt : l.idxOf o < i
    · rw [if_pos hlt, if_pos (by omega)]
    · rw [if_neg hlt, if_neg (by omega)]

lemma IsNumbering.scattered_self (hl : IsNumbering l n) :
    scattered l n f d n = (range n).map fun o => f (l.idxOf o) := by
  apply map_congr_left
  intro o ho
  rw [if_pos (hl.idxOf_lt (mem_range.mp ho))]

end Scattered

end Rvanns.Cpp
