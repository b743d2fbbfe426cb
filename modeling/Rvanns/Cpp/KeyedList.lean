import Mathlib

/-!
# Lists with a slot for every key

A map from keys to the slots of a vector, and the vector: key `keys[i]` has slot `i`.
-/

namespace Rvanns.Cpp

open List Option

variable {κ α : Type} [DecidableEq κ] {keys : List κ} {k : κ} {i : ℕ}

/-- The assignment `m[k] = a` for a map with the entries `m`. -/
def assign (m : List (κ × α)) (k : κ) (a : α) : List (κ × α) :=
  match m.lookup k with
  | none => m ++ [(k, a)]
  | some _ => m.map fun e => if e.1 = k then (k, a) else e

lemma lookup_zipIdx_of_not_mem (h : k ∉ keys) : (keys.zipIdx n).lookup k = none := by
  induction keys generalizing n with
  | nil => rfl
  | cons a keys ih =>
    rw [mem_cons, not_or] at h
    obtain ⟨hne, hmem⟩ := h
    rw [zipIdx_cons, lookup_cons, beq_eq_false_iff_ne.mpr hne]
    exact ih hmem

section

variable (hnodup : keys.Nodup)

include hnodup

lemma lookup_zipIdx_of_getElem? (h : keys[i]? = some k) :
    (keys.zipIdx n).lookup k = some (n + i) := by
  induction keys generalizing n i with
  | nil => simp at h
  | cons a keys ih =>
    obtain ⟨hmem, hnodup⟩ := nodup_cons.mp hnodup
    rw [zipIdx_cons, lookup_cons]
    cases i with
    | zero =>
      obtain rfl : a = k := some.inj h
      rw [beq_self_eq_true]
      rfl
    | succ i =>
      have hne : k ≠ a := by
        rintro rfl
        exact hmem (mem_of_getElem? h)
      rw [beq_eq_false_iff_ne.mpr hne]
      show (keys.zipIdx (n + 1)).lookup k = _
      rw [ih hnodup h]
      congr 1
      omega

/-- The slot of a key. -/
lemma lookup_zipIdx (h : keys[i]? = some k) : keys.zipIdx.lookup k = some i := by
  rw [lookup_zipIdx_of_getElem? hnodup h, Nat.zero_add]

/-- Conversely, what the map finds is the slot. -/
lemma getElem?_of_lookup_zipIdx (h : keys.zipIdx.lookup k = some i) : keys[i]? = some k := by
  by_cases hmem : k ∈ keys
  · obtain ⟨j, hj⟩ := mem_iff_getElem?.mp hmem
    rw [lookup_zipIdx hnodup hj] at h
    cases h
    exact hj
  · rw [lookup_zipIdx_of_not_mem hmem] at h
    cases h

lemma set_map (h : keys[i]? = some k) (f : κ → α) (a : α) :
    (keys.map f).set i a = keys.map (Function.update f k a) := by
  apply ext_getElem?
  intro j
  rw [getElem?_set, getElem?_map]
  by_cases hij : i = j
  · subst hij
    have hlt : i < (keys.map f).length := by
      rw [length_map]
      exact (List.getElem?_eq_some_iff.mp h).1
    rw [if_pos rfl, if_pos hlt, getElem?_map, h, map_some, Function.update_self]
  · rw [if_neg hij, getElem?_map]
    cases hj : keys[j]? with
    | none => rfl
    | some k' =>
      have hne : k' ≠ k := by
        rintro rfl
        exact hij ((getElem?_inj (List.getElem?_eq_some_iff.mp h).1 hnodup).mp (h.trans hj.symm))
      rw [map_some, map_some, Function.update_of_ne hne]

end

lemma find?_of_mem {β : Type} {l : List (ℕ × β)} {k : ℕ} {b : β}
    (hsorted : (l.map Prod.fst).Pairwise (· < ·)) (h : (k, b) ∈ l) :
    (l.find? fun p => decide (k ≤ p.1)) = some (k, b) := by
  induction l with
  | nil => cases h
  | cons p l ih =>
    rw [map_cons, pairwise_cons] at hsorted
    rcases mem_cons.mp h with rfl | h
    · exact find?_cons_of_pos (by simp)
    · have hlt : p.1 < k := hsorted.1 k (mem_map.mpr ⟨(k, b), h, rfl⟩)
      rw [find?_cons_of_neg (by simpa using hlt)]
      exact ih hsorted.2 h

end Rvanns.Cpp
