import Mathlib

/-!
# Forests of parent links

A union-find structure over the numbers below `n`.
-/

namespace Rvanns.Cpp

open Function List

/-- Following `parent` from `v` leads to `root v`. -/
structure Forest (n : ℕ) (parent root rank : ℕ → ℕ) : Prop where
  parent_lt : ∀ v < n, parent v < n
  root_lt : ∀ v < n, root v < n
  root_parent : ∀ v < n, root (parent v) = root v
  parent_root : ∀ v < n, parent (root v) = root v
  root_of_parent_eq : ∀ v < n, parent v = v → root v = v
  rank_lt_parent : ∀ v < n, parent v ≠ v → rank v < rank (parent v)
  rank_lt_root : ∀ v < n, root v ≠ v → rank v < rank (root v)

/-- How many numbers have a higher rank than `v`. -/
def higher (n : ℕ) (rank : ℕ → ℕ) (v : ℕ) : ℕ := (range n).countP fun w => rank v < rank w

lemma higher_le (n : ℕ) (rank : ℕ → ℕ) (v : ℕ) : higher n rank v ≤ n := by
  exact countP_le_length.trans length_range.le

/-- Going up in rank leaves fewer numbers above. -/
lemma higher_lt (hw : w < n) (h : rank v < rank w) : higher n rank w < higher n rank v := by
  unfold higher
  have hsplit : (range n).countP (fun x => decide (rank v < rank x))
      = (range n).countP (fun x => decide (rank w < rank x))
        + (range n).countP (fun x => decide (rank v < rank x ∧ ¬ rank w < rank x)) := by
    induction range n with
    | nil => rfl
    | cons x l ih =>
      simp only [countP_cons, ih, decide_eq_true_eq]
      by_cases h1 : rank w < rank x
      · have h2 : rank v < rank x := h.trans h1
        simp [h1, h2]
        omega
      · by_cases h2 : rank v < rank x <;> simp [h1, h2]
        omega
  have hpos : 0 < (range n).countP (fun x => decide (rank v < rank x ∧ ¬ rank w < rank x)) :=
    countP_pos_iff.mpr ⟨w, mem_range.mpr hw, by simpa using h⟩
  omega

namespace Forest

variable {n : ℕ} {parent root rank : ℕ → ℕ}

/-- Every number alone. -/
lemma singletons (n : ℕ) : Forest n id id fun _ => 0 where
  parent_lt := fun _ hv => hv
  root_lt := fun _ hv => hv
  root_parent := fun _ _ => rfl
  parent_root := fun _ _ => rfl
  root_of_parent_eq := fun _ _ _ => rfl
  rank_lt_parent := fun _ _ h => absurd rfl h
  rank_lt_root := fun _ _ h => absurd rfl h

section

variable (h : Forest n parent root rank)

include h

lemma root_root (hv : v < n) : root (root v) = root v :=
  h.root_of_parent_eq _ (h.root_lt v hv) (h.parent_root v hv)

lemma rank_le_iterate (hv : v < n) : ∀ k, parent^[k] v < n ∧ rank v ≤ rank (parent^[k] v) := by
  intro k
  induction k with
  | zero => exact ⟨hv, le_rfl⟩
  | succ k ih =>
    rw [iterate_succ_apply']
    refine ⟨h.parent_lt _ ih.1, ih.2.trans ?_⟩
    by_cases hself : parent (parent^[k] v) = parent^[k] v
    · rw [hself]
    · exact (h.rank_lt_parent _ ih.1 hself).le

lemma parent_eq_of_iterate_eq (hv : v < n) (hcycle : parent^[k + 1] v = v) : parent v = v := by
  by_contra hne
  have hup := (h.rank_le_iterate (h.parent_lt v hv) k).2
  rw [← iterate_succ_apply, hcycle] at hup
  exact absurd (h.rank_lt_parent v hv hne) (not_lt.mpr hup)

/-- Only the links of the numbers below `n` matter. -/
lemma congr (heq : ∀ v < n, parent' v = parent v) : Forest n parent' root rank where
  parent_lt := fun v hv => heq v hv ▸ h.parent_lt v hv
  root_lt := h.root_lt
  root_parent := fun v hv => by rw [heq v hv, h.root_parent v hv]
  parent_root := fun v hv => by rw [heq _ (h.root_lt v hv), h.parent_root v hv]
  root_of_parent_eq := fun v hv hp => h.root_of_parent_eq v hv (heq v hv ▸ hp)
  rank_lt_parent := fun v hv hp => by
    rw [heq v hv] at hp ⊢
    exact h.rank_lt_parent v hv hp
  rank_lt_root := h.rank_lt_root

/-- **Shortening a path**: linking a number to its root. -/
lemma shorten (hu : u < n) (hne : parent u ≠ u) :
    Forest n (update parent u (root u)) root rank := by
  have hself : ∀ v, update parent u (root u) v = if v = u then root u else parent v :=
    fun v => update_apply parent u (root u) v
  refine ⟨fun v hv => ?_, h.root_lt, fun v hv => ?_, fun v hv => ?_, fun v hv hp => ?_,
    fun v hv hp => ?_, h.rank_lt_root⟩
  · rw [hself]
    split
    · exact h.root_lt u hu
    · exact h.parent_lt v hv
  · rw [hself]
    split
    · next heq => rw [heq, h.root_root hu]
    · exact h.root_parent v hv
  · -- a root is not `u`, which has a parent
    have hroot : root v ≠ u := by
      intro heq
      exact hne (heq ▸ h.parent_root v hv)
    rw [hself, if_neg hroot, h.parent_root v hv]
  · rw [hself] at hp
    split at hp
    · next heq => rw [heq] at hp ⊢; exact hp
    · exact h.root_of_parent_eq v hv hp
  · rw [hself] at hp ⊢
    split at hp
    · next heq =>
      rw [if_pos heq]
      subst heq
      exact h.rank_lt_root v hv hp
    · next heq =>
      rw [if_neg heq]
      exact h.rank_lt_parent v hv hp

end

/-- The roots after the tree of `s` was linked to `t`. -/
def joined (root : ℕ → ℕ) (s t : ℕ) (v : ℕ) : ℕ := if root v = s then t else root v

lemma link (h : Forest n parent root rank) (hs : s < n) (ht : t < n)
    (hroots : root s = s) (hroott : root t = t) (hne : s ≠ t) :
    Forest n (update parent s t) (joined root s t) (update rank t (max (rank t) (rank s + 1))) := by
  have hpt : parent t = t := hroott ▸ h.parent_root t ht
  have hjs : joined root s t s = t := by simp [joined, hroots]
  have hjt : joined root s t t = t := by simp [joined, hroott]
  have hpar : ∀ v, update parent s t v = if v = s then t else parent v :=
    fun v => update_apply parent s t v
  have hrank : ∀ v, update rank t (max (rank t) (rank s + 1)) v
      = if v = t then max (rank t) (rank s + 1) else rank v :=
    fun v => update_apply rank t _ v
  have hmax : rank t ≤ max (rank t) (rank s + 1) ∧ rank s < max (rank t) (rank s + 1) :=
    ⟨le_max_left _ _, by omega⟩
  -- ranks below a root stay below it
  have hle : ∀ w, rank w ≤ update rank t (max (rank t) (rank s + 1)) w := by
    intro w
    rw [hrank]
    split
    · next heq => exact heq ▸ hmax.1
    · exact le_rfl
  refine ⟨fun v hv => ?_, fun v hv => ?_, fun v hv => ?_, fun v hv => ?_, fun v hv hp => ?_,
    fun v hv hp => ?_, fun v hv hp => ?_⟩
  · rw [hpar]
    split
    · exact ht
    · exact h.parent_lt v hv
  · unfold joined
    split
    · exact ht
    · exact h.root_lt v hv
  · rw [hpar]
    split
    · next heq => rw [heq, hjs, hjt]
    · rw [joined, joined, h.root_parent v hv]
  · rw [hpar]
    unfold joined
    split
    · rw [if_neg (Ne.symm hne), hpt]
    · exact h.parent_root v hv
  · rw [hpar] at hp
    split at hp
    · next heq => exact absurd (heq.symm.trans hp.symm) hne
    · next hvs =>
      have hroot := h.root_of_parent_eq v hv hp
      rw [joined, hroot, if_neg hvs]
  · rw [hpar] at hp ⊢
    by_cases hvs : v = s
    · subst hvs
      rw [if_pos rfl, hrank, hrank, if_neg hne, if_pos rfl]
      exact hmax.2
    · rw [if_neg hvs] at hp ⊢
      have hvt : v ≠ t := by
        rintro rfl
        exact hp hpt
      have hlt := h.rank_lt_parent v hv hp
      rw [hrank v, if_neg hvt]
      exact hlt.trans_le (hle _)
  · have hvt : v ≠ t := by
      rintro rfl
      exact hp hjt
    rw [hrank v, if_neg hvt]
    by_cases hvs : root v = s
    · -- everything in the tree of `s` ranks at most as high as `s`
      have hle' : rank v ≤ rank s := by
        by_cases heq : root v = v
        · rw [← hvs, heq]
        · exact hvs ▸ (h.rank_lt_root v hv heq).le
      rw [joined, if_pos hvs, hrank, if_pos rfl]
      exact hle'.trans_lt hmax.2
    · rw [joined, if_neg hvs] at hp ⊢
      exact (h.rank_lt_root v hv hp).trans_le (hle _)

end Forest

end Rvanns.Cpp
