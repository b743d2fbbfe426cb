import Rvanns.Knowhere.DataViewFlat

/-!
# Norms and searches of flat data view indexes

Norms can be read where they are stored, and no search with a query is exact on every schedule.
-/

namespace Rvanns.Knowhere.DataViewFlat

open Cpp List

variable {Q V F : Type}

/-! ### Norms -/

section Norms

variable {norm : V → F} {s : DataViewFlat V F}

def HasNorms (norm : V → F) (s : DataViewFlat V F) : Prop :=
  s.norms = if s.isCosine then s.rows.map norm else []

lemma HasNorms.add (h : s.HasNorms norm) (call : AddCall norm) :
    (s.add norm call).HasNorms norm := by
  have hgiven : call.inNorms.getD (call.x.map norm) = call.x.map norm := by
    cases hin : call.inNorms with
    | none => rfl
    | some l => exact call.given l hin
  unfold HasNorms DataViewFlat.add at *
  rw [hgiven, h]
  split_ifs
  · exact map_append.symm
  · rfl

/-- **All norms can be read exactly if they are stored**: the bound check lets row 0 of an index
without norms pass. -/
theorem getDataNorm_iff (calls : List (AddCall norm)) (isCosine : Bool) :
    let s : DataViewFlat V F := calls.foldl (add norm) { isCosine }
    (∀ id row, s.rows[id]? = some row → s.getDataNorm norm id = some (norm row)) ↔
      s.isCosine = true ∨ s.rows = [] := by
  intro s
  have hnorms : s.HasNorms norm :=
    foldlRecOn calls _ (by cases isCosine <;> rfl) fun s hs call _ => hs.add call
  unfold HasNorms at hnorms
  unfold getDataNorm
  constructor
  · intro h
    rcases s.isCosine.eq_false_or_eq_true with hcos | hcos
    · exact .inl hcos
    · cases hrows : s.rows with
      | nil => exact .inr rfl
      | cons row rows =>
        have hread := h 0 row (by rw [hrows]; rfl)
        simp [hnorms, hcos] at hread
  · rintro (hcos | hnone) id row hrow
    · have hlt := lt_length hrow
      rw [hnorms, if_pos hcos, length_map, if_neg (by omega), getElem?_map, hrow]
      rfl
    · simp [hnone] at hrow

theorem getDataNorm_first_row :
    (add (fun v : ℕ => v) { isCosine := false } ⟨[3], none, by simp⟩).getDataNorm (fun v => v) 0
      = none :=
  rfl

end Norms

/-! ### Searches -/

section Search

variable [Div F] (s : DataViewFlat V F) (computer : Q → V → F) (selects : ℕ → Bool)
  (collect : List (F × ℕ) → List (F × ℕ)) (inRadius inFilter : F → Bool) (queries : List Q)

structure Exact (le : F → F → Prop) (k : ℕ) : Prop where
  search : ∀ sched, ∃ out, s.search computer selects collect queries sched = some out ∧
    ∀ (i : ℕ) x, queries[i]? = some x → ∃ all top,
      s.exhaustiveSearch computer selects s.rows.length x = some all ∧
      out i = some top ∧ IsTopK le Prod.fst k all top
  rangeSearch : ∀ (i : ℕ) x, queries[i]? = some x → ∃ all found,
    s.exhaustiveSearch computer selects s.rows.length x = some all ∧
    s.rangeSearch computer selects inRadius inFilter queries i = some found ∧
    found.Perm (all.filter fun r => inRadius r.1 && inFilter r.1)

/-- All tasks run after the loop. -/
def Schedule.late (n : ℕ) : Schedule n := ⟨range n, .refl _, fun _ => n, fun _ => n, by omega⟩

/-- **No call with a query is exact on every schedule.** -/
theorem exact_iff (le : F → F → Prop) (k : ℕ) :
    s.Exact computer selects collect inRadius inFilter queries le k ↔ queries = [] := by
  constructor
  · intro h
    obtain ⟨out, hout, -⟩ := h.search (.late _)
    cases queries with
    | nil => rfl
    | cons x queries => simp [search, Schedule.late, range_succ_eq_map, searchTask] at hout
  · rintro rfl
    refine ⟨fun sched => ⟨fun _ => none, ?_, by simp⟩, by simp⟩
    have hnil : sched.order = [] := sched.perm.eq_nil
    rw [search, hnil]
    rfl

theorem search_late : search ⟨false, [1], []⟩ (fun x y : ℤ => x - y) (fun _ => true) (fun l => l)
    [1] (.late 1) = none :=
  rfl

end Search

end Rvanns.Knowhere.DataViewFlat
