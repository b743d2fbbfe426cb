import Rvanns.Knowhere.SparseNodeRows

/-!
# Ids and the rows they lead to

Ids count the rows since the last `Train`, and lead to the rows of all calls of `Add`.
-/

namespace Rvanns.Knowhere.SparseNodeRows

open List

variable {ρ : Type}

def sinceTrain (calls : List (Call ρ)) : Option (List ρ) :=
  calls.foldl
    (fun since c =>
      match c with
      | .train created => if created then some [] else since
      | .add rows taken => if taken then since.map (· ++ rows) else since)
    none

def offered (calls : List (Call ρ)) : List ρ :=
  calls.flatMap fun c =>
    match c with
    | .train _ => []
    | .add rows _ => rows

lemma run_eq (calls : List (Call ρ)) :
    run calls = { index := (sinceTrain calls).map length, rawData := offered calls } := by
  induction calls using List.reverseRecOn with
  | nil => rfl
  | append_singleton calls c ih =>
    unfold run at ih ⊢
    rw [foldl_append, ih]
    unfold sinceTrain offered
    cases c with
    | train created => cases created <;> simp [call, train]
    | add rows taken =>
      cases hsince : sinceTrain calls with
      | none =>
        unfold sinceTrain at hsince
        cases taken <;> simp [call, add, addToIndex, hsince]
      | some since =>
        unfold sinceTrain at hsince
        cases taken <;> simp [call, add, addToIndex, hsince]

lemma getVectorByIds_eq_ok_iff {dim : ρ → ℤ} {node : Node ρ} {i : ℕ} {row : ρ} :
    (∃ d, getVectorByIds dim node [(i : ℤ)] = .ok ([row], d)) ↔ node.rawData[i]? = some row := by
  unfold getVectorByIds
  cases hraw : node.rawData with
  | nil => simp
  | cons first rest =>
    cases hi : (first :: rest)[i]? with
    | none => simp [hi, orUndefined, bind, Except.bind]
    | some r => simp [hi, orUndefined, bind, Except.bind, pure, Except.pure]

/-- **When ids lead to their own rows**: exactly if the rows since the last `Train` are the first of
all rows that have been passed to `Add`. -/
theorem getVectorByIds_run_iff (dim : ρ → ℤ) (calls : List (Call ρ)) :
    (∀ i < (run calls).index.getD 0, ∃ row d, ((sinceTrain calls).getD [])[i]? = some row ∧
      getVectorByIds dim (run calls) [(i : ℤ)] = .ok ([row], d)) ↔
      (sinceTrain calls).getD [] <+: offered calls := by
  have hcount : (run calls).index.getD 0 = ((sinceTrain calls).getD []).length := by
    rw [run_eq]
    cases sinceTrain calls <;> rfl
  have hraw : (run calls).rawData = offered calls := by rw [run_eq]
  rw [hcount, prefix_iff_getElem?]
  refine forall₂_congr fun i hi => ?_
  constructor
  · rintro ⟨row, d, hrow, hget⟩
    rw [← hraw, getVectorByIds_eq_ok_iff.mp ⟨d, hget⟩, ← hrow, getElem?_eq_getElem hi]
  · intro h
    obtain ⟨d, hd⟩ := getVectorByIds_eq_ok_iff.mpr (hraw ▸ h : (run calls).rawData[i]? = some _)
    exact ⟨_, d, getElem?_eq_getElem hi, hd⟩

/-- A row, a second `Train` and another row: the first id leads to the row of the index that is
gone. -/
theorem getVectorByIds_secondTrain :
    run [.train true, .add [1] true, .train true, .add [2] true]
      = { index := some 1, rawData := [1, 2] }
      ∧ sinceTrain [.train true, .add [1] true, .train true, .add [2] true] = some [2]
      ∧ getVectorByIds (fun _ => 3) { index := some 1, rawData := [1, 2] } [0] = .ok ([1], 3) :=
  ⟨rfl, rfl, rfl⟩

end Rvanns.Knowhere.SparseNodeRows
