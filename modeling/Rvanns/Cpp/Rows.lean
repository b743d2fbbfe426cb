import Rvanns.Cpp.Vector

/-!
# Rows of different lengths, stored one after the other

`rows.flatten` is the storage and `rowOffsets rows` the table of the places where the rows begin,
with the total length as its last entry.
-/

namespace Rvanns.Cpp

open List

variable {α β : Type*}

def runningTotals (total : ℕ) : List ℕ → List ℕ
  | [] => [total]
  | len :: lens => total :: runningTotals (total + len) lens

def rowOffsets (rows : List (List α)) : List ℕ := runningTotals 0 (rows.map List.length)

/-- Where row `i` begins. -/
def rowOffset (rows : List (List α)) (i : ℕ) : ℕ := ((rows.take i).map List.length).sum

lemma getElem?_runningTotals (lens : List ℕ) (total i : ℕ) (hi : i ≤ lens.length) :
    (runningTotals total lens)[i]? = some (total + (lens.take i).sum) := by
  induction lens generalizing total i with
  | nil =>
    obtain rfl : i = 0 := by simpa using hi
    rfl
  | cons len lens ih =>
    cases i with
    | zero => simp [runningTotals]
    | succ i =>
      rw [runningTotals, getElem?_cons_succ, ih (total + len) i (by simpa using hi),
        take_succ_cons, sum_cons, Nat.add_assoc]

lemma length_rowOffsets (rows : List (List α)) : (rowOffsets rows).length = rows.length + 1 := by
  suffices h : ∀ (lens : List ℕ) total, (runningTotals total lens).length = lens.length + 1 by
    rw [rowOffsets, h, length_map]
  intro lens
  induction lens with
  | nil => exact fun _ => rfl
  | cons len lens ih => exact fun total => congrArg (· + 1) (ih _)

variable {rows : List (List α)} {i : ℕ}

lemma getElem?_rowOffsets (hi : i ≤ rows.length) :
    (rowOffsets rows)[i]? = some (rowOffset rows i) := by
  rw [rowOffsets, getElem?_runningTotals _ _ _ (by simpa using hi), Nat.zero_add, ← map_take,
    rowOffset]

variable {r : List α}

lemma rowOffset_succ (hr : rows[i]? = some r) :
    rowOffset rows (i + 1) = rowOffset rows i + r.length := by
  rw [rowOffset, take_add_one, hr]
  simp [rowOffset]

lemma rowOffset_le (rows : List (List α)) (i : ℕ) : rowOffset rows i ≤ rows.flatten.length := by
  have hsplit : rows.flatten.length = ((rows.take i ++ rows.drop i).map length).sum := by
    rw [take_append_drop, length_flatten]
  rw [hsplit, map_append, sum_append, rowOffset]
  omega

/-- Dropping the storage up to where row `i` begins. -/
lemma drop_rowOffset (rows : List (List α)) (i : ℕ) :
    rows.flatten.drop (rowOffset rows i) = (rows.drop i).flatten := by
  induction rows generalizing i with
  | nil => simp
  | cons r rows ih =>
    cases i with
    | zero => simp [rowOffset]
    | succ i =>
      rw [rowOffset, take_succ_cons, map_cons, sum_cons, flatten_cons, ← drop_drop, drop_left]
      exact ih i

/-- The storage from offset `i` on starts with row `i`. -/
lemma take_drop_rowOffset (hr : rows[i]? = some r) :
    (rows.flatten.drop (rowOffset rows i)).take r.length = r := by
  obtain ⟨hi, rfl⟩ := List.getElem?_eq_some_iff.mp hr
  rw [drop_rowOffset, drop_eq_getElem_cons hi, flatten_cons, take_left]

/-- A piece of row `i`, cut out of the storage. -/
lemma take_drop_rowOffset_add (hr : rows[i]? = some r) (hn : a + n ≤ r.length) :
    (rows.flatten.drop (rowOffset rows i + a)).take n = (r.drop a).take n := by
  obtain ⟨hi, rfl⟩ := List.getElem?_eq_some_iff.mp hr
  rw [← drop_drop, drop_rowOffset, drop_eq_getElem_cons hi, flatten_cons,
    drop_append_of_le_length (by omega), take_append_of_le_length (by simp; omega)]

lemma rowOffset_add_le (hr : rows[i]? = some r) :
    rowOffset rows i + r.length ≤ rows.flatten.length :=
  rowOffset_succ hr ▸ rowOffset_le rows (i + 1)

variable {p : ℕ}

/-- Place `i` of row `p`, found in the storage. -/
lemma getElem?_flatten_rowOffset (hr : rows[p]? = some r) (hi : i < r.length) :
    rows.flatten[rowOffset rows p + i]? = r[i]? := by
  have hcut := congrArg (·[i]?) (take_drop_rowOffset hr)
  simpa only [getElem?_take_of_lt hi, getElem?_drop] using hcut

lemma idxOf_flatten [DecidableEq α] (hnd : rows.flatten.Nodup)
    (hr : rows[p]? = some r) (ha : a ∈ r) :
    rows.flatten.idxOf a = rowOffset rows p + r.idxOf a := by
  have hlt := idxOf_lt_length_of_mem ha
  have hplace : rows.flatten[rowOffset rows p + r.idxOf a]? = some a := by
    rw [getElem?_flatten_rowOffset hr hlt, getElem?_eq_getElem hlt, getElem_idxOf hlt]
  obtain ⟨hlen, hget⟩ := List.getElem?_eq_some_iff.mp hplace
  have hidx := hnd.idxOf_getElem _ hlen
  rwa [hget] at hidx

lemma mem_of_idxOf_flatten [DecidableEq α]
    (hr : rows[p]? = some r) (hi : i < r.length) (ha : a ∈ rows.flatten)
    (hidx : rows.flatten.idxOf a = rowOffset rows p + i) : a ∈ r := by
  have hlt := idxOf_lt_length_of_mem ha
  have hget := getElem?_flatten_rowOffset hr hi
  rw [← hidx, getElem?_eq_getElem hlt, getElem_idxOf hlt] at hget
  exact mem_of_getElem? hget.symm

lemma rowOffset_mono (rows : List (List α)) : Monotone (rowOffset rows) := by
  apply monotone_nat_of_le_succ
  intro i
  cases hr : rows[i]? with
  | none =>
    rw [rowOffset, rowOffset, take_add_one]
    simp
  | some r =>
    rw [rowOffset_succ hr]
    omega

/-- Every place of the storage belongs to a row. -/
lemma exists_rowOffset_add (hi : i < rows.flatten.length) :
    ∃ p r j, rows[p]? = some r ∧ j < r.length ∧ i = rowOffset rows p + j := by
  induction rows generalizing i with
  | nil => simp at hi
  | cons r rows ih =>
    rcases lt_or_ge i r.length with hlt | hge
    · exact ⟨0, r, i, rfl, hlt, by simp [rowOffset]⟩
    · obtain ⟨p, r', j, hr', hj, hplace⟩ := ih (i := i - r.length) (by
        rw [flatten_cons, length_append] at hi
        omega)
      refine ⟨p + 1, r', j, hr', hj, ?_⟩
      simp only [rowOffset, take_succ_cons, map_cons, sum_cons] at hplace ⊢
      omega

lemma findIdx?_rowOffsets (hr : rows[p]? = some r)
    (hj : j < r.length) : (rowOffsets rows).findIdx? (rowOffset rows p + j < ·) = some (p + 1) := by
  have hp : p < rows.length := lt_length hr
  obtain ⟨hlt, hget⟩ := List.getElem?_eq_some_iff.mp (getElem?_rowOffsets (i := p + 1) hp)
  refine findIdx?_eq_some_iff_getElem.mpr ⟨hlt, ?_, fun q hq => ?_⟩
  · rw [hget, rowOffset_succ hr]
    simpa using hj
  · obtain ⟨_, hgetq⟩ := List.getElem?_eq_some_iff.mp
      (getElem?_rowOffsets (show q ≤ rows.length by omega))
    have hmono := rowOffset_mono rows (show q ≤ p by omega)
    simp
    omega

/-- Elements of one row only are counted in this row. -/
lemma countP_flatten (hr : rows[p]? = some r)
    (hother : ∀ q r', rows[q]? = some r' → q ≠ p → ∀ a ∈ r', f a = false) :
    rows.flatten.countP f = r.countP f := by
  induction rows generalizing p with
  | nil => simp at hr
  | cons r₀ rows ih =>
    rw [flatten_cons, countP_append]
    cases p with
    | zero =>
      obtain rfl : r₀ = r := by simpa using hr
      have hrest : rows.flatten.countP f = 0 := by
        apply countP_eq_zero.mpr
        intro a ha
        obtain ⟨r', hr', ha⟩ := mem_flatten.mp ha
        obtain ⟨q, hq⟩ := getElem?_of_mem hr'
        simp [hother (q + 1) r' hq (by omega) a ha]
      omega
    | succ p =>
      have hfirst : r₀.countP f = 0 := by
        apply countP_eq_zero.mpr
        intro a ha
        simp [hother 0 r₀ rfl (by omega) a ha]
      rw [hfirst, Nat.zero_add]
      exact ih hr fun q r' hr' hq => hother (q + 1) r' hr' (by omega)

/-- The offsets only depend on the lengths of the rows. -/
lemma rowOffsets_congr
    (h : rows.map length = rows'.map length) : rowOffsets rows = rowOffsets rows' := by
  rw [rowOffsets, rowOffsets, h]

lemma rowOffset_congr (h : rows.map length = rows'.map length) (i : ℕ) :
    rowOffset rows i = rowOffset rows' i := by
  rw [rowOffset, rowOffset, map_take, map_take, h]

/-- Rows of one length: a matrix. -/
lemma rowOffset_of_length (h : ∀ r ∈ rows, r.length = c)
    (hi : i ≤ rows.length) : rowOffset rows i = i * c := by
  have hmap : (rows.take i).map length = replicate i c := by
    apply eq_replicate_iff.mpr
    refine ⟨by simp [hi], fun len hlen => ?_⟩
    obtain ⟨r, hr, rfl⟩ := mem_map.mp hlen
    exact h r (mem_of_mem_take hr)
  rw [rowOffset, hmap, sum_replicate_nat]

lemma writeRange_rowOffset_add (hr : rows[i]? = some r) (ha : a + vals.length ≤ r.length) :
    writeRange rows.flatten (rowOffset rows i + a) vals
      = some (rows.set i (r.take a ++ vals ++ r.drop (a + vals.length))).flatten := by
  obtain ⟨hi, rfl⟩ := List.getElem?_eq_some_iff.mp hr
  have hend := rowOffset_add_le hr
  have hoff : rowOffset rows i = (rows.take i).flatten.length := by rw [rowOffset, length_flatten]
  have hsplit : rows.flatten
      = (rows.take i).flatten ++ (rows[i] ++ (rows.drop (i + 1)).flatten) := by
    rw [← flatten_cons, ← flatten_append, ← drop_eq_getElem_cons hi, take_append_drop]
  rw [writeRange, if_pos (by omega), set_eq_take_append_cons_drop, if_pos hi, hsplit, hoff,
    take_length_add_append, Nat.add_assoc, drop_length_add_append,
    take_append_of_le_length (by omega), drop_append_of_le_length ha]
  simp

end Rvanns.Cpp
