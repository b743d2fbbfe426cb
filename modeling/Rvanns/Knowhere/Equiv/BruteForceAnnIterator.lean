import Rvanns.Knowhere.BruteForceAnnIterator

/-!
# Which ids the brute-force iterator returns
-/

namespace Rvanns.Knowhere.BruteForce

open Cpp Faiss List

variable {F : Type*}

lemma isSelected_idSelector (inp : Input F) (j : ℕ) :
    isSelected inp.idSelector j = !inp.filtered j := by
  have hempty : inp.shiftedBitset.empty = inp.bitset.empty := rfl
  unfold Input.idSelector Input.filtered
  rw [hempty]
  cases h : inp.bitset.empty <;> simp [isSelected]

lemma mem_collectAll (sel : Option (ℕ → Bool)) (distance : ℕ → F) (ny : ℕ) (filler : DistId F) :
    ∀ e ∈ collectAll sel distance ny (List.replicate ny filler),
      e = filler ∨ ∃ j < ny, isSelected sel j ∧ e = ⟨j, distance j⟩ := by
  -- The loop is followed one row at a time; `rows` are the rows still to come.
  have hloop : ∀ (rows : List ℕ) (output : List (DistId F)), (∀ j ∈ rows, j < ny) →
      (∀ e ∈ output, e = filler ∨ ∃ j < ny, isSelected sel j ∧ e = ⟨j, distance j⟩) →
      ∀ e ∈ rows.foldl
        (fun output j => if isSelected sel j then output.set j ⟨j, distance j⟩ else output) output,
        e = filler ∨ ∃ j < ny, isSelected sel j ∧ e = ⟨j, distance j⟩ := by
    intro rows
    induction rows with
    | nil => intro output _ h; exact h
    | cons j rows ih =>
      intro output hrows h
      rw [foldl_cons]
      apply ih _ fun i hi => hrows i (mem_cons_of_mem j hi)
      intro e he
      split_ifs at he with hsel
      · rcases mem_or_eq_of_mem_set he with he | rfl
        · exact h e he
        · exact .inr ⟨j, hrows j mem_cons_self, hsel, rfl⟩
      · exact h e he
  apply hloop _ _ fun j hj => mem_range.mp hj
  intro e he
  exact .inl (eq_of_mem_replicate he)

lemma mem_labelAll (large : F) (sel : Option (ℕ → Bool)) (distance : ℕ → F) (ny : ℕ)
    (e : DistId F) :
    e ∈ labelAll (allBinaryDistances large sel distance ny) ↔
      ∃ j < ny, e = ⟨j, if isSelected sel j then distance j else large⟩ := by
  rw [labelAll, mem_mapIdx]
  constructor
  · rintro ⟨j, hj, rfl⟩
    have hny : j < ny := by simpa [allBinaryDistances] using hj
    exact ⟨j, hny, by simp [allBinaryDistances]⟩
  · rintro ⟨j, hj, rfl⟩
    exact ⟨j, by simpa [allBinaryDistances] using hj, by simp [allBinaryDistances]⟩

def shiftId (beginId : ℕ) (id : ℤ) : ℤ := if id = -1 then -1 else id + beginId

lemma mem_shiftIds (beginId : ℕ) (entries : List (DistId F)) (r : DistId F) :
    r ∈ shiftIds beginId entries ↔ ∃ e ∈ entries, r = { e with id := shiftId beginId e.id } := by
  unfold shiftIds
  split_ifs with h
  · rw [mem_map]
    exact ⟨fun ⟨e, he, heq⟩ => ⟨e, he, heq.symm⟩, fun ⟨e, he, heq⟩ => ⟨e, he, heq.symm⟩⟩
  · obtain rfl : beginId = 0 := not_not.mp h
    have hid : ∀ e : DistId F, { e with id := shiftId 0 e.id } = e := by
      intro e
      ext
      · simp only [shiftId]
        split_ifs with hid <;> simp [hid]
      · rfl
    constructor
    · intro hr
      exact ⟨r, hr, (hid r).symm⟩
    · rintro ⟨e, he, rfl⟩
      rwa [hid]

lemma shiftId_natCast (beginId j : ℕ) : shiftId beginId j = beginId + j := by
  unfold shiftId
  omega

def Metric.isBinary (m : Metric) : Bool := m == .hamming || m == .jaccard

lemma mem_rowEntries_of_not_isBinary {inp : Input F} (hm : ¬ inp.metric.isBinary)
    (h : rowEntries constants inp = .ok entries) :
    ∀ e ∈ entries, e.id = -1 ∨ ∃ j : ℕ, ¬ inp.filtered j ∧ e.id = j := by
  have hcollect : ∀ filler : DistId F, filler.id = -1 → ∀ e ∈ collectAll inp.idSelector inp.distance
      inp.nb (List.replicate inp.nb filler), e.id = -1 ∨ ∃ j : ℕ, ¬ inp.filtered j ∧ e.id = j := by
    intro filler hfiller e he
    rcases mem_collectAll _ _ _ _ e he with rfl | ⟨j, -, hsel, rfl⟩
    · exact .inl hfiller
    · rw [isSelected_idSelector] at hsel
      exact .inr ⟨j, by simpa using hsel, rfl⟩
  unfold rowEntries at h
  cases hmetric : inp.metric <;> cases htype : inp.dataType <;>
    simp only [hmetric, htype, Metric.isBinary, reduceCtorEq, Except.ok.injEq, allL2sqr,
      allInnerProduct, allCosine] at h hm
  all_goals first
    | (subst h; exact hcollect _ rfl)
    | exact absurd rfl hm

lemma rowEntries_of_isBinary (constants : FloatConstants F)
    (hm : inp.metric.isBinary) (htype : inp.dataType = .bin1) :
    ∃ entries, rowEntries constants inp = .ok entries ∧ ∀ j < inp.nb, ∃ e ∈ entries, e.id = j := by
  have hlabel : ∀ large : F, ∀ j < inp.nb,
      ∃ e ∈ labelAll (allBinaryDistances large inp.idSelector inp.distance inp.nb), e.id = j :=
    fun large j hj => ⟨_, (mem_labelAll _ _ _ _ _).mpr ⟨j, hj, rfl⟩, rfl⟩
  unfold rowEntries
  cases hmetric : inp.metric with
  | hamming =>
    refine ⟨_, ?_, hlabel constants.intMax⟩
    simp only [htype, allHammingDistances]
  | jaccard =>
    refine ⟨_, ?_, hlabel constants.infinity⟩
    simp only [htype, allJaccardDistances]
  | l2 => simp [hmetric, Metric.isBinary] at hm
  | ip => simp [hmetric, Metric.isBinary] at hm
  | cosine => simp [hmetric, Metric.isBinary] at hm

lemma dataType_of_isBinary (hm : inp.metric.isBinary)
    (h : rowEntries constants inp = .ok entries) : inp.dataType = .bin1 := by
  unfold rowEntries at h
  cases hmetric : inp.metric <;> cases htype : inp.dataType <;>
    simp [hmetric, htype, Metric.isBinary] at h hm ⊢

/-- **Filtered rows**: the iterator never returns the id of a filtered base row exactly when the
metric is not a binary one, or not supported for the rows, or no base row is filtered. -/
theorem neverReturnsFiltered_iff [LinearOrder F] (constants : FloatConstants F) (inp : Input F) :
    NeverReturnsFiltered constants inp ↔
      ¬ inp.metric.isBinary ∨ inp.dataType ≠ .bin1 ∨ ∀ j < inp.nb, ¬ inp.filtered j := by
  constructor
  · intro h
    by_contra hne
    simp only [not_or, not_not, not_forall] at hne
    obtain ⟨hm, htype, j, hj, hfiltered⟩ := hne
    obtain ⟨entries, hrows, hall⟩ := rowEntries_of_isBinary constants hm htype
    obtain ⟨e, he, hid⟩ := hall j hj
    have hcompute : computeDist constants inp = .ok (shiftIds inp.beginId entries) := by
      rw [computeDist, hrows]
      rfl
    obtain ⟨calls, returned, hrun, hperm⟩ := PrecomputedDistanceIterator.exists_runCalls_perm
      StdPartialSort.reversedTail inp.largerIsCloser (shiftIds inp.beginId entries)
    have hmem := hperm.mem_iff.mpr ((mem_shiftIds _ _ _).mpr ⟨e, he, rfl⟩)
    refine h _ hcompute _ calls returned hrun _ hmem j hj ?_ hfiltered
    rw [hid, shiftId_natCast]
  · intro hcond entries hcompute P calls returned hrun r hr j hj hid
    obtain ⟨rows, hrows, rfl⟩ : ∃ rows, rowEntries constants inp = .ok rows ∧
        shiftIds inp.beginId rows = entries := by
      cases hrows : rowEntries constants inp with
      | error msg => simp [computeDist, hrows, Except.map] at hcompute
      | ok rows => exact ⟨rows, rfl, by simpa [computeDist, hrows, Except.map] using hcompute⟩
    have hmem := PrecomputedDistanceIterator.mem_of_runCalls hrun r hr
    obtain ⟨e, he, rfl⟩ := (mem_shiftIds _ _ _).mp hmem
    by_cases hm : inp.metric.isBinary
    · rcases hcond with hcond | hcond | hcond
      · exact absurd hm hcond
      · exact absurd (dataType_of_isBinary hm hrows) hcond
      · exact hcond j hj
    · rcases mem_rowEntries_of_not_isBinary hm hrows e he with hfiller | ⟨i, hi, hrow⟩
      · simp only [hfiller, shiftId, if_true] at hid
        omega
      · simp only [hrow, shiftId_natCast] at hid
        obtain rfl : i = j := by omega
        exact hi

def oneFilteredRow : Input ℤ where
  dataType := .bin1
  metric := .hamming
  nb := 1
  beginId := 0
  distance := fun _ => 0
  bitset := { bits := fun _ => 1, numBits := 1, numFilteredOutBits := 1 }

theorem not_neverReturnsFiltered_oneFilteredRow :
    ¬ NeverReturnsFiltered ⟨⟨-1000, 1000⟩, 1000, 999⟩ oneFilteredRow := by
  intro h
  have hid := h [⟨0, 999⟩] rfl StdPartialSort.reversedTail [.next] [⟨0, 999⟩] (by decide)
    ⟨0, 999⟩ mem_cons_self 0 (by decide) rfl
  exact hid (by decide)

end Rvanns.Knowhere.BruteForce
