import Rvanns.Knowhere.Equiv.SparseInvertedIndex

/-!
# The invariants of `Add`

What `Consistent` says of an index and the rows that have been added.
-/

namespace Rvanns.Knowhere.Sparse

open Cpp List

/-! ### Posting lists -/

section Postings

variable {S : Type} [FloatOps S] {dim i : ℕ} {val : S} {row : SparseRow S}
  {rows : List (SparseRow S)}

lemma mem_valuesAt : val ∈ valuesAt dim row ↔ (dim, val) ∈ row ∧ FloatOps.eq val 0 = false := by
  simp only [valuesAt, isValueAt, mem_map, mem_filter, Bool.and_eq_true,
    decide_eq_true_eq, Bool.not_eq_true']
  constructor
  · rintro ⟨e, ⟨he, rfl, hval⟩, rfl⟩
    exact ⟨he, hval⟩
  · rintro ⟨he, hval⟩
    exact ⟨(dim, val), ⟨he, rfl, hval⟩, rfl⟩

lemma length_valuesAt_le (hrow : SparseRow.Sorted row) (dim : ℕ) :
    (valuesAt dim row).length ≤ 1 := by
  have hsorted : (row.filter (isValueAt dim)).Pairwise fun a b => a.1 < b.1 :=
    hrow.sublist (filter_sublist)
  have hdim : ∀ e ∈ row.filter (isValueAt dim), e.1 = dim := by
    intro e he
    have hval := (mem_filter.mp he).2
    simp only [isValueAt, Bool.and_eq_true, decide_eq_true_eq] at hval
    exact hval.1
  unfold valuesAt
  rcases hl : row.filter (isValueAt dim) with _ | ⟨a, _ | ⟨b, l⟩⟩
  · exact Nat.zero_le _
  · exact le_rfl
  · rw [hl] at hsorted hdim
    have hlt := (pairwise_cons.mp hsorted).1 b mem_cons_self
    have ha := hdim a mem_cons_self
    have hb := hdim b (mem_cons_of_mem a mem_cons_self)
    omega

variable (hrows : rows.length ≤ 2 ^ 32)

include hrows

lemma mem_postings :
    (i, val) ∈ postings dim rows ↔ ∃ row, rows[i]? = some row ∧ val ∈ valuesAt dim row := by
  simp only [postings, mem_flatMap, mem_map, Prod.exists, mem_zipIdx_iff_getElem?, Prod.mk.injEq]
  constructor
  · rintro ⟨row, j, hj, v, hv, rfl, rfl⟩
    have hlt := (List.getElem?_eq_some_iff.mp hj).1
    rw [tableT_of_lt (by omega)]
    exact ⟨row, hj, hv⟩
  · rintro ⟨row, hi, hv⟩
    have hlt := (List.getElem?_eq_some_iff.mp hi).1
    exact ⟨row, i, hi, val, hv, tableT_of_lt (by omega), rfl⟩

lemma lt_of_mem_postings (h : (i, val) ∈ postings dim rows) : i < rows.length := by
  obtain ⟨row, hi, -⟩ := (mem_postings hrows).mp h
  exact (List.getElem?_eq_some_iff.mp hi).1

lemma pairwise_postings (hsorted : ∀ row ∈ rows, SparseRow.Sorted row)
    (dim : ℕ) : ((postings dim rows).map Prod.fst).Pairwise (· < ·) := by
  induction rows using List.reverseRecOn with
  | nil => exact .nil
  | append_singleton rows row ih =>
    rw [length_append, length_singleton] at hrows
    rw [postings_append_singleton, map_append, map_map, pairwise_append]
    refine ⟨ih (by omega) fun r hr => hsorted r (mem_append_left _ hr), ?_, ?_⟩
    · have hle := length_valuesAt_le (hsorted row (by simp)) dim
      match hv : valuesAt dim row with
      | [] => exact .nil
      | [_] => exact pairwise_singleton _ _
      | a :: b :: l =>
        rw [hv] at hle
        simp at hle
    · intro a ha b hb
      obtain ⟨p, hp, rfl⟩ := mem_map.mp ha
      obtain ⟨v, -, rfl⟩ := mem_map.mp hb
      have hlt : p.1 < rows.length := lt_of_mem_postings (by omega) hp
      rw [tableT_of_lt (by omega)]
      exact hlt

end Postings

/-! ### Values that are stored -/

section Exact

variable {F : Type} [Field F] [LinearOrder F] [IsStrictOrderedRing F] [FloorSemiring F]

namespace InvertedIndex

lemma toFloat_uint16 (val : F) :
    0 ≤ (getQuantVal .uint16 val).toFloat ∧ (getQuantVal .uint16 val).toFloat ≤ max 0 val := by
  unfold getQuantVal
  simp only [FloatOps.le_exact, FloatOps.ofUnsigned_exact, FloatOps.toUnsigned_exact,
    decide_eq_true_eq]
  split_ifs with hmax hmin
  · exact ⟨Nat.cast_nonneg _, le_max_of_le_right hmax⟩
  · show (0 : F) ≤ (0 : ℕ) ∧ ((0 : ℕ) : F) ≤ max 0 val
    rw [Nat.cast_zero]
    exact ⟨le_refl _, le_max_left _ _⟩
  · exact ⟨Nat.cast_nonneg _, le_max_of_le_right (Nat.floor_le (not_le.mp hmin).le)⟩

def lengthNorm (k1 b avgdl : F) (row : SparseRow F) : F :=
  k1 * (1 - b + b * ((row.map Prod.snd).sum / max avgdl 1))

omit [FloorSemiring F] in
lemma bm25_le {k c q val : F} (hc : 0 ≤ c) (hqc : 0 < q + c) (hq : 0 ≤ q) (hle : q ≤ max 0 val) :
    q * k / (q + c) ≤ max 0 (val * k / (val + c)) := by
  rcases le_or_gt val 0 with hval | hval
  · obtain rfl : q = 0 := le_antisymm (hle.trans (max_le (le_refl _) hval)) hq
    simp
  · rw [max_eq_right hval.le] at hle
    have hvc : 0 < val + c := by positivity
    rcases le_or_gt k 0 with hk | hk
    · have hneg : q * k / (q + c) ≤ 0 :=
        div_nonpos_of_nonpos_of_nonneg (mul_nonpos_of_nonneg_of_nonpos hq hk) hqc.le
      exact le_max_of_le_left hneg
    · refine le_max_of_le_right ?_
      rw [div_le_div_iff₀ hqc hvc]
      have hqk : q * k * c ≤ val * k * c := by gcongr
      nlinarith

lemma foldl_add_eq_sum {M : Type} [AddMonoid M] (row : List (ℕ × M)) (a : M) :
    row.foldl (fun sum e => sum + e.2) a = a + (row.map Prod.snd).sum := by
  induction row generalizing a with
  | nil => simp
  | cons e row ih => rw [foldl_cons, ih, map_cons, sum_cons, add_assoc]

omit [IsStrictOrderedRing F] in
lemma rowSum_eq_sum (row : SparseRow F) : rowSum row = (row.map Prod.snd).sum := by
  exact (foldl_add_eq_sum row 0).trans (zero_add _)

/-! ### The invariants -/

def IsSeen (rows : List (SparseRow F)) (dim : ℕ) : Prop :=
  ∃ row ∈ rows, ∃ val, (dim, val) ∈ row ∧ val ≠ 0

def Posted (idx : InvertedIndex F) (dim i : ℕ) (stored : Stored F) : Prop :=
  ∃ id ids vals, ∃ p : ℕ, idx.dimMap.lookup dim = some id ∧ idx.idsSpans[id]? = some ids ∧
    idx.valsSpans[id]? = some vals ∧ ids[p]? = some i ∧ vals[p]? = some stored

structure Consistent (idx : InvertedIndex F) (rows : List (SparseRow F)) : Prop where
  nRows_eq : idx.nRows = rows.length
  /-- Dimensions are mapped one-to-one onto the first numbers. -/
  nrInnerDims_eq : idx.nrInnerDims = {dim | IsSeen rows dim}.ncard
  seen_iff : ∀ dim, IsSeen rows dim ↔ ∃ id, idx.dimMap.lookup dim = some id
  id_lt : ∀ dim id, idx.dimMap.lookup dim = some id → id < idx.nrInnerDims
  injective : ∀ dim dim' id, idx.dimMap.lookup dim = some id → idx.dimMap.lookup dim' = some id →
    dim = dim'
  surjective : ∀ id < idx.nrInnerDims, ∃ dim, idx.dimMap.lookup dim = some id
  /-- Posting lists are in order. -/
  sorted : ∀ ids ∈ idx.idsSpans, ids.Pairwise (· < ·) ∧ ∀ i ∈ ids, i < idx.nRows
  posted_iff : ∀ dim i stored, idx.Posted dim i stored ↔ ∃ row val, rows[i]? = some row ∧
    (dim, val) ∈ row ∧ val ≠ 0 ∧ stored = getQuantVal idx.qtype val
  rowSums_eq : idx.metricType = .bm25 →
    idx.bm25Params.rowSumsSpans = rows.map fun row => (row.map Prod.snd).sum
  /-- The spans show the vectors. -/
  ids_eq : idx.idsSpans = idx.invertedIndexIds.data.map (·.data)
  vals_eq : idx.valsSpans = idx.invertedIndexVals.data.map (·.data)
  maxScore_eq : idx.algo.daat = true → idx.maxScoreSpans = idx.maxScoreInDim.data
  sums_eq : idx.metricType = .bm25 →
    idx.bm25Params.rowSumsSpans = idx.bm25Params.rowSums.data

def BoundsScores (idx : InvertedIndex F) (rows : List (SparseRow F))
    (P : SparseRow F → F → Prop) : Prop :=
  idx.algo.daat = true → ∀ row ∈ rows, ∀ dim val, (dim, val) ∈ row → val ≠ 0 → P row val →
    ∃ id score, idx.dimMap.lookup dim = some id ∧ idx.maxScoreSpans[id]? = some score ∧
      idx.valueScore (row.map Prod.snd).sum (getQuantVal idx.qtype val).toFloat ≤ score

variable {base : InvertedIndex F} {rows : List (SparseRow F)} {maxDim : ℕ}

omit [IsStrictOrderedRing F] in
lemma mem_seenDims_iff : dim ∈ seenDims rows ↔ IsSeen rows dim := by
  rw [mem_seenDims]
  refine exists_congr fun row => and_congr_right fun _ => ?_
  constructor
  · rintro ⟨⟨d, val⟩, he, hval⟩
    obtain ⟨rfl, hne⟩ : d = dim ∧ val ≠ 0 := by simpa [isValueAt] using hval
    exact ⟨val, he, hne⟩
  · rintro ⟨val, he, hne⟩
    exact ⟨(dim, val), he, by simpa [isValueAt] using hne⟩

omit [IsStrictOrderedRing F] in
lemma ncard_seen (rows : List (SparseRow F)) :
    {dim | IsSeen rows dim}.ncard = (seenDims rows).length := by
  have hset : {dim | IsSeen rows dim} = ((seenDims rows).toFinset : Set ℕ) := by
    ext dim
    rw [Finset.mem_coe, mem_toFinset]
    exact mem_seenDims_iff.symm
  rw [hset, Set.ncard_coe_finset, toFinset_card_of_nodup (nodup_seenDims rows)]

omit [IsStrictOrderedRing F] in
lemma posted_ofRows (hrows : rows.length ≤ 2 ^ 32) (hdims : (seenDims rows).length < 2 ^ 32)
    (dim i : ℕ) (stored : Stored F) :
    (base.ofRows rows (seenDims rows) maxDim).Posted dim i stored ↔
      ∃ row val, rows[i]? = some row ∧ (dim, val) ∈ row ∧ val ≠ 0 ∧
        stored = getQuantVal base.qtype val := by
  unfold Posted
  rw [ofRows_idsSpans hdims, ofRows_valsSpans hdims]
  constructor
  · rintro ⟨id, ids, vals, p, hid, hids, hvals, hi, hstored⟩
    have hget := getElem?_of_lookup_zipIdx (nodup_seenDims rows) hid
    rw [getElem?_map, hget] at hids hvals
    cases hids
    cases hvals
    rw [getElem?_map] at hi hstored
    cases hp : (postings dim rows)[p]? with
    | none => simp [hp] at hi
    | some q =>
      rw [hp] at hi hstored
      cases hi
      cases hstored
      obtain ⟨row, hrow, hval⟩ := (mem_postings hrows).mp (mem_of_getElem? hp)
      obtain ⟨he, hne⟩ := mem_valuesAt.mp hval
      exact ⟨row, q.2, hrow, he, by simpa using hne, rfl⟩
  · rintro ⟨row, val, hrow, he, hne, rfl⟩
    have hval : val ∈ valuesAt dim row := mem_valuesAt.mpr ⟨he, by simpa using hne⟩
    obtain ⟨p, hp⟩ := mem_iff_getElem?.mp ((mem_postings hrows).mpr ⟨row, hrow, hval⟩)
    have hseen : dim ∈ seenDims rows :=
      mem_seenDims_iff.mpr ⟨row, mem_of_getElem? hrow, val, he, hne⟩
    obtain ⟨id, hid⟩ := mem_iff_getElem?.mp hseen
    refine ⟨id, (postings dim rows).map Prod.fst,
      (postings dim rows).map fun p => getQuantVal base.qtype p.2, p,
      lookup_zipIdx (nodup_seenDims rows) hid, ?_, ?_, ?_, ?_⟩
    · rw [getElem?_map, hid]
      rfl
    · rw [getElem?_map, hid]
      rfl
    · rw [getElem?_map, hp]
      rfl
    · rw [getElem?_map, hp]
      rfl

omit [IsStrictOrderedRing F] in
lemma ofRows_consistent (hrows : rows.length ≤ 2 ^ 32)
    (hsorted : ∀ row ∈ rows, SparseRow.Sorted row) (hdims : (seenDims rows).length < 2 ^ 32) :
    (base.ofRows rows (seenDims rows) maxDim).Consistent rows := by
  have hnodup := nodup_seenDims rows
  have hnr : (base.ofRows rows (seenDims rows) maxDim).nrInnerDims = (seenDims rows).length :=
    tableT_of_lt hdims
  constructor
  case nRows_eq => rfl
  case nrInnerDims_eq => rw [hnr, ncard_seen]
  case seen_iff =>
    intro dim
    rw [← mem_seenDims_iff, mem_iff_getElem?]
    exact exists_congr fun id => ⟨lookup_zipIdx hnodup, getElem?_of_lookup_zipIdx hnodup⟩
  case id_lt =>
    intro dim id hid
    rw [hnr]
    exact (List.getElem?_eq_some_iff.mp (getElem?_of_lookup_zipIdx hnodup hid)).1
  case injective =>
    intro dim dim' id hid hid'
    have hdim := getElem?_of_lookup_zipIdx hnodup hid
    rw [getElem?_of_lookup_zipIdx hnodup hid'] at hdim
    exact (Option.some.inj hdim).symm
  case surjective =>
    intro id hid
    rw [hnr] at hid
    exact ⟨_, lookup_zipIdx hnodup (getElem?_eq_getElem hid)⟩
  case sorted =>
    intro ids hids
    obtain ⟨dim, -, rfl⟩ := mem_map.mp hids
    refine ⟨pairwise_postings hrows hsorted dim, fun i hi => ?_⟩
    obtain ⟨p, hp, rfl⟩ := mem_map.mp hi
    exact lt_of_mem_postings hrows hp
  case posted_iff => exact posted_ofRows hrows hdims
  case rowSums_eq =>
    intro (hmetric : base.metricType = .bm25)
    rw [ofRows_rowSumsSpans hmetric]
    exact map_congr_left fun row _ => rowSum_eq_sum row
  case ids_eq =>
    rw [ofRows_idsSpans hdims]
    show _ = ((seenDims rows).map fun dim => (⟨_, none⟩ : GrowableVector ℕ)).map (·.data)
    rw [map_map]
    rfl
  case vals_eq =>
    rw [ofRows_valsSpans hdims]
    show _ = ((seenDims rows).map fun dim => (⟨_, none⟩ : GrowableVector (Stored F))).map (·.data)
    rw [map_map]
    rfl
  case maxScore_eq =>
    intro (hdaat : base.algo.daat = true)
    rw [ofRows_maxScoreSpans hdaat]
    show _ = if base.algo.daat = true then (seenDims rows).map _ else []
    rw [valueScore_withSpans]
    exact (if_pos hdaat).symm
  case sums_eq =>
    intro (hmetric : base.metricType = .bm25)
    rw [ofRows_rowSumsSpans hmetric]
    exact (if_pos hmetric).symm

/-! ### Scores -/

omit [IsStrictOrderedRing F] in
lemma le_foldl_max (l : List F) (m : F) : m ≤ l.foldl FloatOps.max m := by
  induction l generalizing m with
  | nil => exact le_refl m
  | cons a l ih =>
    rw [foldl_cons, FloatOps.max_exact]
    exact (le_max_left m a).trans (ih _)

omit [IsStrictOrderedRing F] in
lemma le_foldl_max_of_mem {l : List F} (h : x ∈ l) (m : F) : x ≤ l.foldl FloatOps.max m := by
  induction l generalizing m with
  | nil => cases h
  | cons a l ih =>
    rw [foldl_cons, FloatOps.max_exact]
    rcases mem_cons.mp h with rfl | h
    · exact (le_max_right m x).trans (le_foldl_max l _)
    · exact ih h _

omit [IsStrictOrderedRing F] in
lemma topScore_nonneg (score : F → F → F) (rows : List (SparseRow F)) (dim : ℕ) :
    0 ≤ topScore score rows dim :=
  le_foldl_max _ 0

omit [IsStrictOrderedRing F] in
lemma le_topScore {score : F → F → F} {row : SparseRow F} (hrow : row ∈ rows)
    (hval : (dim, val) ∈ row) (hne : val ≠ 0) :
    score (row.map Prod.snd).sum val ≤ topScore score rows dim := by
  refine le_foldl_max_of_mem ?_ 0
  refine mem_flatMap.mpr ⟨row, hrow, mem_map.mpr ⟨val, ?_, ?_⟩⟩
  · exact mem_valuesAt.mpr ⟨hval, by simpa using hne⟩
  · rw [rowSum_eq_sum]

def Bounded (metricType : SparseMetricType) (k1 b avgdl : F) (row : SparseRow F) (val : F) : Prop :=
  metricType = .ip ∨ (getQuantVal .uint16 val).toFloat = val ∨
    0 ≤ lengthNorm k1 b avgdl row ∧
      0 < (getQuantVal .uint16 val).toFloat + lengthNorm k1 b avgdl row

lemma valueScore_stored_le {metricType : SparseMetricType} {algo : InvertedIndexAlgo}
    {k1 b avgdl : F} {row : SparseRow F} {val : F} (h : Bounded metricType k1 b avgdl row val) :
    (create false metricType algo k1 b avgdl).valueScore (row.map Prod.snd).sum
        (getQuantVal (create false metricType algo k1 b avgdl).qtype val).toFloat ≤
      max 0 ((create false metricType algo k1 b avgdl).valueScore (row.map Prod.snd).sum val) := by
  cases metricType with
  | ip => exact le_max_right 0 val
  | bm25 =>
    show getDocValueBM25Computer k1 b _ (getQuantVal .uint16 val).toFloat _ ≤
      max 0 (getDocValueBM25Computer k1 b _ val _)
    rcases h with h | hkeep | ⟨hnorm, hpos⟩
    · cases h
    · rw [hkeep]
      exact le_max_right _ _
    · rw [FloatOps.max_exact]
      obtain ⟨hnonneg, hle⟩ := toFloat_uint16 val
      exact bm25_le hnorm hpos hnonneg hle

lemma ofRows_boundsScores (metricType : SparseMetricType) (algo : InvertedIndexAlgo)
    (k1 b avgdl : F) (rows : List (SparseRow F)) (maxDim : ℕ) :
    ((create false metricType algo k1 b avgdl).ofRows rows (seenDims rows) maxDim).BoundsScores
      rows (Bounded metricType k1 b avgdl) := by
  intro (hdaat : algo.daat = true) row hrow dim val hval hne hbounded
  have hseen : dim ∈ seenDims rows := mem_seenDims_iff.mpr ⟨row, hrow, val, hval, hne⟩
  obtain ⟨id, hid⟩ := mem_iff_getElem?.mp hseen
  refine ⟨id, topScore (create false metricType algo k1 b avgdl).valueScore rows dim,
    lookup_zipIdx (nodup_seenDims rows) hid, ?_, ?_⟩
  · have hdaat' := hdaat
    rw [ofRows_maxScoreSpans hdaat', getElem?_map, hid]
    rfl
  · rw [valueScore_ofRows]
    refine (valueScore_stored_le hbounded).trans (max_le (topScore_nonneg _ _ _) ?_)
    exact le_topScore hrow hval hne

/-- **The invariants of `Add`.** A sequence of `Add`s succeeds and leaves an index that is
consistent with the rows added; its scores bound the contributions of the postings. -/
theorem addAll_consistent (metricType : SparseMetricType) (algo : InvertedIndexAlgo)
    (k1 b avgdl : F)
    (batches : List (List (SparseRow F) × ℤ)) (hrows : (allRows batches).length ≤ 2 ^ 32)
    (hsorted : ∀ row ∈ allRows batches, SparseRow.Sorted row)
    (hdims : {dim | IsSeen (allRows batches) dim}.ncard < 2 ^ 32) :
    ∃ idx, (create false metricType algo k1 b avgdl).addAll batches = .ok idx ∧
      idx.Consistent (allRows batches) ∧
      idx.BoundsScores (allRows batches) (Bounded metricType k1 b avgdl) := by
  rw [ncard_seen] at hdims
  obtain ⟨maxDim, hrun⟩ := addAll_create metricType algo k1 b avgdl batches
  exact ⟨_, hrun, ofRows_consistent hrows hsorted hdims,
    ofRows_boundsScores metricType algo k1 b avgdl (allRows batches) maxDim⟩

/-- Two batches, the second with an empty row and a zero. -/
theorem addAll_twoBatches :
    ∃ idx, (create false .bm25 .daatWand (1 : ℚ) 1 1).addAll
        [([[(3, 2), (7, 1)]], 8), ([[], [(3, 5 / 2), (4, 0)]], 8)] = .ok idx ∧
      idx.Consistent [[(3, 2), (7, 1)], [], [(3, 5 / 2), (4, 0)]] ∧
      idx.BoundsScores [[(3, 2), (7, 1)], [], [(3, 5 / 2), (4, 0)]] (Bounded .bm25 1 1 1) := by
  refine addAll_consistent .bm25 .daatWand 1 1 1
    [([[(3, 2), (7, 1)]], 8), ([[], [(3, 5 / 2), (4, 0)]], 8)] (by decide) ?_ ?_
  · simp [allRows, SparseRow.Sorted]
  · rw [ncard_seen]
    decide +kernel

/-- Where the sum of a row is negative, a value that 16 bits round down can contribute more than the
value itself: 5 contributes 5/2, and 11/2 gives the score 22/9. -/
theorem score_lt_contribution :
    ∃ idx, (create false .bm25 .daatWand (1 : ℚ) 1 1).addAll [([[(1, 11 / 2), (2, -13 / 2)]], 3)] =
        .ok idx ∧
      idx.Posted 1 0 (.uint16 5) ∧ idx.maxScoreSpans[0]? = some (22 / 9) ∧
      idx.valueScore (-1) (Stored.uint16 5).toFloat = 5 / 2 := by
  obtain ⟨maxDim, hrun⟩ := addAll_create .bm25 .daatWand (1 : ℚ) 1 1
    [([[(1, 11 / 2), (2, -13 / 2)]], 3)]
  refine ⟨_, hrun, ?_, ?_, ?_⟩
  · refine (posted_ofRows (by decide) (by decide +kernel) 1 0 _).mpr
      ⟨[(1, 11 / 2), (2, -13 / 2)], 11 / 2, rfl, mem_cons_self, by norm_num, ?_⟩
    decide +kernel
  · rw [ofRows_maxScoreSpans rfl]
    decide +kernel
  · rw [valueScore_ofRows]
    decide +kernel

end InvertedIndex

end Exact

end Rvanns.Knowhere.Sparse
