import Rvanns.Knowhere.Equiv.SparseAdd

/-!
# The distances of a sparse inverted index

`docScore` adds to a score what a row gives for one element of a query.
-/

namespace Rvanns.Knowhere.Sparse

open Cpp List

namespace InvertedIndex

section Distances

variable {S : Type} [FloatOps S] {base : InvertedIndex S} {maxDim dim i : ℕ}
  {row : SparseRow S} {rows : List (SparseRow S)} {comp : DocValueComputer S}

/-! ### The score of a row -/

def lengthOf (base : InvertedIndex S) (row : SparseRow S) : S :=
  if base.metricType = .bm25 then rowSum row else 0

def addValue (base : InvertedIndex S) (comp : DocValueComputer S) (row : SparseRow S)
    (weight score val : S) : S :=
  score + weight * comp (getQuantVal base.qtype val).toFloat (base.lengthOf row)

def docScore (base : InvertedIndex S) (comp : DocValueComputer S) (row : SparseRow S) (score : S)
    (e : ℕ × S) : S :=
  (valuesAt e.1 row).foldl (base.addValue comp row e.2) score

lemma docLength_ofRows (hrow : rows[i]? = some row) :
    (base.ofRows rows dims maxDim).docLength i = some (base.lengthOf row) := by
  unfold docLength lengthOf
  rw [show (base.ofRows rows dims maxDim).metricType = base.metricType from rfl]
  split_ifs with hmetric
  · rw [ofRows_rowSumsSpans hmetric, getElem?_map, hrow]
    rfl
  · rfl

lemma plist_ofRows {dims : List ℕ} {id : ℕ} (hnodup : dims.Nodup) (hdims : dims.length < 2 ^ 32)
    (hid : (base.ofRows rows dims maxDim).dimMap.lookup dim = some id) :
    (base.ofRows rows dims maxDim).plist id =
      some ((postings dim rows).map fun p => (p.1, getQuantVal base.qtype p.2)) := by
  have hget : dims[id]? = some dim := getElem?_of_lookup_zipIdx hnodup hid
  unfold plist
  rw [ofRows_idsSpans hdims, ofRows_valsSpans hdims, getElem?_map, getElem?_map, hget]
  show (if ((postings dim rows).map Prod.fst).length ≤ _ then _ else none) = _
  rw [if_pos (by simp), zip_map']

/-! ### All distances -/

lemma foldlM_addScore {idx : InvertedIndex S} (weight : S) (f : SparseRow S → S)
    {rows : List (SparseRow S)} (rest : List S) (hrows : rows.length ≤ 2 ^ 32)
    (hlength : ∀ j row, rows[j]? = some row → idx.docLength j = some (base.lengthOf row)) :
    ((postings dim rows).map fun p => (p.1, getQuantVal base.qtype p.2)).foldlM
        (idx.addScore comp weight) (rows.map f ++ rest) =
      some (rows.map (fun row => base.docScore comp row (f row) (dim, weight)) ++ rest) := by
  induction rows using reverseRecOn generalizing rest with
  | nil => rfl
  | append_singleton rows row ih =>
    rw [length_append, length_singleton] at hrows
    have hrow : idx.docLength rows.length = some (base.lengthOf row) := hlength _ _ (by simp)
    have hid : tableT rows.length = rows.length := tableT_of_lt (by omega)
    -- the values of the last row, whose score stands behind those of the others
    have hlast : ∀ (vals : List S) (score : S) (scores : List S), scores.length = rows.length →
        (vals.map fun val => (tableT rows.length, getQuantVal base.qtype val)).foldlM
            (idx.addScore comp weight) (scores ++ score :: rest) =
          some (scores ++ vals.foldl (base.addValue comp row weight) score :: rest) := by
      intro vals
      induction vals with
      | nil =>
        intro score scores _
        rfl
      | cons val vals ihvals =>
        intro score scores hlen
        rw [map_cons, foldlM_cons]
        have hstep : idx.addScore comp weight (scores ++ score :: rest)
            (tableT rows.length, getQuantVal base.qtype val) =
              some (scores ++ base.addValue comp row weight score val :: rest) := by
          unfold addScore
          rw [hid, hrow, ← hlen]
          simp [addValue]
        rw [hstep]
        exact ihvals _ _ hlen
    have hfirst : ∀ g : SparseRow S → S,
        (rows ++ [row]).map g ++ rest = rows.map g ++ g row :: rest := by simp
    rw [hfirst, hfirst, postings_append_singleton, map_append, foldlM_append, ih _ (by omega)]
    · rw [map_map]
      exact hlast _ _ _ (length_map _)
    · intro j r hj
      refine hlength j r ?_
      rw [getElem?_append_left (List.getElem?_eq_some_iff.mp hj).1]
      exact hj

lemma docScore_unseen (hdim : dim ∉ seenDims rows) (hrow : row ∈ rows) (score weight : S) :
    base.docScore comp row score (dim, weight) = score := by
  have hnil : valuesAt dim row = [] := by
    unfold valuesAt
    rw [map_eq_nil_iff, filter_eq_nil_iff]
    exact fun e he hval => hdim (mem_seenDims.mpr ⟨row, hrow, e, he, hval⟩)
  unfold docScore
  rw [hnil]
  rfl

def kept (thr : S) (query : SparseRow S) : SparseRow S :=
  query.filter fun e => !FloatOps.lt (FloatOps.abs e.2) thr

def parsed (dimMap : List (ℕ × ℕ)) (thr : S) (query : SparseRow S) : List (ℕ × S) :=
  query.filterMap fun e =>
    match dimMap.lookup e.1 with
    | none => none
    | some id => if FloatOps.lt (FloatOps.abs e.2) thr then none else some (id, e.2)

variable (hrows : rows.length ≤ 2 ^ 32) (hdims : (seenDims rows).length < 2 ^ 32)

include hrows hdims

lemma foldlM_plists (thr : S) (query : SparseRow S) (f : SparseRow S → S) :
    (parsed (seenDims rows).zipIdx thr query).foldlM (fun scores q => do
          let plist ← (base.ofRows rows (seenDims rows) maxDim).plist q.1
          plist.foldlM ((base.ofRows rows (seenDims rows) maxDim).addScore comp q.2) scores)
        (rows.map f) =
      some (rows.map fun row => (kept thr query).foldl (base.docScore comp row)
        (f row)) := by
  induction query generalizing f with
  | nil => rfl
  | cons e query ih =>
    cases hid : (seenDims rows).zipIdx.lookup e.1 with
    | none =>
      -- a dimension that no row has adds nothing to a score
      have hdim : e.1 ∉ seenDims rows := by
        intro hmem
        obtain ⟨id, hget⟩ := mem_iff_getElem?.mp hmem
        rw [lookup_zipIdx (nodup_seenDims rows) hget] at hid
        cases hid
      have hparsed : parsed (seenDims rows).zipIdx thr (e :: query) =
          parsed (seenDims rows).zipIdx thr query := by
        simp [parsed, hid]
      rw [hparsed, ih]
      refine congrArg some (map_congr_left fun row hrow => ?_)
      unfold kept
      rw [filter_cons]
      split_ifs
      · rw [foldl_cons, docScore_unseen hdim hrow]
      · rfl
    | some id =>
      cases hlt : FloatOps.lt (FloatOps.abs e.2) thr with
      | true =>
        have hparsed : parsed (seenDims rows).zipIdx thr (e :: query) =
            parsed (seenDims rows).zipIdx thr query := by
          simp [parsed, hid, hlt]
        have hkept : kept thr (e :: query) = kept thr query := by simp [kept, hlt]
        rw [hparsed, hkept]
        exact ih f
      | false =>
        have hparsed : parsed (seenDims rows).zipIdx thr (e :: query) =
            (id, e.2) :: parsed (seenDims rows).zipIdx thr query := by
          simp [parsed, hid, hlt]
        have hkept : kept thr (e :: query) = e :: kept thr query := by simp [kept, hlt]
        have hstep : ((postings e.1 rows).map fun p => (p.1, getQuantVal base.qtype p.2)).foldlM
            ((base.ofRows rows (seenDims rows) maxDim).addScore comp e.2) (rows.map f ++ []) =
            some (rows.map (fun row => base.docScore comp row (f row) e) ++ []) :=
          foldlM_addScore e.2 f [] hrows fun j row hj => docLength_ofRows hj
        rw [append_nil, append_nil] at hstep
        rw [hparsed, hkept, foldlM_cons]
        rw [plist_ofRows (nodup_seenDims rows) hdims hid]
        show (foldlM _ _ _ >>= _) = _
        rw [hstep]
        exact ih _

lemma computeAllDistances_ofRows (thr : S) (query : SparseRow S) :
    (base.ofRows rows (seenDims rows) maxDim).computeAllDistances
        (parsed (seenDims rows).zipIdx thr query) comp =
      some (rows.map fun row => (kept thr query).foldl (base.docScore comp row) 0) := by
  have hzero : replicate (base.ofRows rows (seenDims rows) maxDim).nRows (0 : S) =
      rows.map fun _ => 0 := map_const'.symm
  unfold computeAllDistances
  rw [hzero]
  exact foldlM_plists hrows hdims thr query fun _ => 0

/-! ### The distance of a row -/

lemma addRawScore_ofRows
    (hsorted : ∀ row ∈ rows, SparseRow.Sorted row) (hrow : rows[i]? = some row) (distance : S)
    (e : ℕ × S) :
    (base.ofRows rows (seenDims rows) maxDim).addRawScore i comp distance e =
      some (base.docScore comp row distance e) := by
  have hlt := (List.getElem?_eq_some_iff.mp hrow).1
  have hmem : row ∈ rows := mem_of_getElem? hrow
  unfold addRawScore
  rw [tableT_of_lt (by omega)]
  cases hid : (base.ofRows rows (seenDims rows) maxDim).dimMap.lookup e.1 with
  | none =>
    have hdim : e.1 ∉ seenDims rows := by
      intro hseen
      obtain ⟨id, hget⟩ := mem_iff_getElem?.mp hseen
      exact Option.some_ne_none id ((lookup_zipIdx (nodup_seenDims rows) hget).symm.trans hid)
    exact congrArg some (docScore_unseen hdim hmem distance e.2).symm
  | some id =>
    dsimp only
    rw [plist_ofRows (nodup_seenDims rows) hdims hid]
    simp only [Option.bind_eq_bind, Option.bind_some]
    have hpairs : (((postings e.1 rows).map fun p => (p.1, getQuantVal base.qtype p.2)).map
        Prod.fst).Pairwise (· < ·) := by
      rw [map_map]
      exact pairwise_postings hrows hsorted e.1
    unfold docScore
    match hvals : valuesAt e.1 row with
    | [] =>
      -- the entry that is found, if any, is one of another row
      cases hfind : ((postings e.1 rows).map fun p => (p.1, getQuantVal base.qtype p.2)).find?
          fun p => decide (i ≤ p.1) with
      | none => rfl
      | some p =>
        obtain ⟨q, hq, rfl⟩ := mem_map.mp (mem_of_find?_eq_some hfind)
        have hne : q.1 ≠ i := by
          rintro rfl
          obtain ⟨row', hrow', hval⟩ := (mem_postings hrows).mp hq
          obtain rfl : row = row' := Option.some.inj (hrow.symm.trans hrow')
          rw [hvals] at hval
          cases hval
        exact if_neg hne
    | [val] =>
      have hentry : (i, getQuantVal base.qtype val) ∈
          (postings e.1 rows).map fun p => (p.1, getQuantVal base.qtype p.2) := by
        refine mem_map.mpr ⟨(i, val), (mem_postings hrows).mpr ⟨row, hrow, ?_⟩, rfl⟩
        rw [hvals]
        exact mem_singleton_self val
      rw [find?_of_mem hpairs hentry]
      dsimp only
      rw [if_pos rfl, docLength_ofRows hrow]
      rfl
    | a :: b :: l =>
      have hle := length_valuesAt_le (hsorted row hmem) e.1
      rw [hvals] at hle
      simp at hle

lemma getRawDistance_ofRows (hsorted : ∀ row ∈ rows, SparseRow.Sorted row)
    (hrow : rows[i]? = some row) (query : SparseRow S) :
    (base.ofRows rows (seenDims rows) maxDim).getRawDistance i query comp =
      some (query.foldl (base.docScore comp row) 0) := by
  have hrun : ∀ distance : S,
      query.foldlM ((base.ofRows rows (seenDims rows) maxDim).addRawScore i comp) distance =
        some (query.foldl (base.docScore comp row) distance) := by
    induction query with
    | nil => exact fun _ => rfl
    | cons e query ih =>
      intro distance
      rw [foldlM_cons, addRawScore_ofRows hrows hdims hsorted hrow]
      exact ih _
  exact hrun 0

end Distances

/-! ### Exact arithmetic -/

section Product

variable {F : Type} [Field F] {row query : SparseRow F}

def valueAt (row : SparseRow F) (dim : ℕ) : F := (row.lookup dim).getD 0

lemma valueAt_cons_self (dim : ℕ) (val : F) (row : SparseRow F) :
    valueAt ((dim, val) :: row) dim = val := by
  simp [valueAt]

lemma valueAt_cons_of_ne (h : dim ≠ dim') (val : F) (row : SparseRow F) :
    valueAt ((dim', val) :: row) dim = valueAt row dim := by
  unfold valueAt
  rw [lookup_cons, beq_eq_false_iff_ne.mpr h]

lemma valueAt_of_lt (h : ∀ e ∈ row, dim < e.1) : valueAt row dim = 0 := by
  induction row with
  | nil => rfl
  | cons e row ih =>
    rw [valueAt_cons_of_ne (h e mem_cons_self).ne]
    exact ih fun e' he' => h e' (mem_cons_of_mem e he')

def product (query row : SparseRow F) : F := (query.map fun e => e.2 * valueAt row e.1).sum

lemma product_cons (e : ℕ × F) (query row : SparseRow F) :
    product (e :: query) row = e.2 * valueAt row e.1 + product query row := by
  simp [product]

lemma product_cons_right (h : ∀ e ∈ query, j < e.1) :
    product query ((j, y) :: row) = product query row := by
  refine congrArg sum (map_congr_left fun e he => ?_)
  rw [valueAt_cons_of_ne (h e he).ne']

end Product

section Exact

variable {F : Type} [Field F] [LinearOrder F] [FloorSemiring F] {base : InvertedIndex F}
  {row query : SparseRow F} {rows : List (SparseRow F)}

lemma dotLoop_eq (hquery : SparseRow.Sorted query) (hrow : SparseRow.Sorted row) (acc : F) :
    dotLoop getDocValueOriginalComputer 0 query row acc = acc + product query row := by
  induction query, row, acc using dotLoop.induct (S := F) getDocValueOriginalComputer 0 with
  | case1 i x left j y right acc hlt ih =>
    have hsorted := pairwise_cons.mp hquery
    have hright := pairwise_cons.mp hrow
    rw [dotLoop, if_pos hlt, ih hsorted.2 hrow, product_cons]
    have hzero : valueAt ((j, y) :: right) i = 0 := by
      refine valueAt_of_lt fun e he => ?_
      rcases mem_cons.mp he with rfl | he
      · exact hlt
      · exact hlt.trans (hright.1 e he)
    rw [hzero, mul_zero, zero_add]
  | case2 i x left j y right acc hge hlt ih =>
    have hsorted := pairwise_cons.mp hquery
    have hright := pairwise_cons.mp hrow
    rw [dotLoop, if_neg hge, if_pos hlt, ih hquery hright.2, product_cons_right]
    intro e he
    rcases mem_cons.mp he with rfl | he
    · exact hlt
    · exact hlt.trans (hsorted.1 e he)
  | case3 i x left j y right acc hge hle ih =>
    obtain rfl : i = j := by omega
    have hsorted := pairwise_cons.mp hquery
    have hright := pairwise_cons.mp hrow
    rw [dotLoop, if_neg hge, if_neg hle, ih hsorted.2 hright.2, product_cons, valueAt_cons_self,
      product_cons_right hsorted.1, add_assoc]
    rfl
  | case4 right acc => simp [dotLoop, product]
  | case5 e left acc => simp [dotLoop, product, valueAt]

lemma docScore_eq (hqtype : base.qtype = .fp32) (hrow : SparseRow.Sorted row) (score : F)
    (e : ℕ × F) :
    base.docScore getDocValueOriginalComputer row score e = score + e.2 * valueAt row e.1 := by
  have hadd : base.addValue getDocValueOriginalComputer row e.2 = fun score val =>
      score + e.2 * val := by
    unfold addValue
    rw [hqtype]
    rfl
  unfold docScore
  rw [hadd]
  clear hadd
  induction row with
  | nil => simp [valueAt]
  | cons p row ih =>
    have hsorted := pairwise_cons.mp hrow
    by_cases hdim : p.1 = e.1
    · -- no other element of the row has this dimension
      have hrest : valuesAt e.1 row = [] := by
        unfold valuesAt
        rw [map_eq_nil_iff, filter_eq_nil_iff]
        intro q hq hval
        have hlt := hsorted.1 q hq
        simp only [isValueAt, Bool.and_eq_true, decide_eq_true_eq] at hval
        omega
      have hvalue : valueAt (p :: row) e.1 = p.2 := by
        rw [← hdim]
        exact valueAt_cons_self p.1 p.2 row
      rw [valuesAt_cons, hrest, hvalue]
      by_cases hzero : p.2 = 0
      · simp [isValueAt, hzero]
      · simp [isValueAt, hdim, hzero]
    · have hno : isValueAt e.1 p = false := isValueAt_of_ne (.symm hdim)
      rw [valuesAt_cons, hno, valueAt_cons_of_ne (.symm hdim)]
      exact ih hsorted.2

lemma foldl_docScore_eq (hqtype : base.qtype = .fp32) (hrow : SparseRow.Sorted row)
    (query : SparseRow F) (score : F) :
    query.foldl (base.docScore getDocValueOriginalComputer row) score =
      score + product query row := by
  induction query generalizing score with
  | nil => simp [product]
  | cons e query ih => rw [foldl_cons, ih, docScore_eq hqtype hrow, product_cons, add_assoc]

lemma getAllDistances_ofRows [IsStrictOrderedRing F] {maxDim : ℕ}
    {comp : DocValueComputer F} (hrows : rows.length ≤ 2 ^ 32)
    (hdims : (seenDims rows).length < 2 ^ 32) (hquery : query ≠ []) :
    (base.ofRows rows (seenDims rows) maxDim).getAllDistances query 0 none comp =
      some (rows.map fun row => query.foldl (base.docScore comp row) 0) := by
  have hparse : (base.ofRows rows (seenDims rows) maxDim).parseQuery query 0 =
      some (parsed (seenDims rows).zipIdx 0 query) := by
    unfold parseQuery
    rw [if_pos (by simp)]
    rfl
  have hkept : kept 0 query = query := by
    unfold kept
    rw [filter_eq_self]
    intro e _
    simp
  unfold getAllDistances
  rw [if_neg (by simpa using hquery), hparse]
  show ((base.ofRows rows (seenDims rows) maxDim).computeAllDistances _ comp >>= _) = _
  rw [computeAllDistances_ofRows hrows hdims, hkept]
  rfl

/-- **Three ways to a distance.** After any `Add`s, `GetRawDistance` of a row is what
`GetAllDistances` has for it, and with the inner product it is the `dot` of the query and the row.
-/
theorem getRawDistance_eq [IsStrictOrderedRing F] (metricType : SparseMetricType)
    (algo : InvertedIndexAlgo) (k1 b avgdl : F) (batches : List (List (SparseRow F) × ℤ))
    (hrows : (allRows batches).length ≤ 2 ^ 32)
    (hsorted : ∀ row ∈ allRows batches, SparseRow.Sorted row)
    (hdims : {dim | IsSeen (allRows batches) dim}.ncard < 2 ^ 32)
    (comp : DocValueComputer F) (hquery : query ≠ []) {i : ℕ}
    (hrow : (allRows batches)[i]? = some row) :
    ∃ idx distances distance, (create false metricType algo k1 b avgdl).addAll batches = .ok idx ∧
      idx.getAllDistances query 0 none comp = some distances ∧
      distances[i]? = some distance ∧ idx.getRawDistance i query comp = some distance ∧
      (metricType = .ip → comp = getDocValueOriginalComputer → SparseRow.Sorted query →
        distance = query.dot row) := by
  rw [ncard_seen] at hdims
  obtain ⟨maxDim, hrun⟩ := addAll_create metricType algo k1 b avgdl batches
  refine ⟨_, _, query.foldl ((create false metricType algo k1 b avgdl).docScore comp row) 0,
    hrun, getAllDistances_ofRows hrows hdims hquery, ?_,
    getRawDistance_ofRows hrows hdims hsorted hrow query, ?_⟩
  · rw [getElem?_map, hrow]
    rfl
  · rintro rfl rfl hquery
    have hrow := hsorted row (mem_of_getElem? hrow)
    rw [foldl_docScore_eq rfl hrow, SparseRow.dot, dotLoop_eq hquery hrow]

/-- A query with a dimension that no row has, and a row with a zero. -/
theorem getRawDistance_twoRows :
    ∃ idx distances distance, (create false .ip .daatMaxscore (1 : ℚ) 1 1).addAll
        [([[(1, 2), (4, 0), (6, 3)]], 7), ([[(6, 1)]], 7)] = .ok idx ∧
      idx.getAllDistances [(1, 5), (4, 1), (6, 1), (9, 1)] 0 none getDocValueOriginalComputer =
        some distances ∧
      distances[0]? = some distance ∧
      idx.getRawDistance 0 [(1, 5), (4, 1), (6, 1), (9, 1)] getDocValueOriginalComputer =
        some distance ∧
      (SparseMetricType.ip = .ip →
        (getDocValueOriginalComputer : DocValueComputer ℚ) = getDocValueOriginalComputer →
        SparseRow.Sorted [(1, (5 : ℚ)), (4, 1), (6, 1), (9, 1)] →
        distance = SparseRow.dot [(1, 5), (4, 1), (6, 1), (9, 1)] [(1, 2), (4, 0), (6, 3)]) := by
  refine getRawDistance_eq .ip .daatMaxscore 1 1 1
    [([[(1, 2), (4, 0), (6, 3)]], 7), ([[(6, 1)]], 7)] (by decide) ?_ ?_
    getDocValueOriginalComputer (by simp) rfl
  · simp [allRows, SparseRow.Sorted]
  · rw [ncard_seen]
    decide +kernel

/-- `dot` of a query that is not in order misses dimensions. -/
theorem dot_lt_rawDistance :
    ∃ idx, (create false .ip .taatNaive (1 : ℚ) 1 1).addAll [([[(1, 1), (2, 1)]], 3)] = .ok idx ∧
      idx.getRawDistance 0 [(2, 1), (1, 1)] getDocValueOriginalComputer = some 2 ∧
      SparseRow.dot [(2, (1 : ℚ)), (1, 1)] [(1, 1), (2, 1)] = 1 := by
  obtain ⟨maxDim, hrun⟩ := addAll_create .ip .taatNaive (1 : ℚ) 1 1 [([[(1, 1), (2, 1)]], 3)]
  refine ⟨_, hrun, ?_, ?_⟩
  · have hrow : (allRows [([[(1, (1 : ℚ)), (2, 1)]], (3 : ℤ))])[0]? = some [(1, 1), (2, 1)] := rfl
    rw [getRawDistance_ofRows (by decide) (by decide +kernel) (by simp [allRows, SparseRow.Sorted])
      hrow]
    decide +kernel
  · simp [SparseRow.dot, dotLoop, getDocValueOriginalComputer]

end Exact

end InvertedIndex

end Rvanns.Knowhere.Sparse
