import Rvanns.Cpp.KeyedList
import Rvanns.Knowhere.SparseInvertedIndex

/-!
# What adding rows leaves

The index is a function of the rows that have been added.
-/

namespace Rvanns.Knowhere.Sparse

open Cpp List FloatOps GrowableVector

variable {S : Type} [FloatOps S] {dim : ℕ} {row pre : SparseRow S} {rows : List (SparseRow S)}
  {e : ℕ × S}

/-! ### The postings of a dimension -/

lemma tableT_of_lt (h : n < 2 ^ 32) : tableT n = n := Nat.mod_eq_of_lt h

def isValueAt (dim : ℕ) (e : ℕ × S) : Bool := e.1 = dim && !FloatOps.eq e.2 0

def valuesAt (dim : ℕ) (row : SparseRow S) : List S := (row.filter (isValueAt dim)).map Prod.snd

def postings (dim : ℕ) (rows : List (SparseRow S)) : List (ℕ × S) :=
  rows.zipIdx.flatMap fun p => (valuesAt dim p.1).map fun val => (tableT p.2, val)

@[simp] lemma valuesAt_nil (dim : ℕ) : valuesAt dim ([] : SparseRow S) = [] := rfl

lemma valuesAt_append (dim : ℕ) (pre row : SparseRow S) :
    valuesAt dim (pre ++ row) = valuesAt dim pre ++ valuesAt dim row := by
  simp [valuesAt]

lemma valuesAt_cons (dim : ℕ) (e : ℕ × S) (row : SparseRow S) :
    valuesAt dim (e :: row) = if isValueAt dim e then e.2 :: valuesAt dim row
      else valuesAt dim row := by
  unfold valuesAt
  cases h : isValueAt dim e <;> simp [h]

lemma valuesAt_singleton (dim : ℕ) (e : ℕ × S) :
    valuesAt dim [e] = if isValueAt dim e then [e.2] else [] := by
  unfold valuesAt
  cases h : isValueAt dim e <;> simp [h]

lemma postings_append_singleton (dim : ℕ) (rows : List (SparseRow S)) (row : SparseRow S) :
    postings dim (rows ++ [row]) =
      postings dim rows ++ (valuesAt dim row).map fun val => (tableT rows.length, val) := by
  simp [postings, zipIdx_append]

lemma length_postings (dim : ℕ) (rows : List (SparseRow S)) :
    (postings dim rows).length = rows.flatten.countP (isValueAt dim) := by
  induction rows using List.reverseRecOn with
  | nil => rfl
  | append_singleton rows row ih =>
    rw [postings_append_singleton, length_append, ih, length_map, valuesAt, length_map, ←
      countP_eq_length_filter, flatten_append, countP_append, flatten_singleton]

/-! ### The dimensions -/

def seeDim (dims : List ℕ) (e : ℕ × S) : List ℕ :=
  if FloatOps.eq e.2 0 ∨ e.1 ∈ dims then dims else dims ++ [e.1]

def seenDims (rows : List (SparseRow S)) : List ℕ := rows.flatten.foldl seeDim []

lemma nodup_foldl_seeDim (h : dims.Nodup) (row : SparseRow S) : (row.foldl seeDim dims).Nodup := by
  induction row generalizing dims with
  | nil => exact h
  | cons e row ih =>
    apply ih
    unfold seeDim
    split_ifs with hseen
    · exact h
    · rw [not_or] at hseen
      exact nodup_append_comm.mp (nodup_cons.mpr ⟨hseen.2, h⟩)

lemma mem_foldl_seeDim :
    dim ∈ row.foldl seeDim dims ↔ dim ∈ dims ∨ ∃ e ∈ row, isValueAt dim e = true := by
  induction row generalizing dims with
  | nil => simp
  | cons e row ih =>
    rw [foldl_cons, ih, exists_mem_cons_iff, ← or_assoc]
    refine or_congr_left ?_
    unfold seeDim isValueAt
    cases hzero : eq e.2 0 with
    | true => simp
    | false =>
      by_cases hmem : e.1 ∈ dims
      · simp only [hmem, or_true, if_true, Bool.not_false, Bool.and_true, decide_eq_true_eq]
        exact ⟨.inl, fun h => h.elim id fun heq => heq ▸ hmem⟩
      · simp [hmem, eq_comm]

lemma nodup_seenDims (rows : List (SparseRow S)) : (seenDims rows).Nodup :=
  nodup_foldl_seeDim nodup_nil _

lemma mem_seenDims : dim ∈ seenDims rows ↔ ∃ row ∈ rows, ∃ e ∈ row, isValueAt dim e = true := by
  unfold seenDims
  rw [mem_foldl_seeDim]
  simp only [not_mem_nil, false_or, mem_flatten]
  constructor
  · rintro ⟨e, ⟨row, hrow, he⟩, hval⟩
    exact ⟨row, hrow, e, he, hval⟩
  · rintro ⟨row, hrow, e, he, hval⟩
    exact ⟨e, ⟨row, hrow, he⟩, hval⟩

lemma isValueAt_self (h : eq e.2 0 = false) : isValueAt e.1 e = true := by
  simp [isValueAt, h]

lemma isValueAt_of_zero (h : eq e.2 0 = true) : isValueAt dim e = false := by
  simp [isValueAt, h]

lemma isValueAt_of_ne (h : dim ≠ e.1) : isValueAt dim e = false := by
  simp [isValueAt, h.symm]

lemma postings_eq_nil (h : ∀ e ∈ rows.flatten, isValueAt dim e = false) :
    postings dim rows = [] := by
  rw [← length_eq_zero_iff, length_postings, countP_eq_zero]
  exact fun e he => by rw [h e he]; exact Bool.false_ne_true

namespace InvertedIndex

/-! ### The members as functions of the rows -/

def topScore (score : S → S → S) (rows : List (SparseRow S)) (dim : ℕ) : S :=
  (rows.flatMap fun row => (valuesAt dim row).map (score (rowSum row))).foldl FloatOps.max 0

def filled (base : InvertedIndex S) (rows : List (SparseRow S))
    (dims : List ℕ) (top : ℕ → S) : InvertedIndex S :=
  { base with
    dimMap := dims.zipIdx
    nextDimId := dims.length
    invertedIndexIds :=
      { base.invertedIndexIds with
        data := dims.map fun dim => ⟨(postings dim rows).map Prod.fst, none⟩ }
    invertedIndexVals :=
      { base.invertedIndexVals with
        data := dims.map fun dim =>
          ⟨(postings dim rows).map fun p => getQuantVal base.qtype p.2, none⟩ }
    maxScoreInDim :=
      { base.maxScoreInDim with data := if base.algo.daat then dims.map top else [] } }

structure InMemory (base : InvertedIndex S) : Prop where
  mmapped : base.mmapped = false
  ids : base.invertedIndexIds.capacity = none
  vals : base.invertedIndexVals.capacity = none
  maxScore : base.maxScoreInDim.capacity = none
  rowSums : base.bm25Params.rowSums.capacity = none

variable {base : InvertedIndex S} {dims : List ℕ} {top : ℕ → S}

omit [FloatOps S] in
lemma emplaceBack_of_vector {α : Type} {v : GrowableVector α} (h : v.capacity = none) (a : α) :
    v.emplaceBack a = .ok { v with data := v.data ++ [a] } := by
  refine if_neg ?_
  rw [h]
  exact (Option.some_ne_none _).symm

lemma modifyAt_emplaceBack {α β : Type} {v : GrowableVector (GrowableVector α)} {f : ℕ → List β}
    {g : β → α} (hv : v.data = dims.map fun dim => ⟨(f dim).map g, none⟩)
    (hnodup : dims.Nodup) (hi : dims[i]? = some dim) (b : β) :
    (v.modifyAt i fun plist => plist.emplaceBack (g b)) = .ok { v with data := dims.map fun d =>
        ⟨(if d = dim then f d ++ [b] else f d).map g, none⟩ } := by
  have hget : v.data[i]? = some ⟨(f dim).map g, none⟩ := by
    rw [hv, getElem?_map, hi]
    rfl
  have hset : v.data.set i ⟨(f dim).map g ++ [g b], none⟩ =
      dims.map fun d => ⟨(if d = dim then f d ++ [b] else f d).map g, none⟩ := by
    rw [hv, set_map hnodup hi]
    apply map_congr_left
    intro d _
    by_cases hd : d = dim
    · subst hd
      simp
    · rw [Function.update_of_ne hd, if_neg hd]
  unfold GrowableVector.modifyAt
  rw [hget, defined_bind_some]
  show (emplaceBack _ (g b) >>= _) = _
  rw [emplaceBack_of_vector rfl, ok_bind, hset]
  rfl

lemma postings_value (hval : eq e.2 0 = false) (rows : List (SparseRow S))
    (pre : SparseRow S) (d : ℕ) :
    postings d (rows ++ [pre ++ [e]]) = if d = e.1
      then postings d (rows ++ [pre]) ++ [(tableT rows.length, e.2)]
      else postings d (rows ++ [pre]) := by
  rw [postings_append_singleton, postings_append_singleton, valuesAt_append, valuesAt_singleton]
  by_cases hd : d = e.1
  · subst hd
    rw [isValueAt_self hval]
    simp
  · rw [if_neg hd, isValueAt_of_ne hd]
    simp

lemma filled_congr (h : ∀ d, postings d rows = postings d rows') :
    base.filled rows dims top = base.filled rows' dims top := by
  unfold filled
  simp only [h]

lemma addPosting_seen (hval : eq e.2 0 = false) (hnodup : dims.Nodup) (hi : dims[i]? = some e.1) :
    (do
      let ids ← (base.filled (rows ++ [pre]) dims top).invertedIndexIds.modifyAt i
        fun plist => plist.emplaceBack (tableT rows.length)
      let vals ← (base.filled (rows ++ [pre]) dims top).invertedIndexVals.modifyAt i
        fun plist => plist.emplaceBack (getQuantVal base.qtype e.2)
      return { base.filled (rows ++ [pre]) dims top with
        invertedIndexIds := ids, invertedIndexVals := vals }) =
      .ok (base.filled (rows ++ [pre ++ [e]]) dims top) := by
  have hids := modifyAt_emplaceBack (v := (base.filled (rows ++ [pre]) dims top).invertedIndexIds)
    (g := Prod.fst) rfl hnodup hi (tableT rows.length, e.2)
  have hvals := modifyAt_emplaceBack (v := (base.filled (rows ++ [pre]) dims top).invertedIndexVals)
    (g := fun p => getQuantVal base.qtype p.2) rfl hnodup hi (tableT rows.length, e.2)
  rw [hids, hvals, ok_bind]
  unfold filled
  simp only [postings_value hval]
  rfl

lemma dimId_new (hbase : base.InMemory) (hmem : dim ∉ dims) (htop : top dim = 0)
    (hnil : postings dim rows = []) :
    (base.filled rows dims top).dimId dim
      = .ok (base.filled rows (dims ++ [dim]) top, dims.length) := by
  have hlookup : (base.filled rows dims top).dimMap.lookup dim = none :=
    lookup_zipIdx_of_not_mem hmem
  have hmapped : ¬ (base.filled rows dims top).mmapped = true := by
    rw [show (base.filled rows dims top).mmapped = false from hbase.mmapped]
    exact Bool.false_ne_true
  have hids := emplaceBack_of_vector
    (v := (base.filled rows dims top).invertedIndexIds) hbase.ids {}
  have hvals := emplaceBack_of_vector
    (v := (base.filled rows dims top).invertedIndexVals) hbase.vals {}
  have hscore := emplaceBack_of_vector
    (v := (base.filled rows dims top).maxScoreInDim) hbase.maxScore 0
  unfold dimId
  rw [hlookup]
  rw [if_neg hmapped, hids, hvals, ok_bind, hscore]
  cases hdaat : base.algo.daat <;>
    simp [filled, hdaat, zipIdx_append, htop, hnil, bind, Except.bind, pure, Except.pure]

/-- **One element of a row.**  The dimension has its place, or gets one; then nothing has been
posted for it yet. -/
theorem addPosting_filled (hbase : base.InMemory) (hnodup : dims.Nodup)
    (hnew : e.1 ∉ dims → top e.1 = 0 ∧ postings e.1 (rows ++ [pre]) = []) :
    addPosting (tableT rows.length) (base.filled (rows ++ [pre]) dims top) e =
      .ok (base.filled (rows ++ [pre ++ [e]]) (seeDim dims e) top) := by
  unfold addPosting seeDim
  cases hzero : eq e.2 0 with
  | true =>
    refine congrArg Except.ok (filled_congr fun d => ?_)
    rw [postings_append_singleton, postings_append_singleton, valuesAt_append, valuesAt_singleton,
      isValueAt_of_zero hzero]
    simp
  | false =>
    rw [if_neg Bool.false_ne_true]
    by_cases hmem : e.1 ∈ dims
    · obtain ⟨i, hi⟩ := mem_iff_getElem?.mp hmem
      have hid : (base.filled (rows ++ [pre]) dims top).dimId e.1
          = .ok (base.filled (rows ++ [pre]) dims top, i) := by
        unfold dimId
        rw [show (base.filled (rows ++ [pre]) dims top).dimMap = dims.zipIdx from rfl,
          lookup_zipIdx hnodup hi]
      rw [hid, if_pos (.inr hmem)]
      exact addPosting_seen hzero hnodup hi
    · obtain ⟨htop, hnil⟩ := hnew hmem
      have hid := dimId_new hbase hmem htop hnil
      rw [hid, if_neg (by simp [hmem])]
      refine addPosting_seen hzero ?_ ?_
      · exact nodup_append_comm.mp (nodup_cons.mpr ⟨hmem, hnodup⟩)
      · simp

/-! ### One row -/

lemma subset_seeDim (dims : List ℕ) (e : ℕ × S) : dims ⊆ seeDim dims e := by
  unfold seeDim
  split_ifs
  · exact List.Subset.refl _
  · exact subset_append_left _ _

def Covers (dims : List ℕ) (l : List (ℕ × S)) : Prop :=
  ∀ e ∈ l, FloatOps.eq e.2 0 = false → e.1 ∈ dims

lemma Covers.append_singleton (h : Covers dims l) (e : ℕ × S) :
    Covers (seeDim dims e) (l ++ [e]) := by
  intro e' he' hval
  rcases mem_append.mp he' with he' | he'
  · exact subset_seeDim dims e (h e' he' hval)
  · obtain rfl := mem_singleton.mp he'
    unfold seeDim
    by_cases hmem : e'.1 ∈ dims <;> simp [hval, hmem]

lemma Covers.postings_eq_nil (h : Covers dims rows.flatten) (hdim : dim ∉ dims) :
    postings dim rows = [] := by
  refine Sparse.postings_eq_nil fun e he => ?_
  cases hzero : eq e.2 0 with
  | true => exact isValueAt_of_zero hzero
  | false =>
    refine isValueAt_of_ne ?_
    rintro rfl
    exact hdim (h e he hzero)

lemma foldlM_addPosting (hbase : base.InMemory) (post : SparseRow S) (pre : SparseRow S)
    (dims : List ℕ) (hnodup : dims.Nodup) (hcovers : Covers dims (rows ++ [pre]).flatten)
    (htop : ∀ dim, dim ∉ dims → top dim = 0) :
    post.foldlM (addPosting (tableT rows.length)) (base.filled (rows ++ [pre]) dims top) =
      .ok (base.filled (rows ++ [pre ++ post]) (post.foldl seeDim dims) top) := by
  induction post generalizing pre dims with
  | nil =>
    rw [append_nil]
    rfl
  | cons e post ih =>
    have hassoc : pre ++ e :: post = pre ++ [e] ++ post := by simp
    have hflatten : (rows ++ [pre ++ [e]]).flatten = (rows ++ [pre]).flatten ++ [e] := by simp
    rw [foldlM_cons, addPosting_filled hbase hnodup fun hdim =>
      ⟨htop e.1 hdim, hcovers.postings_eq_nil hdim⟩, foldl_cons, hassoc]
    refine ih (pre ++ [e]) _ (nodup_foldl_seeDim hnodup [e]) ?_ ?_
    · rw [hflatten]
      exact hcovers.append_singleton e
    · exact fun dim hdim => htop dim fun hmem => hdim (subset_seeDim dims e hmem)

def raised (score : S → S) (top : ℕ → S) (row : SparseRow S) (dim : ℕ) : S :=
  ((valuesAt dim row).map score).foldl FloatOps.max (top dim)

lemma raised_append (score : S → S) (top : ℕ → S) (pre row : SparseRow S) :
    raised score top (pre ++ row) = raised score (raised score top pre) row := by
  ext dim
  simp [raised, valuesAt_append, foldl_append]

lemma topScore_append_singleton (score : S → S → S) (rows : List (SparseRow S))
    (row : SparseRow S) :
    topScore score (rows ++ [row]) = raised (score (rowSum row)) (topScore score rows) row := by
  ext dim
  simp [topScore, raised, foldl_append]

lemma updateMaxScore_filled {sum : S} (hdaat : base.algo.daat = true) (hnodup : dims.Nodup)
    (hmem : eq e.2 0 = false → e.1 ∈ dims) :
    updateMaxScore sum (base.filled rows dims top) e =
      .ok (base.filled rows dims (raised (base.valueScore sum) top [e])) := by
  unfold updateMaxScore
  cases hzero : eq e.2 0 with
  | true =>
    have hsame : raised (base.valueScore sum) top [e] = top := by
      ext dim
      simp [raised, valuesAt_singleton, isValueAt_of_zero hzero]
    rw [hsame]
    rfl
  | false =>
    obtain ⟨i, hi⟩ := mem_iff_getElem?.mp (hmem hzero)
    have hlookup : (base.filled rows dims top).dimMap.lookup e.1 = some i := lookup_zipIdx hnodup hi
    have hdata : (base.filled rows dims top).maxScoreInDim.data = dims.map top := if_pos hdaat
    have hget : (base.filled rows dims top).maxScoreInDim.data[i]? = some (top e.1) := by
      rw [hdata, getElem?_map, hi]
      rfl
    have hraised : Function.update top e.1 (max (top e.1) (base.valueScore sum e.2))
        = raised (base.valueScore sum) top [e] := by
      ext dim
      by_cases hdim : dim = e.1
      · subst hdim
        simp [raised, valuesAt_singleton, isValueAt_self hzero]
      · simp [raised, valuesAt_singleton, isValueAt_of_ne hdim, hdim]
    rw [hlookup]
    unfold GrowableVector.modifyAt
    simp only [hget, defined_bind_some, ok_bind]
    rw [hdata, set_map hnodup hi]
    show Except.ok _ = _
    rw [show (base.filled rows dims top).valueScore sum e.2 = base.valueScore sum e.2 from rfl,
      hraised]
    simp [filled, hdaat]

lemma foldlM_updateMaxScore {sum : S} (hdaat : base.algo.daat = true) (hnodup : dims.Nodup)
    (hcovers : Covers dims row) :
    row.foldlM (updateMaxScore sum) (base.filled rows dims top) =
      .ok (base.filled rows dims (raised (base.valueScore sum) top row)) := by
  induction row generalizing top with
  | nil => rfl
  | cons e row ih =>
    rw [foldlM_cons, updateMaxScore_filled hdaat hnodup fun hval =>
      hcovers e mem_cons_self hval, ok_bind,
      ih fun e' he' => hcovers e' (mem_cons_of_mem e he'), ← raised_append]
    rfl

def withRows (base : InvertedIndex S) (rows : List (SparseRow S)) : InvertedIndex S :=
  { base with
    datasetNnzStats := rows.map fun row => tableT row.length
    bm25Params :=
      { base.bm25Params with
        rowSums :=
          { base.bm25Params.rowSums with
            data := if base.metricType = .bm25 then rows.map rowSum else [] } } }

def built (base : InvertedIndex S) (rows : List (SparseRow S)) (dims : List ℕ) : InvertedIndex S :=
  (base.withRows rows).filled rows dims (topScore base.valueScore rows)

lemma InMemory.withRows (h : base.InMemory) (rows : List (SparseRow S)) :
    (base.withRows rows).InMemory :=
  ⟨h.mmapped, h.ids, h.vals, h.maxScore, h.rowSums⟩

lemma topScore_eq_zero (h : Covers dims rows.flatten) (hdim : dim ∉ dims) :
    topScore score rows dim = 0 := by
  have hnil : ∀ row ∈ rows, valuesAt dim row = [] := by
    intro row hrow
    unfold valuesAt
    rw [map_eq_nil_iff, filter_eq_nil_iff]
    intro e he hval
    simp only [isValueAt, Bool.and_eq_true, decide_eq_true_eq, Bool.not_eq_true'] at hval
    exact hdim (hval.1 ▸ h e (mem_flatten.mpr ⟨row, hrow, he⟩) hval.2)
  have hscores : (rows.flatMap fun row => (valuesAt dim row).map (score (rowSum row))) = [] := by
    rw [flatMap_eq_nil_iff]
    intro row hrow
    rw [hnil row hrow]
    rfl
  rw [topScore, hscores]
  rfl

lemma updateMaxScores_filled (hnodup : dims.Nodup) (hcovers : Covers dims row) :
    (base.filled rows dims top).updateMaxScores row =
      .ok (base.filled rows dims (raised (base.valueScore (rowSum row)) top row)) := by
  unfold updateMaxScores
  split_ifs with hdaat
  · exact foldlM_updateMaxScore hdaat hnodup hcovers
  · have hdaat' : ¬ base.algo.daat = true := hdaat
    simp [filled, hdaat', pure, Except.pure]

lemma addRowToIndex_built (hbase : base.InMemory) (hnodup : dims.Nodup)
    (hcovers : Covers dims rows.flatten) :
    (base.built rows dims).addRowToIndex row (tableT rows.length) =
      .ok (base.built (rows ++ [row]) (row.foldl seeDim dims)) := by
  have hstart : base.built rows dims =
      (base.withRows rows).filled (rows ++ [[]]) dims (topScore base.valueScore rows) :=
    filled_congr fun d => by rw [postings_append_singleton]; simp
  have hfirst : row.foldlM (addPosting (tableT rows.length))
      ((base.withRows rows).filled (rows ++ [[]]) dims (topScore base.valueScore rows)) =
        .ok ((base.withRows rows).filled (rows ++ [[] ++ row]) (row.foldl seeDim dims)
          (topScore base.valueScore rows)) :=
    foldlM_addPosting (hbase.withRows rows) row [] dims hnodup (by simpa using hcovers)
      fun dim hdim => topScore_eq_zero hcovers hdim
  rw [← hstart] at hfirst
  -- the base of the state after the statistics have been written
  set mid : InvertedIndex S := { base.withRows rows with
    datasetNnzStats := (rows.map fun row => tableT row.length) ++ [tableT row.length] } with hmid
  have hsecond : (mid.filled (rows ++ [row]) (row.foldl seeDim dims)
      (topScore base.valueScore rows)).updateMaxScores row =
        .ok (mid.filled (rows ++ [row]) (row.foldl seeDim dims)
          (raised (mid.valueScore (rowSum row)) (topScore base.valueScore rows) row)) :=
    updateMaxScores_filled (nodup_foldl_seeDim hnodup row)
      fun e he hval => mem_foldl_seeDim.mpr (.inr ⟨e, he, isValueAt_self hval⟩)
  rw [show mid.valueScore = base.valueScore from rfl, ← topScore_append_singleton] at hsecond
  unfold addRowToIndex
  rw [hfirst]
  show (updateMaxScores (mid.filled (rows ++ [row]) (row.foldl seeDim dims)
    (topScore base.valueScore rows)) row >>= _) = _
  rw [hsecond, ok_bind]
  set last := mid.filled (rows ++ [row]) (row.foldl seeDim dims)
    (topScore base.valueScore (rows ++ [row])) with hlast
  unfold appendRowSum
  by_cases hmetric : base.metricType = .bm25
  · have hpush : last.bm25Params.rowSums.emplaceBack (rowSum row)
        = .ok { mid.bm25Params.rowSums with data := mid.bm25Params.rowSums.data ++ [rowSum row] } :=
      emplaceBack_of_vector (v := mid.bm25Params.rowSums) hbase.rowSums _
    rw [hpush, ok_bind]
    simp [built, withRows, filled, hlast, hmid, hmetric, pure, Except.pure]
  · simp [built, withRows, filled, hlast, hmid, hmetric, pure, Except.pure]

lemma addRows_cons (idx : InvertedIndex S) (first : ℕ) (row : SparseRow S)
    (rows : List (SparseRow S)) :
    idx.addRows first (row :: rows) =
      (idx.addRowToIndex row (tableT first) >>= fun idx => idx.addRows (first + 1) rows) := by
  unfold addRows
  rw [zipIdx_cons, zero_add, zipIdx_succ]
  refine congrArg _ (funext fun idx => ?_)
  rw [foldlM_map]
  simp only [add_assoc, add_comm 1]

lemma addRows_built (hbase : base.InMemory) (more : List (SparseRow S))
    {rows : List (SparseRow S)} {dims : List ℕ} (hnodup : dims.Nodup)
    (hcovers : Covers dims rows.flatten) : (base.built rows dims).addRows rows.length more =
      .ok (base.built (rows ++ more) (more.flatten.foldl seeDim dims)) := by
  induction more generalizing rows dims with
  | nil =>
    rw [append_nil]
    rfl
  | cons row more ih =>
    have hcovers' : Covers (row.foldl seeDim dims) (rows ++ [row]).flatten := by
      intro e he hval
      rw [flatten_append, flatten_singleton] at he
      rcases mem_append.mp he with he | he
      · exact mem_foldl_seeDim.mpr (.inl (hcovers e he hval))
      · exact mem_foldl_seeDim.mpr (.inr ⟨e, he, isValueAt_self hval⟩)
    have hrest := ih (nodup_foldl_seeDim hnodup row) hcovers'
    rw [append_assoc, singleton_append, length_append, length_singleton] at hrest
    rw [addRows_cons, addRowToIndex_built hbase hnodup hcovers, ok_bind, hrest, flatten_cons,
      foldl_append]

/-! ### The whole index -/

def withSpans (base : InvertedIndex S) (rows : List (SparseRow S)) (dims : List ℕ) (maxDim : ℕ) :
    InvertedIndex S :=
  { base with
    nrInnerDims := tableT dims.length
    nRows := rows.length
    maxDim := maxDim
    postingListLengthStats :=
      (dims.take (tableT dims.length)).map fun dim => tableT (postings dim rows).length
    idsSpans := (dims.take (tableT dims.length)).map fun dim => (postings dim rows).map Prod.fst
    valsSpans := (dims.take (tableT dims.length)).map fun dim =>
      (postings dim rows).map fun p => getQuantVal base.qtype p.2
    maxScoreSpans :=
      if base.algo.daat then dims.map (topScore base.valueScore rows) else base.maxScoreSpans
    bm25Params := if base.metricType = .bm25 then
        { base.bm25Params with rowSumsSpans := rows.map rowSum }
      else base.bm25Params }

def ofRows (base : InvertedIndex S) (rows : List (SparseRow S))
    (dims : List ℕ) (maxDim : ℕ) : InvertedIndex S :=
  (base.withSpans rows dims maxDim).built rows dims

/-! The fields of the index of some rows, with fewer dimensions than 32 bits can number. -/

section Fields

variable {maxDim : ℕ}

lemma ofRows_idsSpans (hdims : dims.length < 2 ^ 32) : (base.ofRows rows dims maxDim).idsSpans =
      dims.map fun dim => (postings dim rows).map Prod.fst := by
  show (dims.take (tableT dims.length)).map _ = _
  rw [tableT_of_lt hdims, take_length]

lemma ofRows_valsSpans (hdims : dims.length < 2 ^ 32) : (base.ofRows rows dims maxDim).valsSpans =
      dims.map fun dim => (postings dim rows).map fun p => getQuantVal base.qtype p.2 := by
  show (dims.take (tableT dims.length)).map _ = _
  rw [tableT_of_lt hdims, take_length]

lemma ofRows_maxScoreSpans (hdaat : base.algo.daat = true) :
    (base.ofRows rows dims maxDim).maxScoreSpans = dims.map (topScore base.valueScore rows) :=
  if_pos hdaat

lemma ofRows_rowSumsSpans (hmetric : base.metricType = .bm25) :
    (base.ofRows rows dims maxDim).bm25Params.rowSumsSpans = rows.map rowSum := by
  show (withSpans base rows dims maxDim).bm25Params.rowSumsSpans = _
  unfold withSpans
  rw [if_pos hmetric]

end Fields

lemma valueScore_withSpans (base : InvertedIndex S) (rows : List (SparseRow S)) (dims : List ℕ)
    (maxDim : ℕ) : (base.withSpans rows dims maxDim).valueScore = base.valueScore := by
  ext sum val
  unfold valueScore withSpans
  by_cases hmetric : base.metricType = .bm25 <;> simp [hmetric]

lemma valueScore_ofRows (base : InvertedIndex S) (rows : List (SparseRow S))
    (dims : List ℕ) (maxDim : ℕ) :
    (base.ofRows rows dims maxDim).valueScore = base.valueScore :=
  valueScore_withSpans base rows dims maxDim

omit [FloatOps S] in
lemma mapM_range_getElem? {α : Type} {l : List α} (hn : n ≤ l.length) :
    (List.range n).mapM (l[·]?) = some (l.take n) := by
  induction n with
  | zero => rfl
  | succ n ih =>
    rw [range_succ, mapM_append, ih (by omega)]
    simp [getElem?_eq_getElem (show n < l.length by omega)]

lemma mapSpans_built (hspans : base.algo.daat = true → dims = [] → base.maxScoreSpans = []) :
    mapSpans { base.built rows dims with nRows := rows.length } =
      .ok (base.ofRows rows dims base.maxDim) := by
  have hle : tableT dims.length ≤ dims.length := Nat.mod_le _ _
  have hmap : ∀ {α : Type} (f : ℕ → α), (List.range (tableT dims.length)).mapM ((dims.map f)[·]?)
        = some ((dims.take (tableT dims.length)).map f) := by
    intro α f
    rw [mapM_range_getElem? (by rw [length_map]; exact hle), map_take]
  have hscores : (if 0 < (base.built rows dims).maxScoreInDim.size
        then (base.built rows dims).maxScoreInDim.data
        else (base.built rows dims).maxScoreSpans) =
      if base.algo.daat then dims.map (topScore base.valueScore rows) else base.maxScoreSpans := by
    have hdata : (base.built rows dims).maxScoreInDim.data =
        if base.algo.daat then dims.map (topScore base.valueScore rows) else [] := rfl
    have hold : (base.built rows dims).maxScoreSpans = base.maxScoreSpans := rfl
    rw [size, hdata, hold]
    by_cases hdaat : base.algo.daat = true
    · simp only [if_pos hdaat]
      cases hdims : dims with
      | nil => simp [hspans hdaat hdims]
      | cons dim dims => simp
    · simp [hdaat]
  unfold mapSpans
  dsimp only
  rw [show (base.built rows dims).dimMap.length = dims.length from length_zipIdx,
    show (base.built rows dims).invertedIndexIds.data = dims.map _ from rfl,
    show (base.built rows dims).invertedIndexVals.data = dims.map _ from rfl,
    hmap, hmap, defined_bind_some, hscores]
  unfold ofRows built
  rw [valueScore_withSpans]
  by_cases hmetric : base.metricType = .bm25 <;>
    simp [withRows, filled, withSpans, hmetric, size, Function.comp_def, pure,
      Except.pure]

lemma covers_seenDims (rows : List (SparseRow S)) : Covers (seenDims rows) rows.flatten :=
  fun e he hval => mem_foldl_seeDim.mpr (.inr ⟨e, he, isValueAt_self hval⟩)

lemma withSpans_withSpans (base : InvertedIndex S) (rows rows' : List (SparseRow S))
    (dims dims' : List ℕ) (maxDim maxDim' : ℕ) :
    (base.withSpans rows dims maxDim).withSpans rows' dims' maxDim'
      = base.withSpans rows' dims' maxDim' := by
  have hscore := valueScore_withSpans base rows dims maxDim
  by_cases hmetric : base.metricType = .bm25 <;> by_cases hdaat : base.algo.daat = true <;>
    simp only [withSpans, hmetric, hdaat, if_true, if_false, Bool.false_eq_true] at hscore ⊢ <;>
    simp only [hscore]

lemma add_ofRows (hbase : base.InMemory) (rows more : List (SparseRow S)) (maxDim : ℕ) (dim : ℤ) :
    (base.ofRows rows (seenDims rows) maxDim).add more dim =
      .ok (base.ofRows (rows ++ more) (seenDims (rows ++ more))
        (max maxDim (dim % 2 ^ 64).toNat)) := by
  set front := base.withSpans rows (seenDims rows) (max maxDim (dim % 2 ^ 64).toNat) with hfront
  have hmemory : front.InMemory := by
    refine ⟨hbase.mmapped, hbase.ids, hbase.vals, hbase.maxScore, ?_⟩
    rw [hfront, withSpans]
    by_cases hmetric : base.metricType = .bm25 <;> simp [hmetric, hbase.rowSums]
  have hrows := addRows_built hmemory more (nodup_seenDims rows) (covers_seenDims rows)
  have hdims : more.flatten.foldl seeDim (seenDims rows) = seenDims (rows ++ more) := by
    simp [seenDims, foldl_append]
  have hspans : mapSpans { front.built (rows ++ more) (seenDims (rows ++ more)) with
      nRows := (rows ++ more).length } =
        .ok (front.ofRows (rows ++ more) (seenDims (rows ++ more)) front.maxDim) := by
    refine mapSpans_built fun hdaat hnil => ?_
    -- no dimension has been seen before either
    have hfirst : seenDims rows = [] := eq_nil_iff_forall_not_mem.mpr fun d hd => by
      have hmem : d ∈ seenDims (rows ++ more) := by
        rw [← hdims]
        exact mem_foldl_seeDim.mpr (.inl hd)
      rw [hnil] at hmem
      exact not_mem_nil hmem
    have hdaat' : base.algo.daat = true := hdaat
    rw [hfront, withSpans, hfirst]
    simp [hdaat']
  unfold add
  rw [if_neg (by rw [show (base.ofRows rows _ _).mmapped = false from hbase.mmapped]; simp)]
  show ((front.built rows (seenDims rows)).addRows rows.length more >>= fun idx =>
    mapSpans { idx with nRows := rows.length + more.length }) = _
  rw [hrows, ok_bind, hdims, ← length_append, hspans]
  show Except.ok ((front.withSpans _ _ _).built _ _) = _
  rw [withSpans_withSpans]
  rfl

/-! ### Sequences of `Add` -/

lemma create_inMemory (metricType : SparseMetricType) (algo : InvertedIndexAlgo) (k1 b avgdl : S) :
    (create false metricType algo k1 b avgdl).InMemory := ⟨rfl, rfl, rfl, rfl, rfl⟩

lemma create_eq_ofRows (metricType : SparseMetricType) (algo : InvertedIndexAlgo) (k1 b avgdl : S) :
    create false metricType algo k1 b avgdl = (create false metricType algo k1 b avgdl).ofRows []
        (seenDims ([] : List (SparseRow S))) 0 := by
  cases metricType <;> cases algo <;> rfl

def addAll (idx : InvertedIndex S) (batches : List (List (SparseRow S) × ℤ)) :
    Except Fault (InvertedIndex S) :=
  batches.foldlM (fun idx batch => idx.add batch.1 batch.2) idx

def allRows (batches : List (List (SparseRow S) × ℤ)) : List (SparseRow S) :=
  (batches.map Prod.fst).flatten

lemma addAll_create (metricType : SparseMetricType) (algo : InvertedIndexAlgo) (k1 b avgdl : S)
    (batches : List (List (SparseRow S) × ℤ)) :
    ∃ maxDim, (create false metricType algo k1 b avgdl).addAll batches =
      .ok ((create false metricType algo k1 b avgdl).ofRows (allRows batches)
        (seenDims (allRows batches)) maxDim) := by
  have hrun : ∀ (batches : List (List (SparseRow S) × ℤ)) (rows : List (SparseRow S)) (maxDim : ℕ),
      ∃ maxDim', addAll ((create false metricType algo k1 b avgdl).ofRows rows
          (seenDims rows) maxDim) batches =
        .ok ((create false metricType algo k1 b avgdl).ofRows
          (rows ++ allRows batches) (seenDims (rows ++ allRows batches)) maxDim') := by
    intro batches
    induction batches with
    | nil =>
      intro rows maxDim
      refine ⟨maxDim, ?_⟩
      simp only [allRows, map_nil, flatten_nil, append_nil]
      rfl
    | cons batch batches ih =>
      intro rows maxDim
      have hstep := add_ofRows (create_inMemory metricType algo k1 b avgdl) rows batch.1 maxDim
        batch.2
      obtain ⟨maxDim', hrest⟩ := ih (rows ++ batch.1) (max maxDim (batch.2 % 2 ^ 64).toNat)
      refine ⟨maxDim', ?_⟩
      unfold addAll at hrest ⊢
      rw [foldlM_cons, hstep, ok_bind, hrest, append_assoc]
      rfl
  have hempty := hrun batches [] 0
  rw [← create_eq_ofRows] at hempty
  exact hempty

end InvertedIndex

end Rvanns.Knowhere.Sparse
