import Rvanns.Faiss.Equiv.IndexCosine
import Rvanns.Knowhere.Equiv.FaissNode
import Rvanns.Knowhere.HnswDistances

/-!
# Which distances agree

The iterator and the refined search report the cosine of a query and a stored row.
-/

namespace Rvanns.Knowhere

open Cpp Faiss List CosineIndex FaissNode
open Option (bind_eq_bind bind_some map_none map_some)

variable {F : Type} [Field F] [LinearOrder F] {sqrtf : F → F} {codec : Codec F}
  {kind : StorageKind} {refine : Bool} {rows : List (List F)} {parts : List (List ℕ)}
  {node : FaissNode (CosineIndex F)}

/-! ### The indexes of a node -/

def partIndex (sqrtf : F → F) (codec : Codec F) (kind : StorageKind) (refine : Bool)
    (rows : List (List F)) (ids : List ℕ) : CosineIndex F :=
  (CosineIndex.trained kind refine).add sqrtf codec (ids.map (rows.getD · []))

variable (hn : HoldsRows sqrtf codec kind refine rows parts node)

include hn in
lemma HoldsRows.getElem?_indexes (p : ℕ) :
    node.indexes[p]?.join = parts[p]?.map (partIndex sqrtf codec kind refine rows) := by
  rw [hn.indexes, getElem?_map]
  cases parts[p]? <;> rfl

include hn in
lemma HoldsRows.checkLoaded : node.checkLoaded isTrained = .ok () := by
  apply checkLoaded_eq_ok
  · simpa [hn.indexes] using hn.tables.ne_nil
  · intro index hindex
    rw [hn.indexes] at hindex
    obtain ⟨ids, -, rfl⟩ := mem_map.mp hindex
    exact ⟨_, rfl, rfl⟩

def calcValue (sqrtf : F → F) (codec : Codec F) (refine : Bool) (query row : List F) : F :=
  if refine then fvecInnerProduct query (codec.refine row)
  else cosineValue sqrtf codec false query row

lemma calcDistComputer_partIndex (ids : List ℕ) (query : List F) (i : ℕ) :
    calcDistComputer sqrtf (partIndex sqrtf codec kind refine rows ids) query i
      = ids[i]?.map fun l => calcValue sqrtf codec refine query (rows.getD l []) := by
  cases refine with
  | true =>
    simp only [calcDistComputer, partIndex, add, trained, if_true,
      map_some, innerProductDis, nil_append, getElem?_map, Option.map_map, calcValue]
    rfl
  | false =>
    simp only [calcDistComputer, partIndex, add, trained,
      Bool.false_eq_true, if_false, map_none, CosineStorage.getDistanceComputer_eq,
      nil_append, getElem?_map, calcValue, cosineValue]
    cases ids[i]? <;> rfl

lemma refineComputer_partIndex (sqrtf : F → F) (codec : Codec F) (kind : StorageKind)
    (rows : List (List F)) (ids : List ℕ) :
    ∃ dis, refineComputer sqrtf (partIndex sqrtf codec kind true rows ids) = some dis
      ∧ ∀ query i, dis query i
        = ids[i]?.map fun l => cosineValue sqrtf codec true query (rows.getD l []) := by
  refine ⟨_, rfl, fun query i => ?_⟩
  simp only [withCosineNorm, partIndex, add, trained, innerProductDis,
    nil_append, getElem?_map, cosineValue, if_true]
  cases ids[i]? <;> rfl

/-! ### The iterator and the refined search -/

lemma getElem?_idxOf {l : List ℕ} (ha : a ∈ l) : l[l.idxOf a]? = some a := by
  have hlt := idxOf_lt_length_of_mem ha
  rw [getElem?_eq_getElem hlt, getElem_idxOf hlt]

include hn in
lemma HoldsRows.rawDistance_eq_bind (hp : parts[p]? = some part) (query : List F) (l : ℕ) :
    rawDistance sqrtf node p query l = (do
      let dis ← refineComputer sqrtf (partIndex sqrtf codec kind refine rows part)
      let id ← node.internalId p l
      dis query id) := by
  have hbase : node.labelToInternalOffset.isEmpty = false →
      node.indexRowsSum[p]? = some (node.indexRowsSum.getD p 0) := by
    intro hne
    cases hn.tables with
    | plain _ _ offsets => simp [offsets] at hne
    | mapped _ _ rowsSum =>
      have hlt : p < parts.length := lt_length hp
      rw [getD_eq_getElem?_getD, rowsSum, getElem?_rowOffsets hlt.le, Option.getD_some]
  unfold rawDistance internalId
  rw [hn.getElem?_indexes, hp]
  simp only [map_some, some_bind]
  cases refineComputer sqrtf (partIndex sqrtf codec kind refine rows part) with
  | none => rfl
  | some dis =>
    cases hempty : node.labelToInternalOffset.isEmpty with
    | true => simp
    | false =>
      simp only [Bool.false_eq_true, if_false, hbase hempty]
      cases node.labelToInternalOffset[l]? <;> simp

lemma HoldsRows.rawDistance_eq (hn : HoldsRows sqrtf codec kind true rows parts node)
    (hp : parts[p]? = some part) (query : List F) (hl : l ∈ part) :
    rawDistance sqrtf node p query l
      = some (cosineValue sqrtf codec true query (rows.getD l [])) := by
  obtain ⟨dis, hdis, hvalue⟩ := refineComputer_partIndex sqrtf codec kind rows part
  rw [hn.rawDistance_eq_bind hp, hdis, hn.tables.internalId_of_mem hp hl]
  simp [hvalue, getElem?_idxOf hl]

omit [Field F] [LinearOrder F] in
lemma rescore_append (dc : ℕ → Option F) (value : ℕ → F) {good : List (F × ℕ)}
    (hdc : ∀ c ∈ good, dc c.2 = some (value c.2)) (hpad : ∀ c ∈ pad, c.2 < 0) :
    rescore dc (good.map (Prod.map id Nat.cast) ++ pad)
      = some (good.map (fun c => (value c.2, (c.2 : ℤ))) ++ pad) := by
  induction good with
  | nil =>
    cases pad with
    | nil => rfl
    | cons c pad => rw [map_nil, map_nil, nil_append, rescore, if_pos (hpad _ mem_cons_self)]
  | cons c good ih =>
    have hrest := ih fun c hc => hdc c (mem_cons_of_mem _ hc)
    have hc := hdc c mem_cons_self
    simp only [map_cons, cons_append, rescore]
    rw [hrest]
    change (do let dis' ← dc c.2; _) = _
    rw [hc]
    rfl

lemma HoldsRows.refineCandidates_eq (hn : HoldsRows sqrtf codec kind true rows parts node)
    {part : List ℕ} (hp : parts[p]? = some part) (query : List F)
    (good : List (F × ℕ)) (hgood : ∀ c ∈ good, c.2 < part.length)
    (pad : List (F × ℤ)) (hpad : ∀ c ∈ pad, c.2 < 0) :
    refineCandidates sqrtf node p query (good.map (Prod.map id Nat.cast) ++ pad)
      = some (good.map (fun c => (cosineValue sqrtf codec true query
          (rows.getD (part.getD c.2 0) []), ((part.getD c.2 0 : ℕ) : ℤ))) ++ pad) := by
  obtain ⟨dis, hdis, hvalue⟩ := refineComputer_partIndex sqrtf codec kind rows part
  have hget : ∀ c ∈ good, part[c.2]? = some (part.getD c.2 0) :=
    fun c hc => getElem?_eq_getD (hgood c hc) 0
  have hrescore := rescore_append (dis query)
    (fun i => cosineValue sqrtf codec true query (rows.getD (part.getD i 0) []))
    (fun c hc => by rw [hvalue, hget c hc, map_some]) hpad
  unfold refineCandidates
  rw [hn.getElem?_indexes, hp]
  simp only [map_some, bind_eq_bind, bind_some, hdis, hrescore]
  cases hn.tables with
  | plain labels =>
    obtain ⟨-, rfl⟩ : p = 0 ∧ part = List.range rows.length := by
      cases p with
      | zero => simpa [eq_comm] using hp
      | succ p => simp at hp
    have hlabel : ∀ c ∈ good, ((List.range rows.length).getD c.2 0) = c.2 := by
      intro c hc
      rw [getD_eq_getElem _ _ (hgood c hc), getElem_range]
    rw [labels, isEmpty_nil, if_pos rfl]
    congr 2
    apply map_congr_left
    intro c hc
    rw [hlabel c hc]
  | mapped nonempty labels =>
    have hne : node.labels.isEmpty = false := by simpa [labels] using nonempty
    rw [hne, labels, hp]
    simp only [bind_some]
    have hlabels : good.mapM (fun c => (externalId part c.2).map fun label =>
        (cosineValue sqrtf codec true query (rows.getD (part.getD c.2 0) []), label))
        = some (good.map fun c => (cosineValue sqrtf codec true query
          (rows.getD (part.getD c.2 0) []), ((part.getD c.2 0 : ℕ) : ℤ))) := by
      apply mapM_eq_some_map
      intro c hc
      rw [externalId_natCast (hgood c hc), map_some]
    have hpads : pad.mapM (fun c => (externalId part c.2).map fun label => (c.1, label))
        = some (pad.map id) := by
      apply mapM_eq_some_map
      intro c hc
      rw [externalId_of_neg (hpad c hc), map_some, id]
    rw [mapM_append, mapM_map, Function.comp_def, hlabels, hpads, map_id]
    rfl

/-! ### The request for given ids -/

include hn in
lemma HoldsRows.calcDist_eq (hp : parts[p]? = some part) (query : List F) (hl : l < rows.length) :
    (do
      let id ← node.internalId p l
      calcDistComputer sqrtf (partIndex sqrtf codec kind refine rows part) query id)
      = if l ∈ part then some (calcValue sqrtf codec refine query (rows.getD l [])) else none := by
  split_ifs with hmem
  · rw [hn.tables.internalId_of_mem hp hmem, some_bind,
      calcDistComputer_partIndex, getElem?_idxOf hmem, map_some]
  · obtain ⟨id, hid, hle⟩ := hn.tables.internalId_of_not_mem hp hl hmem
    rw [hid, some_bind, calcDistComputer_partIndex,
      getElem?_eq_none hle, map_none]

def selectedIndex (node : FaissNode (CosineIndex F)) (bitset : BitsetView) : Option (Option ℕ) :=
  node.getIndexToSearchByScalarInfo (node.withMostExternalIds bitset)

include hn in
/-- **All distances of a request**: it succeeds with given values exactly when it goes to an index
that stores every row asked for, and each value is the one that is computed. -/
theorem HoldsRows.calcDistByIDs_eq_iff
    (bitset : BitsetView) (queries : List (List F)) (labels : List ℕ)
    (hlabels : ∀ l ∈ labels, l < rows.length) (value : List F → ℕ → F) :
    calcDistByIDs sqrtf node bitset queries labels
        = .ok (queries.map fun q => labels.map fun l => value q l)
      ↔ ∃ p part, selectedIndex node bitset = some (some p) ∧ parts[p]? = some part
        ∧ ∀ q ∈ queries, ∀ l ∈ labels,
          l ∈ part ∧ calcValue sqrtf codec refine q (rows.getD l []) = value q l := by
  have hentry : ∀ {p part}, parts[p]? = some part → ((queries.mapM fun q => labels.mapM fun l => do
          let id ← node.internalId p l
          calcDistComputer sqrtf (partIndex sqrtf codec kind refine rows part) q id)
        = some (queries.map fun q => labels.map fun l => value q l)
        ↔ ∀ q ∈ queries, ∀ l ∈ labels,
          l ∈ part ∧ calcValue sqrtf codec refine q (rows.getD l []) = value q l) := by
    intro p part hp
    rw [mapM_eq_some_map_iff]
    refine forall₂_congr fun q _ => ?_
    rw [mapM_eq_some_map_iff]
    refine forall₂_congr fun l hl => ?_
    rw [hn.calcDist_eq hp q (hlabels l hl)]
    split_ifs with hmem <;> simp [hmem]
  unfold calcDistByIDs
  rw [hn.checkLoaded]
  change (orUndefined (selectedIndex node bitset) >>= _) = _ ↔ _
  cases hsel : selectedIndex node bitset with
  | none =>
    constructor
    · intro h
      cases h
    · rintro ⟨p, part, h, -⟩
      cases h
  | some indexId =>
    cases indexId with
    | none =>
      constructor
      · intro h
        cases h
      · rintro ⟨p, part, h, -⟩
        cases h
    | some p =>
      change orUndefined _ = _ ↔ _
      rw [orUndefined_eq_ok, hn.getElem?_indexes]
      cases hp : parts[p]? with
      | none =>
        constructor
        · intro h
          cases h
        · rintro ⟨p', part, h, hp', -⟩
          obtain rfl : p = p' := by simpa using h
          rw [hp] at hp'
          cases hp'
      | some part =>
        simp only [map_some, bind_eq_bind, bind_some]
        rw [← bind_eq_bind, hentry hp]
        constructor
        · intro h
          exact ⟨p, part, rfl, hp, h⟩
        · rintro ⟨p', part', h, hp', hall⟩
          obtain rfl : p = p' := by simpa using h
          obtain rfl : part = part' := by simpa [hp] using hp'
          exact hall

/-! ### Agreement -/

section Agreement

variable [IsStrictOrderedRing F]

lemma calcValue_eq_cosineValue_iff (hs : IsSqrt sqrtf) (query row : List F) :
    calcValue sqrtf codec refine query row = cosineValue sqrtf codec refine query row
      ↔ refine = false ∨ fvecInnerProduct query (codec.refine row) = 0
        ∨ countedNormSqr row * countedNormSqr query = 1 := by
  cases refine with
  | false => simp [calcValue]
  | true =>
    simp only [calcValue, cosineValue, if_true, Bool.true_eq_false, false_or]
    rw [← inverseNorms_mul_eq_one_iff hs, eq_comm, mul_right_eq_self₀, or_comm]

/-- **Where `CalcDistByIDs` reports cosines.**  It does so exactly when the request goes to an index
that stores every row asked for and, if there is a refine index, the inner product of each query and
row is zero or their norms cancel.  The iterator and the refined search always report cosines. -/
theorem calcDistByIDs_eq_cosine_iff (hs : IsSqrt sqrtf)
    (hn : HoldsRows sqrtf codec kind refine rows parts node) (bitset : BitsetView)
    (queries : List (List F)) (labels : List ℕ) (hlabels : ∀ l ∈ labels, l < rows.length) :
    (calcDistByIDs sqrtf node bitset queries labels = .ok (queries.map fun q =>
        labels.map fun l => cosineValue sqrtf codec refine q (rows.getD l []))
      ↔ ∃ p part, selectedIndex node bitset = some (some p) ∧ parts[p]? = some part
        ∧ ∀ q ∈ queries, ∀ l ∈ labels, l ∈ part ∧ (refine = false
          ∨ fvecInnerProduct q (codec.refine (rows.getD l [])) = 0
          ∨ countedNormSqr (rows.getD l []) * countedNormSqr q = 1))
    ∧ (refine = true → ∀ p part, parts[p]? = some part → ∀ q (i : ℕ), i < part.length →
        rawDistance sqrtf node p q (part.getD i 0)
          = some (cosineValue sqrtf codec refine q (rows.getD (part.getD i 0) []))
        ∧ ∀ dis, refineCandidates sqrtf node p q [(dis, (i : ℤ))]
          = some [(cosineValue sqrtf codec refine q (rows.getD (part.getD i 0) []),
            ((part.getD i 0 : ℕ) : ℤ))]) := by
  constructor
  · rw [hn.calcDistByIDs_eq_iff bitset queries labels hlabels
      (fun q l => cosineValue sqrtf codec refine q (rows.getD l []))]
    simp only [calcValue_eq_cosineValue_iff hs]
  · rintro rfl p part hp q i hi
    have hmem : part.getD i 0 ∈ part := by
      rw [getD_eq_getElem _ _ hi]
      exact getElem_mem hi
    refine ⟨hn.rawDistance_eq hp q hmem, fun dis => ?_⟩
    have hcand := hn.refineCandidates_eq hp q [(dis, i)] (by simpa using hi) [] (by simp)
    simpa using hcand

end Agreement

def twoRowNode (sqrtf : F → F) : FaissNode (CosineIndex F) :=
  ⟨[some ((CosineIndex.trained .flat true).add sqrtf ⟨id, id⟩ [[1, 0], [0, 2]])], [], [], [], []⟩

lemma twoRowNode_holdsRows (sqrtf : F → F) :
    HoldsRows sqrtf ⟨id, id⟩ .flat true [[1, 0], [0, 2]] [[0, 1]] (twoRowNode sqrtf) :=
  ⟨.plain rfl rfl rfl, rfl⟩

lemma isSqrt_real : IsSqrt Real.sqrt where
  pos := fun h => Real.sqrt_pos.mpr h
  mul_self := fun h => Real.mul_self_sqrt h.le

/-- The query `[2, 0]` has cosine `1` with the first row, and the request reports `2`. -/
theorem calcDistByIDs_twoRowNode_ne_cosine :
    calcDistByIDs Real.sqrt (twoRowNode Real.sqrt) ⟨fun _ => 0, 0, 0, 0, none, 0, 0⟩ [[2, 0]] [0]
      ≠ .ok [[cosineValue Real.sqrt ⟨id, id⟩ true [2, 0] [1, 0]]] := by
  intro h
  have hn := twoRowNode_holdsRows Real.sqrt
  obtain ⟨p, part, -, -, hall⟩ := (hn.calcDistByIDs_eq_iff _ [[2, 0]] [0] (by simp)
    fun q _ => cosineValue Real.sqrt ⟨id, id⟩ true q [1, 0]).mp h
  have hvalue := (calcValue_eq_cosineValue_iff isSqrt_real [2, 0] [1, 0]).mp
    (hall [2, 0] (by simp) 0 (by simp)).2
  norm_num [fvecInnerProduct, countedNormSqr, fvecNormL2sqr] at hvalue

/-- The query `[1, 0]` has the norm of the first row and is orthogonal to the second. -/
theorem calcDistByIDs_twoRowNode :
    calcDistByIDs Real.sqrt (twoRowNode Real.sqrt) ⟨fun _ => 0, 0, 0, 0, none, 0, 0⟩ [[1, 0]] [0, 1]
      = .ok [[cosineValue Real.sqrt ⟨id, id⟩ true [1, 0] [1, 0],
        cosineValue Real.sqrt ⟨id, id⟩ true [1, 0] [0, 2]]] := by
  refine (calcDistByIDs_eq_cosine_iff isSqrt_real (twoRowNode_holdsRows Real.sqrt) _ [[1, 0]] [0, 1]
    (by simp)).1.mpr ⟨0, [0, 1], rfl, rfl, ?_⟩
  simp [countedNormSqr, fvecNormL2sqr, fvecInnerProduct]

end Rvanns.Knowhere
