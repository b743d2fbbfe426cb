import Rvanns.Cpp.Rows
import Rvanns.Faiss.Equiv.Heap
import Rvanns.Knowhere.DataViewRefiner

/-!
# When a refined search returns the best candidates

The refinement of a query sees the candidates of this query and -1s, `kBase` ids altogether.
-/

namespace Rvanns.Knowhere

open Cpp Faiss List

variable {Q F : Type} [LinearOrder F] [BoundedOrder F]

/-! ### What a search is to return -/

/-- The best `k` candidates of a query by refined distance, or all of them, and then padding. -/
def IsRefinement (ix : DataViewIndex Q F) (k : ℕ) (x : Q) (cand : List ℕ)
    (result : List (F × ℤ)) : Prop :=
  ∃ top, result = top ++ replicate (k - top.length) (ix.cmp.neutral, -1)
    ∧ top.length = min k cand.length
    ∧ IsTopK (fun a b => ¬ ix.cmp.cmp a b) Prod.fst k
      ↑(cand.map fun id => (ix.refined x id, (id : ℤ))) top

/-! ### One query -/

namespace DataViewIndex

variable (ix : DataViewIndex Q F)

lemma not_cmp_neutral (d : F) : ¬ ix.cmp.cmp d ix.cmp.neutral := by
  unfold cmp
  split_ifs
  · show ¬ decide (⊤ < d) = true
    simp
  · show ¬ decide (d < ⊥) = true
    simp

def candidates (x : Q) (cand : List ℕ) : List (F × ℤ) :=
  cand.map fun id => (ix.refined x id, (id : ℤ))

def entries (dim : ℕ) (x : Q) (cand : List ℕ) : List (F × ℤ) :=
  ix.candidates x cand ++ replicate (dim - cand.length) (ix.cmp.neutral, -1)

lemma map_snd_entries (dim : ℕ) (x : Q) (cand : List ℕ) :
    (ix.entries dim x cand).map Prod.snd = paddedIds dim cand := by
  rw [entries, candidates, map_append, map_map, map_replicate]
  rfl

lemma length_entries (x : Q) (h : cand.length ≤ dim) : (ix.entries dim x cand).length = dim := by
  simp only [entries, candidates, length_append, length_map, length_replicate]
  omega

lemma baseDist_entries (hr : r ∈ ix.entries dim x cand) : ix.baseDist x r.2 = some r.1 := by
  rcases mem_append.mp hr with hr | hr
  · obtain ⟨id, -, rfl⟩ := mem_map.mp hr
    rw [baseDist, if_pos (Int.natCast_nonneg id), Int.toNat_natCast]
  · obtain ⟨-, rfl⟩ := mem_replicate.mp hr
    simp [baseDist]

variable [Zero F]

def refine (k dim : ℕ) (x : Q) (cand : List ℕ) : List (F × ℤ) :=
  (reorder2Heaps ix.cmp k dim (fun j => ((ix.entries dim x cand).map Prod.snd)[j]?)
    (fun j => ((ix.entries dim x cand).map Prod.fst)[j]?) fun _ => (0, 0)).getD []

variable {ix} {k dim : ℕ}

lemma reorder_spec (ix : DataViewIndex Q F) (x : Q) (hk : 1 ≤ k)
    (hdim : k ≤ dim) (hsmall : dim < 2 ^ 64) (hcand : cand.length ≤ dim) :
    reorder2Heaps ix.cmp k dim (fun j => ((ix.entries dim x cand).map Prod.snd)[j]?)
        (fun j => ((ix.entries dim x cand).map Prod.fst)[j]?) (fun _ => (0, 0))
      = some (ix.refine k dim x cand)
    ∧ IsRefinement ix k x cand (ix.refine k dim x cand) := by
  have hlen : (ix.candidates x cand).length + (dim - cand.length) = dim := by
    rw [candidates, length_map]
    omega
  have harrays : ArraysBegin (fun j => ((ix.entries dim x cand).map Prod.fst)[j]?)
      (fun j => ((ix.entries dim x cand).map Prod.snd)[j]?) (ix.entries dim x cand) := by
    intro i r hr
    simp [hr]
  have htrue : ∀ r ∈ ix.candidates x cand, r.2 ≠ -1 := by
    intro r hr
    obtain ⟨id, -, rfl⟩ := mem_map.mp hr
    exact fun hneg => by simp at hneg
  obtain ⟨top, hreorder, htop⟩ := reorder2Heaps_spec (fun _ => (0, 0)) ix.not_cmp_neutral
    htrue harrays hk (by omega) (by omega)
  rw [hlen] at hreorder
  have hrefine : ix.refine k dim x cand
      = top ++ replicate (k - top.length) (ix.cmp.neutral, -1) := by
    rw [refine, hreorder, Option.getD_some]
  refine ⟨by rw [hreorder, hrefine], top, hrefine, ?_, htop⟩
  rw [htop.length_eq_min, Multiset.coe_card, candidates, length_map]

/-! ### All queries -/

variable {qs : List Q} {cands : List (List ℕ)} {i : ℕ} {x : Q} {cand : List ℕ}

omit [LinearOrder F] [BoundedOrder F] [Zero F] in
lemma length_paddedIds (h : cand.length ≤ dim) : (paddedIds dim cand).length = dim := by
  simp only [paddedIds, length_append, length_map, length_replicate]
  omega

lemma getElem?_flatMap_paddedIds (hmost : ∀ cand ∈ cands, cand.length ≤ dim)
    (hcand : cands[i]? = some cand) (hj : j < dim) :
    (cands.flatMap (paddedIds dim))[dim * i + j]? = (paddedIds dim cand)[j]? := by
  have hi := lt_length hcand
  have hrow : (cands.map (paddedIds dim))[i]? = some (paddedIds dim cand) := by
    rw [getElem?_map, hcand, Option.map_some]
  have hlens : ∀ r ∈ cands.map (paddedIds dim), r.length = dim := by
    intro r hr
    obtain ⟨c, hc, rfl⟩ := mem_map.mp hr
    exact length_paddedIds (hmost c hc)
  have hoff : rowOffset (cands.map (paddedIds dim)) i = i * dim :=
    rowOffset_of_length hlens (by rw [length_map]; omega)
  rw [mul_comm, ← hoff]
  apply getElem?_flatten_rowOffset hrow
  rw [length_paddedIds (hmost cand (mem_of_getElem? hcand))]
  exact hj

omit [Zero F] in
lemma mapM_baseDist (ix : DataViewIndex Q F) (hmost : ∀ cand ∈ cands, cand.length ≤ dim)
    (hcand : cands[i]? = some cand) (x : Q) :
    ((range dim).mapM fun j => do
        let id ← (cands.flatMap (paddedIds dim))[dim * i + j]?
        ix.baseDist x id)
      = some ((ix.entries dim x cand).map Prod.fst) := by
  have hlen : ((ix.entries dim x cand).map Prod.fst).length = dim := by
    rw [length_map, ix.length_entries x (hmost cand (mem_of_getElem? hcand))]
  have hmap := map_getD_range ((ix.entries dim x cand).map Prod.fst) ⊥
  rw [hlen] at hmap
  rw [← hmap]
  apply mapM_eq_some_map
  intro j hj
  have hlt := mem_range.mp hj
  obtain ⟨r, hget⟩ : ∃ r, (ix.entries dim x cand)[j]? = some r := by
    rw [length_map] at hlen
    exact ⟨_, getElem?_eq_getElem (by omega)⟩
  rw [getElem?_flatMap_paddedIds hmost hcand hlt, ← ix.map_snd_entries dim x, getD,
    getElem?_map, getElem?_map, hget]
  exact ix.baseDist_entries (mem_of_getElem? hget)

omit [LinearOrder F] [BoundedOrder F] [Zero F] in
lemma queryAt_of_lt (h : ix.codeSize * i < 2 ^ 31) : ix.queryAt qs i = qs[i]? :=
  if_pos h

lemma searchQueryWithIds_eq (hmost : ∀ cand ∈ cands, cand.length ≤ dim)
    (hnear : ix.codeSize * i < 2 ^ 31) (hquery : qs[i]? = some x) (hcand : cands[i]? = some cand) :
    ix.searchQueryWithIds qs ((range (qs.length + 1)).map (dim * ·))
        (cands.flatMap (paddedIds dim)) k i
      = reorder2Heaps ix.cmp k dim (fun j => (cands.flatMap (paddedIds dim))[dim * i + j]?)
        (fun j => ((ix.entries dim x cand).map Prod.fst)[j]?) fun _ => (0, 0) := by
  have hlt := lt_length hquery
  have hcount : dim * (i + 1) - dim * i = dim := by
    rw [mul_add]
    omega
  have hfirst : ((range (qs.length + 1)).map (dim * ·))[i]? = some (dim * i) := by
    exact getElem?_range_map (by omega)
  have hlast : ((range (qs.length + 1)).map (dim * ·))[i + 1]? = some (dim * (i + 1)) := by
    exact getElem?_range_map (by omega)
  have hbase := mapM_baseDist ix hmost hcand x
  simp only [searchQueryWithIds, queryAt_of_lt hnear, hquery, hfirst, hlast, hcount, hbase,
    some_bind]

lemma searchWithIds_eq (hk : 1 ≤ k) (hdim : k ≤ dim) (hsmall : dim < 2 ^ 64)
    (hnear : ix.codeSize * (qs.length - 1) < 2 ^ 31) (hlen : cands.length = qs.length)
    (hmost : ∀ cand ∈ cands, cand.length ≤ dim) :
    ix.searchWithIds qs ((range (qs.length + 1)).map (dim * ·))
        (cands.flatMap (paddedIds dim)) k
      = some (zipWith (ix.refine k dim) qs cands) := by
  have hmap := map_getD_range (zipWith (ix.refine k dim) qs cands) []
  rw [length_zipWith, hlen, min_self] at hmap
  rw [← hmap]
  apply mapM_eq_some_map
  intro i hi
  have hlt := mem_range.mp hi
  have hquery : qs[i]? = some qs[i] := getElem?_eq_getElem hlt
  obtain ⟨cand, hcand⟩ : ∃ cand, cands[i]? = some cand := ⟨_, getElem?_eq_getElem (hlen ▸ hlt)⟩
  have hsize := hmost cand (mem_of_getElem? hcand)
  have hquery' : ix.codeSize * i < 2 ^ 31 := (Nat.mul_le_mul_left _ (by omega)).trans_lt hnear
  have hids : ∀ j < dim, (cands.flatMap (paddedIds dim))[dim * i + j]?
      = ((ix.entries dim qs[i] cand).map Prod.snd)[j]? := by
    intro j hj
    rw [getElem?_flatMap_paddedIds hmost hcand hj, ix.map_snd_entries]
  have hresult : (zipWith (ix.refine k dim) qs cands).getD i []
      = ix.refine k dim qs[i] cand := by
    simp [getD, getElem?_zipWith, hquery, hcand]
  rw [hresult, ← (reorder_spec ix qs[i] hk hdim hsmall hsize).1,
    searchQueryWithIds_eq hmost hquery' hquery hcand]
  exact reorder2Heaps_congr (fun _ _ => rfl) hids hdim hsmall

lemma searchWithIds_eq_none (hi : i < qs.length)
    (h : ix.searchQueryWithIds qs lims ids k i = none) :
    ix.searchWithIds qs lims ids k = none := by
  rw [Option.eq_none_iff_forall_ne_some]
  intro results hresults
  obtain ⟨r, -, hr⟩ := exists_mem_of_mapM hresults (mem_range.mpr hi)
  rw [h] at hr
  cases hr

/-- With less than `k` candidates the heap is made from distances that are not there. -/
lemma searchWithIds_of_few (ix : DataViewIndex Q F) (hdim : dim < k)
    (hlen : cands.length = qs.length) (hmost : ∀ cand ∈ cands, cand.length ≤ dim) (hne : qs ≠ []) :
    ix.searchWithIds qs ((range (qs.length + 1)).map (dim * ·))
        (cands.flatMap (paddedIds dim)) k = none := by
  have hpos := length_pos_iff.mpr hne
  have hquery : qs[0]? = some qs[0] := getElem?_eq_getElem hpos
  obtain ⟨cand, hcand⟩ : ∃ cand, cands[0]? = some cand := ⟨_, getElem?_eq_getElem (hlen ▸ hpos)⟩
  have hsize := hmost cand (mem_of_getElem? hcand)
  apply searchWithIds_eq_none hpos
  rw [searchQueryWithIds_eq hmost (by omega) hquery hcand]
  apply reorder2Heaps_eq_none hdim
  rw [getElem?_eq_none_iff, length_map, ix.length_entries _ hsize]

/-- The position of the last query overflows. -/
lemma searchWithIds_of_far (hne : qs ≠ [])
    (hfar : ¬ ix.codeSize * (qs.length - 1) < 2 ^ 31) (lims : List ℕ) (ids : List ℤ)
    (k : ℕ) : ix.searchWithIds qs lims ids k = none := by
  have hpos := length_pos_iff.mpr hne
  apply searchWithIds_eq_none (show qs.length - 1 < qs.length by omega)
  rw [searchQueryWithIds, queryAt, if_neg hfar]
  rfl

end DataViewIndex

/-! ### The number of candidates -/

lemma intOfFloat_of_nonneg (h : 0 ≤ y) (hlt : y < 2 ^ 31) : intOfFloat y = some ⌊y⌋ := by
  have hlow : -2 ^ 31 - 1 < y := by linarith
  rw [intOfFloat, if_pos ⟨hlow, hlt⟩, if_pos h]

lemma eq_floor_of_intOfFloat (h : intOfFloat y = some n) (hn : 1 ≤ n) : n = ⌊y⌋ ∧ y < 2 ^ 31 := by
  unfold intOfFloat at h
  split_ifs at h with hrange hpos
  · exact ⟨(Option.some.inj h).symm, hrange.2⟩
  · have hceil : ⌈y⌉ ≤ 0 := Int.ceil_le.mpr (by simpa using (not_le.mp hpos).le)
    have heq := Option.some.inj h
    omega

/-! ### The search -/

variable [Zero F] {round : ℚ → ℚ} {k : ℕ} {refineRatio : ℚ} {kBase : ℤ} {base : BaseIndex Q}
  {ix : DataViewIndex Q F} {qs : List Q} {bitset : BitsetView}

/-- Each query gets a refinement of its own candidates, which is a function of the query and
these. -/
def SearchRefines (round : ℚ → ℚ) (base : BaseIndex Q) (ix : DataViewIndex Q F) (k : ℕ)
    (refineRatio : ℚ) (qs : List Q) (bitset : BitsetView) : Prop :=
  ∃ kBase cands, reorderK round k refineRatio = some kBase
    ∧ base.candidates kBase qs bitset = .ok cands
    ∧ refinedSearch round base ix k refineRatio qs bitset
      = .ok (zipWith (ix.refine k kBase.toNat) qs cands)
    ∧ ∀ q ∈ qs.zip cands, IsRefinement ix k q.1 q.2 (ix.refine k kBase.toNat q.1 q.2)

section

variable {cands : List (List ℕ)} (hkBase : reorderK round k refineRatio = some kBase)
  (hcands : base.candidates kBase qs bitset = .ok cands)

include hkBase hcands

lemma refinedSearch_eq (hint : qs.length + 1 < 2 ^ 31) :
    refinedSearch round base ix k refineRatio qs bitset
      = orUndefined (ix.searchWithIds qs
        ((range (qs.length + 1)).map (kBase.toNat * ·))
        (cands.flatMap (paddedIds kBase.toNat)) k) := by
  rw [refinedSearch, hkBase, orUndefined_some, ok_bind, hcands, ok_bind]
  dsimp only
  rw [if_neg (by omega)]

lemma searchWithIds_of_eq_ok
    (h : refinedSearch round base ix k refineRatio qs bitset = .ok results) :
    ix.searchWithIds qs ((range (qs.length + 1)).map (kBase.toNat * ·))
      (cands.flatMap (paddedIds kBase.toNat)) k = some results := by
  rw [refinedSearch, hkBase, orUndefined_some, ok_bind, hcands, ok_bind] at h
  dsimp only at h
  split_ifs at h
  · cases h
  · exact orUndefined_eq_ok.mp h

omit hkBase in
lemma length_le_of_candidates (hpos : 0 ≤ kBase) : ∀ cand ∈ cands, cand.length ≤ kBase.toNat := by
  intro cand hcand
  have hle := base.atMost kBase qs bitset cands hcands cand hcand
  omega

end

/-- A base index that finds the first of the given rows for each query. -/
def finds (Q : Type) (rows : List ℕ) : BaseIndex Q where
  candidates k qs _ :=
    if k ≤ 0 then .error (.status .invalidArgs "") else .ok (qs.map fun _ => rows.take k.toNat)
  rejects k qs bitset hk := ⟨_, if_pos hk⟩
  succeeds k qs bitset hk := ⟨_, if_neg (by omega)⟩
  oneForEach k qs bitset cands h := by
    split_ifs at h
    rw [← Except.ok.inj h, length_map]
  atMost k qs bitset cands h cand hcand := by
    split_ifs at h with hk
    rw [← Except.ok.inj h] at hcand
    obtain ⟨_, _, rfl⟩ := mem_map.mp hcand
    have := length_take_le k.toNat rows
    omega

/-- Row `id` is the number `id`, as are the queries. -/
def lineIndex : DataViewIndex (Fin 6) (Fin 6) where
  codeSize := 4
  two_le_codeSize := by decide
  isL2 := true
  isCosine := false
  computer x id := if x.val ≤ id then Fin.ofNat 6 (id - x) else Fin.ofNat 6 (x - id)
  divideByNorm d _ := d

def wholeSegment : BitsetView := { bits := fun _ => 0, numBits := 0 }

end Rvanns.Knowhere
