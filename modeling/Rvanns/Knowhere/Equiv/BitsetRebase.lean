import Rvanns.Knowhere.Equiv.BitsetView
import Rvanns.Knowhere.Equiv.FaissNode

/-!
# The bitset of a partition

A request on a partitioned node searches one partition, with a bitset that is rebased to the rows of
this partition.
-/

namespace Rvanns.Knowhere

open Cpp List Option BitsetView

namespace FaissNode

variable {I : Type*} {node : FaissNode I} {n : ℕ} {ps : List (List ℕ)} {bs : BitsetView}

def outerIds (node : FaissNode I) (ps : List (List ℕ)) : List (List ℕ) :=
  if node.internalOffsetToMostExternalId = [] then ps
  else (ps.map List.length).splitLengths node.internalOffsetToMostExternalId

structure Partitioned (node : FaissNode I) (n : ℕ) (ps : List (List ℕ)) : Prop where
  tables : node.Tables n ps
  indexes : node.indexes.length = ps.length
  many : 1 < ps.length
  map : node.internalOffsetToMostExternalId = [] ∨ node.internalOffsetToMostExternalId.length = n

structure FiltersPartitions (node : FaissNode I) (n : ℕ) (ps : List (List ℕ))
    (bs : BitsetView) : Prop where
  nonempty : bs.empty = false
  outIds : bs.outIds = none
  idOffset : bs.idOffset = 0
  counted : bs.numFilteredOutBits = (range bs.numBits).countP bs.testBit
  /-- Without a map the bits are for the rows. -/
  rows : node.internalOffsetToMostExternalId = [] → ∀ x, bs.testBit x = false → x < n
  /-- The valid rows belong to one partition. -/
  onePartition : ∀ (q q' : ℕ) (ids ids' : List ℕ), (node.outerIds ps)[q]? = some ids →
    (node.outerIds ps)[q']? = some ids' → ∀ x ∈ ids, ∀ x' ∈ ids',
    bs.testBit x = false → bs.testBit x' = false → q = q'

structure Describes (bs bitset' : BitsetView) (ids : List ℕ) : Prop where
  size : bitset'.size = ids.length
  test : ∀ i < ids.length, bitset'.test i = bs.testBit (ids.getD i 0)
  count : bitset'.count = (range bitset'.size).countP bitset'.test

def RebaseDescribes (node : FaissNode I) (ps : List (List ℕ)) (bs : BitsetView) : Prop :=
  ∃ c ids bitset', node.rebase bs = .ok (c, bitset') ∧ (node.outerIds ps)[c]? = some ids ∧
    (∀ q ids', (node.outerIds ps)[q]? = some ids' → q ≠ c → ∀ x ∈ ids', bs.testBit x = true)
      ∧ Describes bs bitset' ids

/-! ### The rows behind the ids -/

lemma outerIds_of_nil (h : node.internalOffsetToMostExternalId = []) :
    node.outerIds ps = ps := if_pos h

lemma withMostExternalIds_of_nil (h : node.internalOffsetToMostExternalId = []) :
    node.withMostExternalIds bs = bs := by
  simp [withMostExternalIds, h]

lemma withMostExternalIds_of_ne (h : node.internalOffsetToMostExternalId ≠ [])
    (hne : bs.empty = false) :
    node.withMostExternalIds bs
      = bs.setOutIds (node.internalOffsetToMostExternalId.getD · 0)
        node.internalOffsetToMostExternalId.length := by
  simp [withMostExternalIds, h, hne]

@[simp] lemma empty_withMostExternalIds :
    (node.withMostExternalIds bs).empty = bs.empty := by
  unfold withMostExternalIds
  split_ifs
  · exact empty_setOutIds ..
  · rfl

@[simp] lemma testBit_withMostExternalIds (x : ℕ) :
    (node.withMostExternalIds bs).testBit x = bs.testBit x := by
  unfold withMostExternalIds
  split_ifs
  · exact testBit_setOutIds ..
  · rfl

variable (hn : node.Partitioned n ps) (hb : FiltersPartitions node n ps bs)

section

include hn

lemma Partitioned.length_flatten : ps.flatten.length = n :=
  hn.tables.numbering_flatten.length

lemma Partitioned.map_length_outerIds : (node.outerIds ps).map length = ps.map length := by
  unfold outerIds
  split_ifs with hmap
  · rfl
  · apply map_splitLengths_length
    rw [← List.length_flatten, hn.length_flatten, hn.map.resolve_left hmap]

lemma Partitioned.flatten_outerIds (hmap : node.internalOffsetToMostExternalId ≠ []) :
    (node.outerIds ps).flatten = node.internalOffsetToMostExternalId := by
  rw [outerIds, if_neg hmap]
  apply flatten_splitLengths
  rw [← List.length_flatten, hn.length_flatten, hn.map.resolve_left hmap]

variable {ids : List ℕ}

lemma Partitioned.getElem?_parts {q : ℕ} (hids : (node.outerIds ps)[q]? = some ids) :
    ∃ part, ps[q]? = some part ∧ part.length = ids.length := by
  have hlen := congrArg (·[q]?) hn.map_length_outerIds
  simp only [getElem?_map, hids, map_some] at hlen
  obtain ⟨part, hpart, hlen⟩ := map_eq_some_iff.mp hlen.symm
  exact ⟨part, hpart, hlen⟩

lemma Partitioned.tables_eq : node.labels = ps ∧ node.indexRowsSum = rowOffsets ps
    ∧ node.labelToInternalOffset = (range n).map ps.flatten.idxOf ∧ n < 2 ^ 32 := by
  cases hn.tables with
  | plain => exact absurd hn.many (by simp)
  | mapped _ labels rowsSum _ offsets small => exact ⟨labels, rowsSum, offsets, small⟩

lemma Partitioned.indexRowsSum_eq : node.indexRowsSum = rowOffsets (node.outerIds ps) := by
  rw [hn.tables_eq.2.1, rowOffsets_congr hn.map_length_outerIds]

end

variable {ids : List ℕ}

lemma countP_range_getD (l : List ℕ) (f : ℕ → Bool) :
    (range l.length).countP (fun i => f (l.getD i 0)) = l.countP f := by
  conv_rhs => rw [← map_getD_range l 0, countP_map]
  rfl

/-! ### Counting the valid rows -/

lemma countP_range_congr (h : ∀ x, f x = true → x < m ∧ x < n) :
    (range m).countP f = (range n).countP f := by
  rw [countP_eq_length_filter, countP_eq_length_filter]
  apply List.Perm.length_eq
  apply (perm_ext_iff_of_nodup (nodup_range.filter _) (nodup_range.filter _)).mpr
  intro x
  simp only [mem_filter, mem_range]
  constructor
  · exact fun hx => ⟨(h x hx.2).2, hx.2⟩
  · exact fun hx => ⟨(h x hx.2).1, hx.2⟩

lemma countP_add_countP_not (f : ℕ → Bool) (l : List ℕ) :
    l.countP f + l.countP (fun x => !f x) = l.length := by
  rw [length_eq_countP_add_countP f]
  congr 2
  ext x
  simp

include hn hb in
lemma count_add_countP : (node.withMostExternalIds bs).count
        + (node.outerIds ps).flatten.countP (fun x => !bs.testBit x)
      = (node.withMostExternalIds bs).size := by
  by_cases hmap : node.internalOffsetToMostExternalId = []
  · have hvalid : (node.outerIds ps).flatten.countP (fun x => !bs.testBit x)
        = (range bs.numBits).countP (fun x => !bs.testBit x) := by
      rw [outerIds_of_nil hmap, List.Perm.countP_eq _ hn.tables.numbering_flatten]
      apply countP_range_congr
      intro x hx
      have hclear : bs.testBit x = false := by simpa using hx
      exact ⟨hb.rows hmap x hclear, (testBit_eq_false_iff.mp hclear).1⟩
    rw [withMostExternalIds_of_nil hmap, hvalid, BitsetView.count, BitsetView.size, hb.outIds]
    simp only [isSome_none, Bool.false_eq_true, if_false]
    rw [hb.counted, countP_add_countP_not, length_range]
  · rw [withMostExternalIds_of_ne hmap hb.nonempty, size_setOutIds,
      count_setOutIds _ _ _ _ hb.nonempty, if_neg (by omega),
      hn.flatten_outerIds hmap, hb.idOffset]
    simp only [add_zero]
    rw [countP_range_getD, countP_add_countP_not]

/-! ### The chosen partition -/

variable {c x : ℕ}

lemma FiltersPartitions.others (hb : FiltersPartitions node n ps bs)
    (hids : (node.outerIds ps)[c]? = some ids) (hx : x ∈ ids) (hvalid : bs.testBit x = false)
    (hids' : (node.outerIds ps)[q]? = some ids') (hq : q ≠ c) :
    ∀ x' ∈ ids', bs.testBit x' = true := by
  intro x' hx'
  by_contra hclear
  exact hq (hb.onePartition q c ids' ids hids' hids x' hx' x hx (by simpa using hclear) hvalid)

section

include hn hb

/-- The partition in which the place of a valid row lies. -/
lemma chosen_of_valid (hplace : (node.outerIds ps).flatten[place]? = some x)
    (hx : bs.testBit x = false) :
    ∃ c ids, node.indexRowsSum.findIdx? (place < ·) = some (c + 1)
      ∧ (node.outerIds ps)[c]? = some ids
      ∧ ∀ q ids', (node.outerIds ps)[q]? = some ids' → q ≠ c →
        ∀ x ∈ ids', bs.testBit x = true := by
  obtain ⟨c, ids, j, hids, hj, rfl⟩ := exists_rowOffset_add (lt_length hplace)
  rw [getElem?_flatten_rowOffset hids hj] at hplace
  rw [hn.indexRowsSum_eq]
  exact ⟨c, ids, findIdx?_rowOffsets hids hj, hids, fun q ids' hids' hq =>
    hb.others hids (mem_of_getElem? hplace) hx hids' hq⟩

lemma firstValid_of_nil (hmap : node.internalOffsetToMostExternalId = [])
    (hx : bs.testBit x = false) :
    ∃ place f, node.labelToInternalOffset[bs.getFirstValidIndex]? = some place
      ∧ (node.outerIds ps).flatten[place]? = some f ∧ bs.testBit f = false := by
  have hfirst := testBit_getFirstValidIndex hb.outIds hx
  have hlt := hb.rows hmap _ hfirst
  have hidx := idxOf_lt_length_of_mem (hn.tables.numbering_flatten.mem_iff.mpr hlt)
  rw [hn.tables_eq.2.2.1, getElem?_range_map hlt, outerIds_of_nil hmap]
  exact ⟨_, _, rfl, by rw [getElem?_eq_getElem hidx, getElem_idxOf hidx], hfirst⟩

lemma firstValid_of_map (hmap : node.internalOffsetToMostExternalId ≠ [])
    (hmem : x ∈ (node.outerIds ps).flatten) (hx : bs.testBit x = false) :
    ∃ f, (node.outerIds ps).flatten[(node.withMostExternalIds bs).getFirstValidIndex]?
      = some f ∧ bs.testBit f = false := by
  have hmost := withMostExternalIds_of_ne hmap hb.nonempty
  have htest : ∀ i, (node.withMostExternalIds bs).test i
      = bs.testBit (node.internalOffsetToMostExternalId.getD i 0) := by
    intro i
    rw [hmost, test_of_outIds (outIds_setOutIds ..)]
    simp [hb.idOffset]
  rw [hn.flatten_outerIds hmap] at hmem
  obtain ⟨i, hi, rfl⟩ := getElem_of_mem hmem
  -- the loop stops at row `i` at the latest
  have hfound : ((range node.internalOffsetToMostExternalId.length).find?
      fun i => !(node.withMostExternalIds bs).test i).isSome := by
    rw [find?_isSome]
    refine ⟨i, mem_range.mpr hi, ?_⟩
    rw [htest, getD_eq_getElem _ _ hi, hx]
    rfl
  obtain ⟨f, hf⟩ := isSome_iff_exists.mp hfound
  have hfirst : (node.withMostExternalIds bs).getFirstValidIndex = f := by
    rw [getFirstValidIndex, hmost, outIds_setOutIds,
      numInternalIds_setOutIds, ← hmost, isSome_some, hf]
    rfl
  have hlt := mem_range.mp (mem_of_find?_eq_some hf)
  have hvalid := find?_some hf
  rw [htest, getD_eq_getElem _ _ hlt] at hvalid
  rw [hfirst, hn.flatten_outerIds hmap]
  exact ⟨_, getElem?_eq_getElem hlt, by simpa using hvalid⟩

lemma exists_chosen :
    ∃ c ids, node.getIndexToSearchByScalarInfo (node.withMostExternalIds bs) = some (some c)
      ∧ (node.outerIds ps)[c]? = some ids
      ∧ ∀ q ids', (node.outerIds ps)[q]? = some ids' → q ≠ c →
        ∀ x ∈ ids', bs.testBit x = true := by
  have hmany : node.indexes.length ≠ 1 := by
    have := hn.many
    have := hn.indexes
    omega
  have hcount := count_add_countP hn hb
  rw [getIndexToSearchByScalarInfo, if_neg hmany, empty_withMostExternalIds, hb.nonempty]
  simp only [Bool.false_eq_true, if_false]
  split_ifs with hall hout
  · -- every row is filtered
    have hlen : (node.outerIds ps).length = ps.length := by
      simpa using congrArg length hn.map_length_outerIds
    have hlt : 0 < (node.outerIds ps).length := by
      have := hn.many
      omega
    refine ⟨0, _, rfl, getElem?_eq_getElem hlt, fun q ids' hids' _ x hx => ?_⟩
    have hnone : (node.outerIds ps).flatten.countP (fun x => !bs.testBit x) = 0 := by omega
    have := countP_eq_zero.mp hnone x (mem_flatten.mpr ⟨ids', mem_of_getElem? hids', hx⟩)
    simpa using this
  all_goals
    have hsome : 0 < (node.outerIds ps).flatten.countP (fun x => !bs.testBit x) := by omega
    obtain ⟨x, hmem, hx⟩ := countP_pos_iff.mp hsome
    have hclear : bs.testBit x = false := by simpa using hx
  · have hmap : node.internalOffsetToMostExternalId ≠ [] := by
      intro hmap
      simp [withMostExternalIds, hmap, hb.outIds] at hout
    obtain ⟨f, hplace, hvalid⟩ := firstValid_of_map hn hb hmap hmem hclear
    obtain ⟨c, ids, hchosen, hids⟩ := chosen_of_valid hn hb hplace hvalid
    exact ⟨c, ids, by simp [hchosen], hids⟩
  · have hmap : node.internalOffsetToMostExternalId = [] := by
      by_contra hmap
      simp [withMostExternalIds, hmap, hb.nonempty] at hout
    obtain ⟨place, f, hoffset, hplace, hvalid⟩ := firstValid_of_nil hn hb hmap hclear
    obtain ⟨c, ids, hchosen, hids⟩ := chosen_of_valid hn hb hplace hvalid
    exact ⟨c, ids, by simp [withMostExternalIds_of_nil hmap, hoffset, hchosen], hids⟩

end

/-! ### The rebased bitset -/

def rebased (node : FaissNode I) (ps : List (List ℕ)) (bs : BitsetView) (c : ℕ)
    (ids : List ℕ) : BitsetView :=
  if node.internalOffsetToMostExternalId = [] then
    bs.setOutIds (ids.getD · 0) ids.length (ids.countP bs.testBit)
  else
    ((node.withMostExternalIds bs).setOutIds (node.internalOffsetToMostExternalId.getD · 0)
      ids.length (ids.countP bs.testBit)).setIdOffset (rowOffset (node.outerIds ps) c)

include hn hb in
lemma rebase_eq : ∃ c ids, (node.outerIds ps)[c]? = some ids
      ∧ (∀ q ids', (node.outerIds ps)[q]? = some ids' → q ≠ c →
        ∀ x ∈ ids', bs.testBit x = true)
      ∧ node.rebase bs = .ok (c, node.rebased ps bs c ids) := by
  obtain ⟨c, ids, hchosen, hids, hothers⟩ := exists_chosen hn hb
  refine ⟨c, ids, hids, hothers, ?_⟩
  obtain ⟨part, hpart, hlen⟩ := hn.getElem?_parts hids
  have hne : ps.isEmpty = false := by simpa using hn.tables.ne_nil
  have hfiltered : (((part.length : ℤ) - ((node.withMostExternalIds bs).size
      - (node.withMostExternalIds bs).count)) % 2 ^ 64).toNat = ids.countP bs.testBit := by
    have hcount := count_add_countP hn hb
    rw [countP_flatten hids fun q ids' hids' hq x hx => by simp [hothers q ids' hids' hq x hx]]
      at hcount
    have hsplit := countP_add_countP_not bs.testBit ids
    have hsmall := hn.tables_eq.2.2.2
    have hle := rowOffset_add_le hpart
    rw [hn.length_flatten] at hle
    omega
  have hrows : node.indexRowsSum[c]? = some (rowOffset (node.outerIds ps) c) := by
    rw [hn.indexRowsSum_eq]
    exact getElem?_rowOffsets (lt_length hids).le
  rw [rebase, hchosen]
  simp only [orUndefined, Except.bind, bind, hn.tables_eq.1, hne, empty_withMostExternalIds,
    hb.nonempty, Bool.or_false, Bool.false_eq_true, if_false, hpart, hfiltered, hrows,
    bind_some]
  by_cases hmap : node.internalOffsetToMostExternalId = []
  · rw [outerIds_of_nil hmap, hpart] at hids
    cases hids
    rw [rebased, if_pos hmap, withMostExternalIds_of_nil hmap, hb.outIds]
    rfl
  · have hout : (node.withMostExternalIds bs).outIds.isNone = false := by
      rw [withMostExternalIds_of_ne hmap hb.nonempty]
      rfl
    rw [rebased, if_neg hmap, hout, hlen]
    rfl

lemma size_rebased (c : ℕ) (ids : List ℕ) :
    (node.rebased ps bs c ids).size = ids.length := by
  unfold rebased
  split_ifs <;> simp

section

variable (hids : (node.outerIds ps)[c]? = some ids)

include hn hb hids

lemma test_rebased (hi : i < ids.length) :
    (node.rebased ps bs c ids).test i = bs.testBit (ids.getD i 0) := by
  unfold rebased
  split_ifs with hmap
  · rw [test_of_outIds (outIds_setOutIds ..)]
    simp [hb.idOffset]
  · have hget := getElem?_flatten_rowOffset hids hi
    rw [hn.flatten_outerIds hmap] at hget
    rw [test_setIdOffset (outIds_setOutIds ..), add_comm,
      getD_eq_getElem?_getD, hget]
    simp

lemma countP_test_rebased : (range ids.length).countP (node.rebased ps bs c ids).test
      = ids.countP bs.testBit := by
  rw [← countP_range_getD ids]
  apply countP_congr
  intro i hi
  rw [test_rebased hn hb hids (mem_range.mp hi)]

lemma describes_rebased_iff : Describes bs (node.rebased ps bs c ids) ids
      ↔ (node.rebased ps bs c ids).count = ids.countP bs.testBit := by
  constructor
  · intro hd
    rw [hd.count, size_rebased, countP_test_rebased hn hb hids]
  · intro hcount
    refine ⟨size_rebased c ids, fun i hi => test_rebased hn hb hids hi, ?_⟩
    rw [hcount, size_rebased, countP_test_rebased hn hb hids]

end

lemma count_rebased (hb : FiltersPartitions node n ps bs)
    (h : node.internalOffsetToMostExternalId = [] ∨ 0 < ids.countP bs.testBit) :
    (node.rebased ps bs c ids).count = ids.countP bs.testBit := by
  unfold rebased
  split_ifs with hmap
  · rw [count_setOutIds _ _ _ _ hb.nonempty]
    split_ifs
    · rfl
    · rw [hb.idOffset]
      exact countP_range_getD ids bs.testBit
  · rw [count_setIdOffset, count_setOutIds _ _ _ _ (by simpa using
      hb.nonempty), if_pos (h.resolve_left hmap)]

lemma count_rebased_of_unfiltered (hb : FiltersPartitions node n ps bs)
    (hmap : node.internalOffsetToMostExternalId ≠ []) (hnone : ids.countP bs.testBit = 0) :
    (node.rebased ps bs c ids).count = (range ids.length).countP fun i =>
        bs.testBit (node.internalOffsetToMostExternalId.getD i 0) := by
  have hoffset : (node.withMostExternalIds bs).idOffset = 0 := by
    rw [withMostExternalIds_of_ne hmap hb.nonempty, idOffset_setOutIds, hb.idOffset]
  rw [rebased, if_neg hmap, count_setIdOffset, count_setOutIds _ _ _ _ (by
    simpa using hb.nonempty), if_neg (by omega), hoffset]
  simp

/-! ### When the bitset describes the partition -/

include hn hb in
lemma count_rebased_of_first
    (hids : (node.outerIds ps)[c]? = some ids) (hfirst : rowOffset (node.outerIds ps) c = 0) :
    (node.rebased ps bs c ids).count = ids.countP bs.testBit := by
  by_cases hmap : node.internalOffsetToMostExternalId = []
  · exact count_rebased hb (.inl hmap)
  rcases Nat.eq_zero_or_pos (ids.countP bs.testBit) with hnone | hpos
  · rw [count_rebased_of_unfiltered hb hmap hnone, ← countP_range_getD ids]
    apply countP_congr
    intro i hi
    have hget := getElem?_flatten_rowOffset hids (mem_range.mp hi)
    rw [hn.flatten_outerIds hmap, hfirst, zero_add] at hget
    rw [getD_eq_getElem?_getD, hget, ← getD_eq_getElem?_getD]
  · exact count_rebased hb (.inr hpos)

include hn hb in
lemma count_rebased_of_later (hmap : node.internalOffsetToMostExternalId ≠ [])
    (hids : (node.outerIds ps)[c]? = some ids)
    (hlater : 0 < rowOffset (node.outerIds ps) c) (hne : ids ≠ [])
    (hnone : ids.countP bs.testBit = 0) : 0 < (node.rebased ps bs c ids).count := by
  have hlen : 0 < ids.length := length_pos_iff.mpr hne
  obtain ⟨x, hx⟩ := exists_mem_of_ne_nil ids hne
  have hvalid : bs.testBit x = false := by simpa using countP_eq_zero.mp hnone x hx
  have hend := rowOffset_add_le hids
  obtain ⟨q, ids', j, hids', hj, hplace⟩ :=
    exists_rowOffset_add (show 0 < (node.outerIds ps).flatten.length by omega)
  have hq : q ≠ c := by
    rintro rfl
    omega
  have hget := getElem?_flatten_rowOffset hids' hj
  rw [← hplace, hn.flatten_outerIds hmap] at hget
  rw [count_rebased_of_unfiltered hb hmap hnone, countP_pos_iff]
  refine ⟨0, mem_range.mpr hlen, ?_⟩
  rw [getD_eq_getElem?_getD, hget, ← getD_eq_getElem?_getD, getD_eq_getElem _ _ hj]
  exact hb.others hids hx hvalid hids' hq _ (getElem_mem hj)

/-- **When the bitset describes the partition**: not if there is an outermost map and no row of the
partition is filtered, unless the partition is at the start. -/
theorem rebaseDescribes_iff (hn : node.Partitioned n ps) (hb : FiltersPartitions node n ps bs) :
    node.RebaseDescribes ps bs ↔ node.internalOffsetToMostExternalId = [] ∨
      ∀ q ids, (node.outerIds ps)[q]? = some ids → 0 < rowOffset ps q → ids ≠ [] →
        ∃ x ∈ ids, bs.testBit x = true := by
  have hoffset : ∀ q, rowOffset ps q = rowOffset (node.outerIds ps) q := fun q =>
    (rowOffset_congr hn.map_length_outerIds q).symm
  obtain ⟨c, ids, hids, hothers, hrebase⟩ := rebase_eq hn hb
  constructor
  · rintro ⟨c', ids', bitset', hrebase', hids', -, hd⟩
    rw [hrebase] at hrebase'
    cases hrebase'
    obtain rfl := mem_unique hids hids'
    have hcount := (describes_rebased_iff hn hb hids).mp hd
    by_contra hcond
    obtain ⟨hmap, hcond⟩ := not_or.mp hcond
    push Not at hcond
    obtain ⟨q, idsq, hidsq, hlater, hne, hvalid⟩ := hcond
    -- a partition with a valid row is the chosen one
    have hq : q = c := by
      by_contra hqc
      obtain ⟨x, hx⟩ := exists_mem_of_ne_nil idsq hne
      exact hvalid x hx (hothers q idsq hidsq hqc x hx)
    subst hq
    obtain rfl := mem_unique hids hidsq
    have hnone : ids.countP bs.testBit = 0 := countP_eq_zero.mpr hvalid
    have hpos := count_rebased_of_later hn hb hmap hids (hoffset q ▸ hlater) hne hnone
    omega
  · intro hcond
    refine ⟨c, ids, _, hrebase, hids, hothers, (describes_rebased_iff hn hb hids).mpr ?_⟩
    by_cases hmap : node.internalOffsetToMostExternalId = []
    · exact count_rebased hb (.inl hmap)
    rcases Nat.eq_zero_or_pos (rowOffset (node.outerIds ps) c) with hfirst | hlater
    · exact count_rebased_of_first hn hb hids hfirst
    by_cases hne : ids = []
    · subst hne
      rw [count_rebased_of_unfiltered hb hmap countP_nil]
      rfl
    · obtain ⟨x, hx, hfiltered⟩ := hcond.resolve_left hmap c ids hids (hoffset c ▸ hlater) hne
      exact count_rebased hb (.inr (countP_pos_iff.mpr ⟨x, hx, hfiltered⟩))

/-! ### Two partitions of one row -/

def twoRows (map : List ℕ) : FaissNode Unit where
  indexes := [some (), some ()]
  labels := [[0], [1]]
  indexRowsSum := [0, 1, 2]
  labelToInternalOffset := [0, 1]
  internalOffsetToMostExternalId := map

def firstFiltered : BitsetView where
  bits _ := 1
  numBits := 2
  numFilteredOutBits := 1

lemma partitioned_twoRows {map : List ℕ} (h : map = [] ∨ map = [0, 1]) :
    (twoRows map).Partitioned 2 [[0], [1]] where
  tables := .mapped (by decide) rfl rfl (by decide) rfl (by decide)
  indexes := rfl
  many := by decide
  map := h.imp_right (congrArg length)

lemma eq_one_of_firstFiltered (hx : firstFiltered.testBit x = false) : x = 1 := by
  obtain ⟨hlt, hclear⟩ := testBit_eq_false_iff.mp hx
  have hcases : x = 0 ∨ x = 1 := by
    have hlt : x < 2 := hlt
    omega
  rcases hcases with rfl | rfl
  · exact absurd hclear (by decide)
  · rfl

lemma filtersPartitions_twoRows {map : List ℕ} (h : map = [] ∨ map = [0, 1]) :
    FiltersPartitions (twoRows map) 2 [[0], [1]] firstFiltered where
  nonempty := rfl
  outIds := rfl
  idOffset := rfl
  counted := by decide
  rows := fun _ x hx => eq_one_of_firstFiltered hx ▸ Nat.one_lt_two
  onePartition := by
    have houter : (twoRows map).outerIds [[0], [1]] = [[0], [1]] := by
      rcases h with rfl | rfl <;> rfl
    have hone : ∀ (q : ℕ) (ids : List ℕ), ([[0], [1]] : List (List ℕ))[q]? = some ids →
        1 ∈ ids → q = 1 := by
      intro q ids hids hmem
      match q with
      | 0 =>
        obtain rfl : [0] = ids := by simpa using hids
        simp at hmem
      | 1 => rfl
      | q + 2 => simp at hids
    intro q q' ids ids' hids hids' x hx x' hx' hvalid hvalid'
    rw [houter] at hids hids'
    rw [eq_one_of_firstFiltered hvalid] at hx
    rw [eq_one_of_firstFiltered hvalid'] at hx'
    rw [hone q ids hids hx, hone q' ids' hids' hx']

theorem rebaseDescribes_twoRows : (twoRows []).RebaseDescribes [[0], [1]] firstFiltered :=
  (rebaseDescribes_iff (partitioned_twoRows (.inl rfl))
    (filtersPartitions_twoRows (.inl rfl))).mpr (.inl rfl)

/-- With an outermost map, the bitset for row 1 counts one filtered row, and filters none. -/
theorem rebase_miscounts :
    (twoRows [0, 1]).Partitioned 2 [[0], [1]]
      ∧ FiltersPartitions (twoRows [0, 1]) 2 [[0], [1]] firstFiltered
      ∧ ∃ bitset', (twoRows [0, 1]).rebase firstFiltered = .ok (1, bitset')
        ∧ bitset'.size = 1 ∧ bitset'.test 0 = false ∧ bitset'.count = 1 :=
  ⟨partitioned_twoRows (.inr rfl), filtersPartitions_twoRows (.inr rfl),
    _, rfl, by decide, by decide, by decide⟩

end FaissNode

end Rvanns.Knowhere
