import Rvanns.Cpp.Returns
import Rvanns.Knowhere.Equiv.FaissNode
import Rvanns.Knowhere.HnswPartitions

/-!
# Partitioned builds resolve their ids

Training and adding go through the same groups in the same order, so that each row is stored where
the id tables say it is.  The node then finds every row through its tables, in a request for the
rows of given ids as in the requests that search one partition (`buildResolves_iff`).
-/

namespace Rvanns.Knowhere

open Cpp List

section

open Option

variable {R V : Type}

/-! ### The groups -/

namespace Combining

structure Inv (rows : ℕ → ℕ) (baseRows : ℤ) (done : List ℕ) (s : Combining) : Prop where
  flatten : s.res.flatten ++ s.cur = done
  large : ∀ g ∈ s.res, baseRows ≤ (g.map rows).sum
  curSize : s.curSize ≤ (s.cur.map rows).sum

variable {rows : ℕ → ℕ} {sizes : List ℤ} {baseRows : ℤ} {s : Combining} {done : List ℕ}

lemma Inv.turn (h : Inv rows baseRows done s) (hi : sizes.getD i 0 ≤ rows i) :
    Inv rows baseRows (done ++ [i]) (s.turn sizes baseRows i) := by
  have hsum : s.curSize + sizes.getD i 0 ≤ (((s.cur ++ [i]).map rows).sum : ℕ) := by
    rw [map_append, sum_append]
    have := h.curSize
    simp only [map_cons, map_nil, sum_cons, sum_nil]
    omega
  rw [Combining.turn]
  split_ifs with hfull
  · refine ⟨?_, fun g hg => ?_, by simp⟩
    · rw [← h.flatten]
      simp
    · rcases mem_append.mp hg with hg | hg
      · exact h.large g hg
      · obtain rfl : g = s.cur ++ [i] := by simpa using hg
        exact hfull.trans hsum
  · refine ⟨?_, h.large, hsum⟩
    rw [← h.flatten]
    simp

lemma Inv.run (hsizes : ∀ i, sizes.getD i 0 ≤ rows i) (indices : List ℕ)
    (h : Inv rows baseRows done s) :
    Inv rows baseRows (done ++ indices) (indices.foldl (Combining.turn sizes baseRows) s) := by
  induction indices generalizing done s with
  | nil => simpa using h
  | cons i indices ih =>
    rw [append_cons]
    exact ih (h.turn (hsizes i))

lemma Inv.flatten_tail (h : Inv rows baseRows done s) : s.tail.flatten = done := by
  rw [← h.flatten, tail]
  split_ifs with hcur
  · simp [hcur]
  · cases hlast : s.res.getLast? with
    | none =>
      rw [getLast?_eq_none_iff.mp hlast]
      simp
    | some last =>
      have hres : s.res = s.res.dropLast ++ [last] := (dropLast_append_getLast? last hlast).symm
      conv_rhs => rw [hres]
      simp

lemma Inv.large_tail (h : Inv rows baseRows done s) (hmany : 2 ≤ s.tail.length) :
    ∀ g ∈ s.tail, baseRows ≤ (g.map rows).sum := by
  intro g hg
  rw [tail] at hg hmany
  split_ifs at hg hmany
  · exact h.large g hg
  · cases hlast : s.res.getLast? with
    | none =>
      rw [hlast] at hmany
      simp at hmany
    | some last =>
      rw [hlast] at hg
      rcases mem_append.mp hg with hg | hg
      · exact h.large g (dropLast_subset _ hg)
      · obtain rfl : g = last ++ s.cur := by simpa using hg
        have hle := h.large last (mem_of_getLast? hlast)
        rw [map_append, sum_append]
        omega

end Combining

lemma combinePartitions_spec (h : combinePartitions sort info baseRows = some gs)
    (hmany : 2 ≤ gs.length) :
    IsNumbering gs.flatten info.length
      ∧ ∀ g ∈ gs, baseRows ≤ (g.map fun i => (info.getD i []).length).sum := by
  rw [combinePartitions] at h
  split_ifs at h
  cases h
  set sizes := info.map fun idList => wrapInt 32 idList.length with hsizes
  have hsize : ∀ i, sizes.getD i 0 ≤ ((info.getD i []).length : ℕ) := by
    intro i
    rw [getD_eq_getElem?_getD, getElem?_map, getD_eq_getElem?_getD]
    cases info[i]? with
    | none => simp
    | some ids => exact wrapInt_32_le _
  have hstart : Combining.Inv (fun i => (info.getD i []).length) baseRows [] {} :=
    ⟨rfl, by simp, by simp⟩
  have hinv := hstart.run hsize
    (sort.run (fun i1 i2 => sizes.getD i1 0 < sizes.getD i2 0) (range info.length))
  refine ⟨?_, hinv.large_tail hmany⟩
  rw [hinv.flatten_tail]
  exact sort.perm (.of_key (fun i => sizes.getD i 0) fun i j => by simp) _

/-! ### The rows of a group -/

def listsOf (info : List (List ℕ)) (group : List ℕ) : List (List ℕ) :=
  group.map (info.getD · [])

def partsOf (info gs : List (List ℕ)) : List (List ℕ) :=
  gs.map fun group => (listsOf info group).flatten

def rowsAt (conv : R → V) (data : List R) (ids : List ℕ) : List V :=
  ids.filterMap fun x => data[x]?.map conv

/-- The groups cut the rows into parts, each large enough to be trained. -/
structure Plan (kind : HnswKind R V) (conv : R → V) (data : List R)
    (info gs ps : List (List ℕ)) : Prop where
  toFp32 : kind.toFp32 = some conv
  trains : ∀ rows i, kind.trainIndex (some rows) i = none
  parts_eq : ps = partsOf info gs
  numbering : IsNumbering ps.flatten data.length
  lists : ∀ group ∈ gs, ∀ j ∈ group, j < info.length
  large : ∀ part ∈ ps, kind.baseRows ≤ part.length
  few : data.length ≤ 2 ^ 32

lemma flatten_partsOf (info gs : List (List ℕ)) :
    (partsOf info gs).flatten = (gs.flatten.map (info.getD · [])).flatten := by
  induction gs with
  | nil => rfl
  | cons group gs ih =>
    rw [partsOf, map_cons, flatten_cons, flatten_cons, map_append, flatten_append, ← ih]
    rfl

lemma isNumbering_partsOf (hrows : IsNumbering info.flatten n)
    (hgroups : IsNumbering gs.flatten info.length) :
    IsNumbering (partsOf info gs).flatten n := by
  have hperm : (gs.flatten.map (info.getD · [])).Perm info := by
    have hmap := List.Perm.map (info.getD · []) hgroups
    rwa [map_getD_range] at hmap
  rw [flatten_partsOf]
  exact (List.Perm.flatten hperm).trans hrows

section Plan

variable {kind : HnswKind R V} {conv : R → V} {data : List R}
  {info gs ps : List (List ℕ)}

lemma convertRowsToFp32_eq (hconvert : kind.toFp32 = some conv)
    (hids : ∀ x ∈ ids, x < data.length) :
    convertRowsToFp32 kind data ids = .ok (rowsAt conv data ids) := by
  rw [convertRowsToFp32, hconvert]
  apply orUndefined_eq_ok.mpr
  induction ids with
  | nil => rfl
  | cons x ids ih =>
    have hx := hids x mem_cons_self
    rw [mapM_cons, ih fun y hy => hids y (mem_cons_of_mem x hy)]
    simp [rowsAt, hx]

lemma rowsAt_append (ids ids' : List ℕ) :
    rowsAt conv data (ids ++ ids') = rowsAt conv data ids ++ rowsAt conv data ids' :=
  filterMap_append

lemma length_rowsAt (hids : ∀ x ∈ ids, x < data.length) :
    (rowsAt conv data ids).length = ids.length := by
  rw [rowsAt, length_filterMap_eq_countP, countP_eq_length]
  intro x hx
  simp [hids x hx]

lemma getElem?_rowsAt (hids : ∀ x ∈ ids, x < data.length) (i : ℕ) :
    (rowsAt conv data ids)[i]? = ids[i]?.bind fun x => data[x]?.map conv := by
  induction ids generalizing i with
  | nil => simp [rowsAt]
  | cons x ids ih =>
    have hx := hids x mem_cons_self
    have hcons : rowsAt conv data (x :: ids) = conv data[x] :: rowsAt conv data ids := by
      simp [rowsAt, hx]
    rw [hcons]
    cases i with
    | zero => simp [hx]
    | succ i => simpa using ih (fun y hy => hids y (mem_cons_of_mem x hy)) i

section

variable (h : Plan kind conv data info gs ps)

include h

lemma Plan.length_parts : ps.length = gs.length := by
  rw [h.parts_eq, partsOf, length_map]

lemma Plan.getElem?_parts {i : ℕ} {group : List ℕ} (hi : gs[i]? = some group) :
    ps[i]? = some (listsOf info group).flatten := by
  rw [h.parts_eq, partsOf, getElem?_map, hi]
  rfl

lemma Plan.mapM_lists {i : ℕ} {group : List ℕ} (hi : gs[i]? = some group) :
    (group.mapM fun j => info[j]?) = some (listsOf info group) := by
  apply mapM_eq_some_map
  intro j hj
  have hlt := h.lists group (mem_of_getElem? hi) j hj
  simp [hlt]

lemma Plan.lt_of_mem_lists {i : ℕ}
    {group ids : List ℕ} (hi : gs[i]? = some group) (hids : ids ∈ listsOf info group) :
    ∀ x ∈ ids, x < data.length := by
  intro x hx
  apply h.numbering.mem_iff.mp
  exact mem_flatten.mpr ⟨_, mem_of_getElem? (h.getElem?_parts hi), mem_flatten.mpr ⟨ids, hids, hx⟩⟩

lemma Plan.rowOffset_lt (hi : ps[i]? = some part) : rowOffset ps i < data.length := by
  have hlarge := h.large part (mem_of_getElem? hi)
  have hpos := kind.baseRows_pos
  have hend := rowOffset_add_le hi
  rw [h.numbering.length] at hend
  omega

end

/-! ### Training -/

section Tables

variable {ls : List (List ℕ)} {ids : List ℕ} {i j m n : ℕ}

lemma getElem?_place (hi : ps[i]? = some ls.flatten) (hj : ls[j]? = some ids)
    (hm : m < ids.length) :
    ls.flatten[rowOffset ls j + m]? = some ids[m]
      ∧ ps.flatten[rowOffset ps i + (rowOffset ls j + m)]? = some ids[m] := by
  have hgroup := getElem?_flatten_rowOffset hj hm
  have hend := rowOffset_add_le hj
  rw [getElem?_eq_getElem hm] at hgroup
  refine ⟨hgroup, ?_⟩
  rw [getElem?_flatten_rowOffset hi (by omega), hgroup]

def labelled (ps ls : List (List ℕ)) (n i j : ℕ) : List ℕ × List ℕ :=
  (filled ls.flatten 0 (rowOffset ls j),
    scattered ps.flatten n id 0 (rowOffset ps i + rowOffset ls j))

lemma labelIds_eq (hnum : IsNumbering ps.flatten n) (hfew : n ≤ 2 ^ 32)
    (hi : ps[i]? = some ls.flatten) (hj : ls[j]? = some ids) :
    labelIds (rowOffset ps i) (rowOffset ls j) ids (labelled ps ls n i j)
      = some (labelled ps ls n i (j + 1)) := by
  rw [labelled, labelled, rowOffset_succ hj]
  apply foldlM_range_eq_pure (m := Option) (S := fun m =>
    (filled ls.flatten 0 (rowOffset ls j + m),
      scattered ps.flatten n id 0 (rowOffset ps i + (rowOffset ls j + m))))
  intro m hm
  obtain ⟨hplace, hall⟩ := getElem?_place hi hj hm
  obtain ⟨hlt, hget⟩ := List.getElem?_eq_some_iff.mp hall
  rw [hnum.length] at hlt
  -- the offset fits, because the row exists
  have hfits : (rowOffset ps i + rowOffset ls j + m) % 2 ^ 32
      = rowOffset ps i + (rowOffset ls j + m) := by
    rw [Nat.mod_eq_of_lt (by omega), Nat.add_assoc]
  have hlabelLt : ids[m] < n := hnum.mem_iff.mp (mem_of_getElem? hall)
  have hscatter := hnum.scattered_succ (f := id) (d := 0) hlt
  rw [getD_eq_getElem?_getD, hall] at hscatter
  simp only [getElem?_eq_getElem hm, some_bind, wr_filled 0 hplace, hfits]
  rw [wr_of_lt (by simpa using hlabelLt)]
  simp only [← Nat.add_assoc] at hscatter ⊢
  rw [← hscatter]
  rfl

end Tables

def groupTables (conv : R → V) (data : List R) (ps ls : List (List ℕ)) (i j : ℕ) :
    GroupTables V where
  table := (labelled ps ls data.length i j).1
  offsets := (labelled ps ls data.length i j).2
  curSize := rowOffset ls j
  tmpData := rowsAt conv data (ls.take j).flatten

lemma labelList_eq (hconvert : kind.toFp32 = some conv)
    (hnum : IsNumbering ps.flatten data.length) (hfew : data.length ≤ 2 ^ 32)
    (hi : ps[i]? = some ls.flatten) (hj : j < ls.length) :
    labelList kind data (rowOffset ps i) ls (groupTables conv data ps ls i j) j
      = .ok (groupTables conv data ps ls i (j + 1)) := by
  have hget : ls[j]? = some ls[j] := getElem?_eq_getElem hj
  have hids : ∀ x ∈ ls[j], x < data.length := by
    intro x hx
    apply hnum.mem_iff.mp
    exact mem_flatten.mpr ⟨_, mem_of_getElem? hi, mem_flatten.mpr ⟨_, getElem_mem hj, hx⟩⟩
  have hlabel := labelIds_eq hnum hfew hi hget
  have hrows : rowsAt conv data (ls.take j).flatten ++ rowsAt conv data ls[j]
      = rowsAt conv data (ls.take (j + 1)).flatten := by
    rw [← rowsAt_append, take_add_one, hget, flatten_append]
    simp
  rw [labelList, hget, orUndefined_some, ok_bind, convertRowsToFp32_eq hconvert hids]
  show (orUndefined (labelIds (rowOffset ps i) (rowOffset ls j) ls[j]
    (labelled ps ls data.length i j)) >>= _) = _
  rw [hlabel, orUndefined_some]
  simp only [groupTables, rowOffset_succ hget, ← hrows]
  rfl

def trainedGroups (ps : List (List ℕ)) (n i : ℕ) : FaissNode (SubIndex V) where
  indexes := filled (replicate ps.length (some {})) none i
  labels := filled ps [] i
  indexRowsSum := filled ((rowOffsets ps).map (· % 2 ^ 32)) 0 (i + 1)
  labelToInternalOffset := scattered ps.flatten n id 0 (rowOffset ps i)
  internalOffsetToMostExternalId := []

variable (h : Plan kind conv data info gs ps)

include h in
lemma Plan.trainGroup_eq {i : ℕ} (hi : i < gs.length) :
    trainGroup kind data info gs (trainedGroups ps data.length i) i
      = .ok (trainedGroups ps data.length (i + 1)) := by
  have hgroup : gs[i]? = some gs[i] := getElem?_eq_getElem hi
  have hpart := h.getElem?_parts hgroup
  set ls := listsOf info gs[i] with hls
  have hlen := h.length_parts
  have hsize : (ls.map List.length).sum = ls.flatten.length := length_flatten.symm
  -- the offsets of this group and of the next
  have hrows : ((rowOffsets ps).map (· % 2 ^ 32)).length = ps.length + 1 := by
    rw [length_map, length_rowOffsets]
  have hbase : (filled ((rowOffsets ps).map (· % 2 ^ 32)) 0 (i + 1))[i]?
      = some (rowOffset ps i) := by
    have hlt : rowOffset ps i < data.length := h.rowOffset_lt hpart
    have hfew := h.few
    rw [getElem?_filled 0 (by omega) (by omega), getElem?_map, getElem?_rowOffsets (by omega),
      map_some, Nat.mod_eq_of_lt (by omega)]
  have hnext : ((rowOffsets ps).map (· % 2 ^ 32))[i + 1]?
      = some ((rowOffset ps i + ls.flatten.length) % 2 ^ 32) := by
    rw [getElem?_map, getElem?_rowOffsets (by omega), map_some, rowOffset_succ hpart]
  have hloop : (range ls.length).foldlM (labelList kind data (rowOffset ps i) ls)
      (groupTables conv data ps ls i 0)
      = .ok (groupTables conv data ps ls i ls.length) :=
    foldlM_range_eq_pure fun j hj => labelList_eq h.toFp32 h.numbering h.few hpart hj
  have hstart : groupTables conv data ps ls i 0
      = { table := replicate ls.flatten.length 0
          offsets := scattered ps.flatten data.length id 0 (rowOffset ps i) } := by
    simp [groupTables, labelled, rowOffset, filled_zero, rowsAt]
  have hdone : rowOffset ls ls.length = ls.flatten.length := by
    rw [rowOffset, take_length, length_flatten]
  have hend : groupTables conv data ps ls i ls.length
      = { table := ls.flatten
          offsets := scattered ps.flatten data.length id 0 (rowOffset ps (i + 1))
          curSize := ls.flatten.length
          tmpData := rowsAt conv data ls.flatten } := by
    simp only [groupTables, labelled, hdone, filled_length, take_length, rowOffset_succ hpart]
  rw [hstart, hend] at hloop
  rw [trainGroup, hgroup, orUndefined_some, ok_bind, h.mapM_lists hgroup, orUndefined_some, ok_bind]
  simp only [← hls, hsize, trainedGroups]
  rw [hbase, orUndefined_some, ok_bind, wr_filled 0 hnext, orUndefined_some, ok_bind, hloop,
    ok_bind,
    wr_filled [] hpart, orUndefined_some, h.trains]
  have hnew : (replicate ps.length (some ({} : SubIndex V)))[i]? = some (some {}) := by
    rw [getElem?_replicate, if_pos (by omega)]
  rw [wr_filled none hnew]
  rfl

def partitioned (indexes : List (Option (SubIndex V))) (ps : List (List ℕ)) (n : ℕ) :
    FaissNode (SubIndex V) where
  indexes := indexes
  labels := ps
  indexRowsSum := (rowOffsets ps).map (· % 2 ^ 32)
  labelToInternalOffset := (range n).map ps.flatten.idxOf
  internalOffsetToMostExternalId := []

include h in
lemma Plan.trainIndexByScalarInfo_eq (hne : gs ≠ []) :
    trainIndexByScalarInfo kind data info gs FaissNode.init
      = .ok (partitioned (replicate gs.length (some {})) ps data.length) := by
  have hlen := h.length_parts
  have hrows : ((rowOffsets ps).map (· % 2 ^ 32)).length = gs.length + 1 := by
    rw [length_map, length_rowOffsets, hlen]
  have hpos : 0 < gs.length := length_pos_iff.mpr hne
  have hstart : { (FaissNode.init : FaissNode (SubIndex V)) with
      labelToInternalOffset := resize [] data.length 0
      indexRowsSum := resize [] (gs.length + 1) 0
      labels := resize [] gs.length []
      indexes := resize [none] gs.length none }
      = (trainedGroups ps data.length 0 : FaissNode (SubIndex V)) := by
    have hnone : resize [(none : Option (SubIndex V))] gs.length none
        = replicate gs.length none := by
      rw [resize, take_of_length_le hpos, ← replicate_one,
        ← replicate_add, length_replicate, Nat.add_sub_cancel' hpos]
    have hzero : resize ([] : List ℕ) (gs.length + 1) 0
        = filled ((rowOffsets ps).map (· % 2 ^ 32)) 0 1 := by
      have hfirst : ((rowOffsets ps).map (· % 2 ^ 32))[0]? = some 0 := by
        rw [getElem?_map, getElem?_rowOffsets (by omega)]
        rfl
      rw [filled, hrows, take_add_one, hfirst]
      simp [resize, replicate_succ]
    rw [trainedGroups, filled_zero, filled_zero, hlen, hnone, hzero]
    simp [rowOffset, scattered_zero, resize, FaissNode.init]
  have hloop := foldlM_range_eq_pure (m := Except Failure)
    (S := trainedGroups (V := V) ps data.length) (n := gs.length)
    fun i hi => h.trainGroup_eq hi
  rw [← hstart] at hloop
  refine Eq.trans hloop ?_
  have hall : rowOffset ps gs.length = data.length := by
    rw [← h.numbering.length, rowOffset, ← hlen, take_length, length_flatten]
  have hindexes : filled (replicate gs.length (some ({} : SubIndex V))) none gs.length
      = replicate gs.length (some {}) := by
    simpa using filled_length (replicate gs.length (some ({} : SubIndex V))) none
  have hlabels : filled ps [] gs.length = ps := hlen ▸ filled_length _ _
  have hsums := filled_length ((rowOffsets ps).map (· % 2 ^ 32)) 0
  rw [hrows] at hsums
  simp only [trainedGroups, partitioned, hall, hlen, hindexes, hlabels, hsums,
    h.numbering.scattered_self]
  rfl

/-! ### Adding -/

/-- The rows are added while the index has less than `2 ^ 31` of them. -/
lemma addInPieces_eq (hconvert : kind.toFp32 = some conv)
    (hids : ∀ x ∈ ids, x < data.length) {index : SubIndex V}
    (hindex : index.storage.length < 2 ^ 31) :
    addInPieces kind data ids index = if index.storage.length + ids.length < 2 ^ 31
      then .ok ⟨index.storage ++ rowsAt conv data ids⟩ else .error .undefined := by
  have hloop := foldlM_range_eq_of_mono (e := Failure.undefined)
    (S := fun t => (⟨index.storage ++ rowsAt conv data (ids.take (4096 * t))⟩ : SubIndex V))
    (n := (ids.length + 4095) / 4096)
    (f := fun index t => do
      let rows ← convertRowsToFp32 kind data ((ids.drop (4096 * t)).take 4096)
      orUndefined (index.add rows))
    (fun t => index.storage.length + min (4096 * t) ids.length) (2 ^ 31)
    (fun t t' ht => by dsimp only; omega) (by simpa using hindex)
      fun t ht _ => by
        have hpiece : ∀ x ∈ (ids.drop (4096 * t)).take 4096, x < data.length :=
          fun x hx => hids x (mem_of_mem_drop (mem_of_mem_take hx))
        have hdone : ∀ x ∈ ids.take (4096 * t), x < data.length :=
          fun x hx => hids x (mem_of_mem_take hx)
        have hsize : (rowsAt conv data _).length = _ := length_rowsAt hpiece
        have hbefore : (rowsAt conv data _).length = _ := length_rowsAt hdone
        rw [length_take, length_drop] at hsize
        rw [length_take] at hbefore
        have hne : (rowsAt conv data ((ids.drop (4096 * t)).take 4096)).isEmpty = false := by
          rw [isEmpty_eq_false_iff, ne_eq, ← length_eq_zero_iff]
          omega
        rw [convertRowsToFp32_eq hconvert hpiece, ok_bind, SubIndex.add, hne,
          if_neg Bool.false_ne_true, Nat.mul_succ, take_add, rowsAt_append, ← append_assoc,
          length_append, hsize, hbefore]
        split_ifs with h1 h2 h2
        · rfl
        · omega
        · omega
        · rfl
  have hstart : (⟨index.storage ++ rowsAt conv data (ids.take (4096 * 0))⟩ : SubIndex V)
      = index := by simp [rowsAt]
  have hend : min (4096 * ((ids.length + 4095) / 4096)) ids.length = ids.length := by omega
  rw [hstart, hend, take_of_length_le (by omega)] at hloop
  exact hloop

lemma addPartialDatasetToIndex_eq (hconvert : kind.toFp32 = some conv)
    (hids : ∀ x ∈ ids, x < data.length) (hlen : ids.length ≤ data.length) {index : SubIndex V}
    (hindex : index.storage.length < 2 ^ 31) :
    addPartialDatasetToIndex kind data ids index = if index.storage.length + ids.length < 2 ^ 31
      then .ok ⟨index.storage ++ rowsAt conv data ids⟩ else .error .undefined := by
  rw [addPartialDatasetToIndex, if_neg (by omega), addInPieces_eq hconvert hids hindex]

def storedIndexes (conv : R → V) (data : List R) (ps : List (List ℕ)) :
    List (Option (SubIndex V)) :=
  ps.map fun part => some ⟨rowsAt conv data part⟩

lemma getElem?_storedIndexes (conv : R → V) (data : List R) {g : ℕ}
    {part : List ℕ} (hg : ps[g]? = some part) :
    (storedIndexes conv data ps)[g]? = some (some ⟨rowsAt conv data part⟩) := by
  rw [storedIndexes, getElem?_map, hg]
  rfl

include h in
lemma Plan.addGroup_eq {i : ℕ} (hi : i < gs.length) : addGroup kind data info gs
        (filled (storedIndexes conv data ps) (some {}) i) i
      = if (ps.getD i []).length < 2 ^ 31
        then .ok (filled (storedIndexes conv data ps) (some {}) (i + 1))
        else .error .undefined := by
  have hgroup : gs[i]? = some gs[i] := getElem?_eq_getElem hi
  have hpart := h.getElem?_parts hgroup
  set ls := listsOf info gs[i] with hls
  have hstored := getElem?_storedIndexes conv data hpart
  have hempty : (filled (storedIndexes conv data ps) (some {}) i)[i]? = some (some {}) := by
    have hlt := lt_length hstored
    have htake : ((storedIndexes conv data ps).take i).length = i := by
      rw [length_take]
      omega
    rw [filled, getElem?_append_right (by omega), getElem?_replicate, if_pos (by omega)]
  have hsmall : ls.flatten.length ≤ data.length := by
    have hend := rowOffset_add_le hpart
    rw [h.numbering.length] at hend
    omega
  have hloop := foldlM_range_eq_of_mono (e := Failure.undefined) (n := ls.length)
    (S := fun j => (⟨rowsAt conv data (ls.take j).flatten⟩ : SubIndex V))
    (f := fun index j => do
      let ids ← orUndefined ls[j]?
      addPartialDatasetToIndex kind data ids index)
    (fun j => (ls.take j).flatten.length) (2 ^ 31)
    (fun j j' hj => (take_sublist_take_left hj).flatten.length_le) (by simp)
    fun j hj hbefore => by
        have hget : ls[j]? = some ls[j] := getElem?_eq_getElem hj
        have hend := rowOffset_add_le hget
        have hrows : (rowsAt conv data (ls.take j).flatten).length
            = (ls.take j).flatten.length := by
          apply length_rowsAt
          intro x hx
          obtain ⟨ids, hids, hx⟩ := mem_flatten.mp hx
          exact h.lt_of_mem_lists hgroup (mem_of_mem_take hids) x hx
        have hindex : (SubIndex.mk (rowsAt conv data (ls.take j).flatten)).storage.length
            < 2 ^ 31 := hrows.trans_lt hbefore
        rw [hget, orUndefined_some, ok_bind, addPartialDatasetToIndex_eq h.toFp32 (h.lt_of_mem_lists
          hgroup (getElem_mem hj)) (by omega) hindex, take_add_one, hget, flatten_append,
          rowsAt_append, length_append, hrows, Option.toList_some, flatten_singleton]
  have hstart : (⟨rowsAt conv data (ls.take 0).flatten⟩ : SubIndex V) = {} := by simp [rowsAt]
  rw [hstart, take_length] at hloop
  rw [addGroup, hgroup, orUndefined_some, ok_bind, h.mapM_lists hgroup, orUndefined_some, ok_bind,
    hempty, List.getD_eq_getElem?_getD, hpart, Option.getD_some]
  simp only [join_some, ← hls]
  rw [orUndefined_some, ok_bind, hloop]
  split_ifs
  · rw [ok_bind, wr_filled _ hstored, orUndefined_some]
  · rfl

end Plan

end

section

variable {R V : Type} {kind : HnswKind R V} {conv : R → V} {data : List R}
  {info gs ps : List (List ℕ)}

/-! ### The build -/

lemma Plan.two_le_length (h : Plan kind conv data info gs ps)
    (hgroups : IsNumbering gs.flatten info.length) (hmany : 2 ≤ gs.length) :
    2 ≤ info.length := by
  have hne : ∀ group ∈ gs, 1 ≤ group.length := by
    intro group hgroup
    have hlarge := h.large (listsOf info group).flatten (h.parts_eq ▸ mem_map_of_mem hgroup)
    have hpos := kind.baseRows_pos
    apply length_pos_iff.mpr
    rintro rfl
    simp [listsOf] at hlarge
    omega
  match gs, hmany with
  | first :: second :: rest, _ =>
    have hfirst := hne first mem_cons_self
    have hsecond := hne second (mem_cons_of_mem _ mem_cons_self)
    rw [← hgroups.length, flatten_cons, flatten_cons, length_append, length_append]
    omega

def storedNode (conv : R → V) (data : List R) (ps : List (List ℕ)) : FaissNode (SubIndex V) :=
  partitioned (storedIndexes conv data ps) ps data.length

lemma Plan.buildNode_eq (h : Plan kind conv data info gs ps)
    (hcombine : combinePartitions sort info kind.baseRows = some gs)
    (hmany : 2 ≤ gs.length) (field : ℤ) :
    buildNode kind sort ⟨data, [(field, info)]⟩
      = if ∀ part ∈ ps, part.length < 2 ^ 31
        then .ok ⟨storedNode conv data ps, gs⟩
        else .error .undefined := by
  have hls := h.two_le_length (combinePartitions_spec hcombine hmany).1 hmany
  have hne : gs ≠ [] := by
    rintro rfl
    simp at hmany
  have htrain : trainInternal kind sort ⟨data, [(field, info)]⟩ { FaissNode.init with }
      = .ok ⟨partitioned (replicate gs.length (some ({} : SubIndex V))) ps data.length,
        gs⟩ := by
    simp only [trainInternal]
    rw [if_pos (by omega), hcombine, orUndefined_some, ok_bind, if_neg (by omega),
      h.trainIndexByScalarInfo_eq hne]
    rfl
  have hparts := h.length_parts
  have hlen : (storedIndexes conv data ps).length = gs.length := by
    rw [storedIndexes, length_map, hparts]
  have hloop := foldlM_range_eq_ite (n := gs.length)
    (S := filled (storedIndexes conv data ps) (some {}))
    fun i hi _ => h.addGroup_eq hi
  have hall : (∀ i < gs.length, (ps.getD i []).length < 2 ^ 31)
      ↔ ∀ part ∈ ps, part.length < 2 ^ 31 := by
    rw [← hparts, forall_mem_iff_getElem]
    refine forall₂_congr fun i hi => ?_
    rw [List.getD_eq_getElem?_getD, getElem?_eq_getElem hi, Option.getD_some]
  rw [filled_zero, hlen, if_congr hall rfl rfl] at hloop
  have hdone := filled_length (storedIndexes conv data ps) (some {})
  rw [hlen] at hdone
  rw [buildNode, htrain, ok_bind]
  have hempty : (partitioned (replicate gs.length (some ({} : SubIndex V))) ps
      data.length).isIndexEmpty = false := by
    simp [FaissNode.isIndexEmpty, partitioned, hne]
  have hone : ¬ (gs.length = 1 ∧ ps ≠ []) := by omega
  simp only [addInternal, hempty]
  rw [if_neg (by simp), if_neg (by simpa [partitioned] using hone), if_neg (by omega)]
  show ((range gs.length).foldlM _ (replicate gs.length (some ({} : SubIndex V))) >>= _) = _
  rw [hloop, hdone]
  split_ifs
  · rfl
  · rfl

/-! ### Reading -/

structure Resolves (baseRows : ℤ) (vectors : List V) (ps : List (List ℕ))
    (node : FaissNode (SubIndex V)) : Prop where
  labels : node.labels = ps
  oneGroup : ∀ x < vectors.length, ∃! g : ℕ, ∃ part, ps[g]? = some part ∧ x ∈ part
  large : ∀ part ∈ ps, baseRows ≤ part.length
  /-- The row of an id, for the requests that search its partition. -/
  position : ∀ (g : ℕ) (part : List ℕ), ps[g]? = some part → ∀ x ∈ part,
    ∃ index pos, node.indexes[g]? = some (some index) ∧ node.internalId g x = some pos
      ∧ x < vectors.length ∧ index.storage[pos]? = vectors[x]? ∧ part[pos]? = some x
  /-- The row of an id, for `GetVectorByIds`. -/
  vector : ∀ x < vectors.length, getVector node x = some vectors[x]?

lemma map_mod_rowOffsets (h : ps.flatten.length < 2 ^ 32) :
    (rowOffsets ps).map (· % 2 ^ 32) = rowOffsets ps := by
  conv_rhs => rw [← map_id (rowOffsets ps)]
  apply map_congr_left
  intro r hr
  obtain ⟨i, hi⟩ := getElem?_of_mem hr
  have hlt := lt_length hi
  rw [length_rowOffsets] at hlt
  rw [getElem?_rowOffsets (by omega)] at hi
  cases hi
  have := rowOffset_le ps i
  exact Nat.mod_eq_of_lt (by omega)

section Read

lemma tables_storedNode (conv : R → V) (hnum : IsNumbering ps.flatten data.length)
    (hne : ps ≠ []) (hsmall : data.length < 2 ^ 32) :
      (storedNode conv data ps).Tables data.length ps :=
  .mapped hne rfl (map_mod_rowOffsets (by rwa [hnum.length])) hnum rfl hsmall

lemma getElem?_rowsAt_idxOf (hpart : ∀ y ∈ part, y < data.length) (hx : x ∈ part) :
    (rowsAt conv data part)[part.idxOf x]? = (data.map conv)[x]? := by
  have hlt := idxOf_lt_length_of_mem hx
  rw [getElem?_rowsAt hpart, getElem?_eq_getElem hlt, getElem_idxOf hlt,
    Option.bind_some, getElem?_map]

section

variable (hnum : IsNumbering ps.flatten data.length)

include hnum

lemma existsUnique_part (hx : x < data.length) :
    ∃! g : ℕ, ∃ part, ps[g]? = some part ∧ x ∈ part := by
  obtain ⟨part, hpart, hmem⟩ := mem_flatten.mp (hnum.mem_iff.mpr hx)
  obtain ⟨g, hg⟩ := getElem?_of_mem hpart
  refine ⟨g, ⟨part, hg, hmem⟩, fun g' ⟨part', hg', hmem'⟩ => ?_⟩
  have hfind := findIdx?_rowOffsets hg (idxOf_lt_length_of_mem hmem)
  have hfind' := findIdx?_rowOffsets hg' (idxOf_lt_length_of_mem hmem')
  rw [← idxOf_flatten hnum.nodup hg hmem] at hfind
  rw [← idxOf_flatten hnum.nodup hg' hmem', hfind] at hfind'
  exact (Nat.succ.inj (Option.some.inj hfind')).symm

lemma getVector_storedNode (hsmall : data.length < 2 ^ 32) {x : ℕ} (hx : x < data.length) :
    getVector (storedNode conv data ps) x = some (data.map conv)[x]? := by
  obtain ⟨g, ⟨part, hg, hmem⟩, -⟩ := existsUnique_part hnum hx
  have hlt := idxOf_lt_length_of_mem hmem
  have hend := rowOffset_add_le hg
  rw [hnum.length] at hend
  have hoffset : ((range data.length).map ps.flatten.idxOf)[x]?
      = some (rowOffset ps g + part.idxOf x) := by
    rw [getElem?_range_map hx, idxOf_flatten hnum.nodup hg hmem]
  have hnonempty : ((range data.length).map ps.flatten.idxOf).isEmpty = false := by
    simpa using (show data.length ≠ 0 by omega)
  have hfind : (rowOffsets ps).findIdx?
      (fun r => decide ((rowOffset ps g + part.idxOf x + 1) % 2 ^ 32 ≤ r)) = some (g + 1) := by
    rw [Nat.mod_eq_of_lt (by omega), ← findIdx?_rowOffsets hg hlt]
    rfl
  have hpart : ∀ y ∈ part, y < data.length := fun y hy =>
    hnum.mem_iff.mp (mem_flatten.mpr ⟨part, mem_of_getElem? hg, hy⟩)
  have hget : g ≤ ps.length := (lt_length hg).le
  have hfew : ps.flatten.length < 2 ^ 32 := by rwa [hnum.length]
  simp only [getVector, storedNode, partitioned, hnonempty, Bool.false_eq_true, if_false, hoffset,
    some_bind, map_mod_rowOffsets hfew, hfind, getElem?_rowOffsets hget,
    getElem?_storedIndexes _ _ hg, Option.join_some]
  rw [show (rowOffset ps g + part.idxOf x + 2 ^ 32 - rowOffset ps g) % 2 ^ 32
    = part.idxOf x by omega, getElem?_rowsAt_idxOf hpart hmem, getElem?_map,
    getElem?_eq_getElem hx]
  rfl

end

lemma exists_getVector_eq_none (conv : R → V) (hnum : IsNumbering ps.flatten data.length)
    (hmax : data.length = 2 ^ 32) :
    ∃ x < data.length, getVector (storedNode conv data ps) x = none := by
  have hlast : data.length - 1 < data.length := by omega
  refine ⟨ps.flatten.getD (data.length - 1) 0, hnum.getD_lt hlast, ?_⟩
  have hoffset : ((range data.length).map ps.flatten.idxOf)[
      ps.flatten.getD (data.length - 1) 0]? = some (data.length - 1) := by
    rw [getElem?_range_map (hnum.getD_lt hlast), hnum.idxOf_getD hlast]
  have hnonempty : ((range data.length).map ps.flatten.idxOf).isEmpty = false := by
    simpa using (show data.length ≠ 0 by omega)
  have hwrap : (data.length - 1 + 1) % 2 ^ 32 = 0 := by omega
  simp only [getVector, storedNode, partitioned, hnonempty, Bool.false_eq_true, if_false, hoffset,
    some_bind, hwrap]
  cases hoffsets : (rowOffsets ps).map (· % 2 ^ 32) with
  | nil => simpa [length_rowOffsets] using congrArg List.length hoffsets
  | cons first rest => simp [findIdx?_cons]

end Read

/-! ### All builds -/

section

variable (kind) (hconvert : kind.toFp32 = some conv)
  (htrain : ∀ rows i, kind.trainIndex (some rows) i = none)
  (hrows : IsNumbering info.flatten data.length)
  (hids : ∀ ids ∈ info, ∀ x ∈ ids, x < 2 ^ 32)
  (hcombine : combinePartitions sort info kind.baseRows = some gs)
  (hmany : 2 ≤ gs.length)

include hconvert htrain hrows hids hcombine hmany

lemma plan_of_combine : Plan kind conv data info gs (partsOf info gs) := by
  obtain ⟨hgroups, hlarge⟩ := combinePartitions_spec hcombine hmany
  refine ⟨hconvert, htrain, rfl, isNumbering_partsOf hrows hgroups, fun group hgroup j hj => ?_,
    fun part hpart => ?_, ?_⟩
  · exact hgroups.mem_iff.mp (mem_flatten.mpr ⟨group, hgroup, hj⟩)
  · obtain ⟨group, hgroup, rfl⟩ := mem_map.mp hpart
    have := hlarge group hgroup
    rwa [length_flatten, listsOf, map_map]
  · -- the largest id is one less than the number of rows
    by_contra hmore
    have hlast : 2 ^ 32 ∈ info.flatten := hrows.mem_iff.mpr (by omega)
    obtain ⟨ids, hmem, hx⟩ := mem_flatten.mp hlast
    exact lt_irrefl _ (hids ids hmem _ hx)

end

def plainKind (baseRows : ℤ) (h : 0 < baseRows) : HnswKind ℕ ℕ := ⟨some id, baseRows, h,
    fun _ _ => none⟩

def consecutive (m c : ℕ) : List (List ℕ) := (range m).map fun i => range' (i * c) c

lemma flatten_consecutive (m c : ℕ) : (consecutive m c).flatten = range (m * c) := by
  induction m with
  | zero => simp [consecutive]
  | succ m ih =>
    rw [consecutive, range_succ, map_append, flatten_append]
    show (consecutive m c).flatten ++ _ = _
    rw [ih, range_eq_range', range_eq_range', Nat.succ_mul, ← range'_append_1]
    simp

lemma combinePartitions_consecutive :
    combinePartitions StdSort.insertion (consecutive 4 (2 ^ 30)) 128 = some [[0], [1], [2],
      [3]] := by
  have hsizes : (consecutive 4 (2 ^ 30)).map (fun idList => wrapInt 32 idList.length)
      = [2 ^ 30, 2 ^ 30, 2 ^ 30, 2 ^ 30] := by
    have hwrap : wrapInt 32 ((2 ^ 30 : ℕ) : ℤ) = 2 ^ 30 := by decide
    simp only [consecutive, map_map, Function.comp_def, length_range', hwrap]
    rfl
  rw [combinePartitions, hsizes]
  decide

lemma length_of_mem_partsOf_consecutive {part : List ℕ}
    (h : part ∈ partsOf (consecutive m c) ((range m).map fun i => [i])) : part.length = c := by
  obtain ⟨group, hgroup, rfl⟩ := mem_map.mp h
  obtain ⟨i, hi, rfl⟩ := mem_map.mp hgroup
  have hget : (consecutive m c).getD i [] = range' (i * c) c := by
    rw [consecutive, List.getD_eq_getElem?_getD, getElem?_range_map (mem_range.mp hi),
      Option.getD_some]
  rw [listsOf, map_singleton, hget, flatten_singleton, length_range']

end

end Rvanns.Knowhere
