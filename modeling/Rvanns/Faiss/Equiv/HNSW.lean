import Rvanns.Cpp.Numbering
import Rvanns.Faiss.HNSW

/-!
# Renumbering an HNSW graph is exact

`permuteEntries` copies the block of old node `map[i]` to node `i` and sends every id through the
inverse of `map`.
-/

namespace Rvanns.Faiss

open Cpp List

namespace HNSW

/-! ### The inverse map -/

lemma inverseMap_eq {map : List ℕ} (hp : IsNumbering map n) :
    inverseMap map n = some ((range n).map map.idxOf) := by
  have hloop : ∀ i ≤ n, (range i).foldlM (fun imap i => do
        let o ← map[i]?
        wr imap o i)
      (replicate n 0) = some (scattered map n id 0 i) := by
    intro i
    induction i with
    | zero =>
      intro _
      rw [scattered_zero]
      rfl
    | succ i ih =>
      intro hi
      have hlt : map.getD i 0 < (scattered map n id 0 i).length := by simpa using hp.getD_lt hi
      rw [range_succ, foldlM_append, ih (by omega)]
      simp only [some_bind, foldlM_cons, foldlM_nil,
        hp.getElem?_eq hi, wr_of_lt hlt]
      rw [← hp.scattered_succ hi]
      rfl
  rw [inverseMap, hloop n le_rfl, hp.scattered_self]
  rfl

/-! ### Blocks of a well-formed graph -/

def newId (map : List ℕ) (v : ℤ) : ℤ := if 0 ≤ v then (map.idxOf v.toNat : ℤ) else v

lemma renumber_eq {map : List ℕ} {n : ℕ} {v : ℤ} (hv : v < n) :
    renumber ((range n).map map.idxOf) v = some (newId map v) := by
  unfold renumber newId
  split
  · have hlt : v.toNat < n := by omega
    simp [hlt]
  · rfl

lemma newId_nonneg_iff (map : List ℕ) (v : ℤ) : 0 ≤ newId map v ↔ 0 ≤ v := by
  unfold newId
  split <;> omega

lemma validIds_map_newId (map : List ℕ) (slots : List ℤ) :
    validIds (slots.map (newId map)) = (validIds slots).map map.idxOf := by
  unfold validIds
  rw [takeWhile_map, map_map, map_map]
  have hcomp : ((fun v : ℤ => decide (0 ≤ v)) ∘ newId map) = fun v : ℤ => decide (0 ≤ v) := by
    funext v
    simp [newId_nonneg_iff]
  rw [hcomp]
  apply map_congr_left
  intro v hv
  have h0 : 0 ≤ v := by simpa using mem_takeWhile_imp hv
  simp [newId, h0]

lemma lt_of_mem_validIds {slots : List ℤ} {n : ℕ} (h : ∀ v ∈ slots, v < n) {u : ℕ}
    (hu : u ∈ validIds slots) : u < n := by
  obtain ⟨v, hv, rfl⟩ := mem_map.mp hu
  have h0 : 0 ≤ v := by simpa using mem_takeWhile_imp hv
  have hlt := h v ((takeWhile_sublist _).subset hv)
  omega

structure HasBlocks (h : HNSW) (rows : List (List ℤ)) : Prop where
  offsets : h.offsets = rowOffsets rows
  neighbors : h.neighbors = rows.flatten
  lengths : rows.map List.length = h.levels.map (h.cumNneighborPerLevel.getD · 0)

variable {h : HNSW} {rows : List (List ℤ)}

variable (hb : h.HasBlocks rows)

include hb in
lemma HasBlocks.length_eq : rows.length = h.levels.length := by
  simpa using congrArg length hb.lengths

variable {i : ℕ}

include hb in
lemma HasBlocks.getElem?_eq (hi : i < h.levels.length) : rows[i]? = some (rows.getD i []) :=
  getElem?_eq_getD (hb.length_eq.symm ▸ hi) []

include hb in
lemma HasBlocks.length_getD (hi : i < h.levels.length) :
    (rows.getD i []).length = h.cumNneighborPerLevel.getD (h.levels.getD i 0) 0 := by
  have hget := congrArg (·[i]?) hb.lengths
  simp only [getElem?_map, hb.getElem?_eq hi, Option.map_some,
    getElem?_eq_getElem hi, Option.some.injEq] at hget
  rw [hget, getD_eq_getElem _ _ hi]

def levelSlots (h : HNSW) (level : ℕ) (block : List ℤ) : List ℤ :=
  (block.drop (h.cumNneighborPerLevel.getD level 0)).take
    (h.cumNneighborPerLevel.getD (level + 1) 0 - h.cumNneighborPerLevel.getD level 0)

section

variable (hw : h.WellFormed)

include hw

lemma WellFormed.cum_le (hab : a ≤ b) (hb : b < h.cumNneighborPerLevel.length) :
    h.cumNneighborPerLevel.getD a 0 ≤ h.cumNneighborPerLevel.getD b 0 := by
  rw [getD_eq_getElem _ _ (by omega), getD_eq_getElem _ _ hb]
  rcases Nat.eq_or_lt_of_le hab with rfl | hlt
  · exact le_rfl
  · exact pairwise_iff_getElem.mp hw.cum_sorted a b (by omega) hb hlt

lemma WellFormed.hasBlocks : ∃ rows, h.HasBlocks rows := by
  obtain ⟨rows, ho, hn, hl⟩ := hw.blocks
  exact ⟨rows, ho, hn, hl⟩

lemma WellFormed.level_lt (hi : i < h.levels.length) :
    h.levels.getD i 0 < h.cumNneighborPerLevel.length := by
  rw [getD_eq_getElem _ _ hi]
  exact hw.levels_lt _ (getElem_mem hi)

lemma WellFormed.level_pos (hi : i < h.levels.length) : 0 < h.levels.getD i 0 := by
  rw [getD_eq_getElem _ _ hi]
  exact hw.levels_pos _ (getElem_mem hi)

end

variable {level : ℕ}

section

variable (hw : h.WellFormed) (hb : h.HasBlocks rows)
  (hi : i < h.levels.length) (hlevel : level < h.levels.getD i 0)

include hw hb hi hlevel

lemma HasBlocks.cum_le_length :
    h.cumNneighborPerLevel.getD (level + 1) 0 ≤ (rows.getD i []).length := by
  rw [hb.length_getD hi]
  exact hw.cum_le hlevel (hw.level_lt hi)

lemma HasBlocks.neighborRange_eq :
    h.neighborRange i level = some (rowOffset rows i + h.cumNneighborPerLevel.getD level 0,
      rowOffset rows i + h.cumNneighborPerLevel.getD (level + 1) 0) := by
  have hlt := hw.level_lt hi
  have hle : i ≤ rows.length := by rw [hb.length_eq]; exact hi.le
  have hcum : ∀ l ≤ level + 1,
      h.cumNneighborPerLevel[l]? = some (h.cumNneighborPerLevel.getD l 0) :=
    fun l hl => getElem?_eq_getD (by omega) 0
  simp only [neighborRange, hb.offsets, getElem?_rowOffsets hle, hcum level (by omega),
    hcum (level + 1) le_rfl, some_bind]
  rfl

lemma HasBlocks.neighborSlots_eq :
    h.neighborSlots i level = some (h.levelSlots level (rows.getD i [])) := by
  have hrow := hb.getElem?_eq hi
  have hcum := hb.cum_le_length hw hi hlevel
  have hmono := hw.cum_le (Nat.le_add_right level 1) (Nat.lt_of_le_of_lt hlevel (hw.level_lt hi))
  have hend := rowOffset_add_le hrow
  simp only [neighborSlots, hb.neighborRange_eq hw hi hlevel, some_bind]
  rw [hb.neighbors, readRange_of_le (by omega), Nat.add_sub_add_left,
    take_drop_rowOffset_add hrow (by omega), levelSlots]

lemma HasBlocks.neighborIds_eq :
    h.neighborIds i level = some (validIds (h.levelSlots level (rows.getD i []))) := by
  rw [neighborIds, hb.neighborSlots_eq hw hi hlevel, Option.map_some]

end

include hb in
lemma HasBlocks.mem_neighbors (hi : i < h.levels.length)
    (hv : v ∈ rows.getD i []) : v ∈ h.neighbors := by
  rw [hb.neighbors]
  exact mem_flatten.mpr ⟨_, mem_of_getElem? (hb.getElem?_eq hi), hv⟩

lemma levelSlots_subset (h : HNSW) (level : ℕ) (block : List ℤ) :
    h.levelSlots level block ⊆ block :=
  fun _ hv => mem_of_mem_drop (mem_of_mem_take hv)

/-- **Reading a neighbour list of a well-formed graph**: every level of every node can be read, and
what is found are nodes. -/
theorem WellFormed.neighborIds_spec (hw : h.WellFormed) (hi : i < h.levels.length)
    (hlevel : level < h.levels.getD i 0) :
    ∃ ids, h.neighborIds i level = some ids ∧ ∀ u ∈ ids, u < h.levels.length := by
  obtain ⟨rows, hb⟩ := hw.hasBlocks
  refine ⟨_, hb.neighborIds_eq hw hi hlevel, fun u hu => lt_of_mem_validIds (fun v hv => ?_) hu⟩
  exact hw.ids_lt v (hb.mem_neighbors hi (levelSlots_subset h level _ hv))

/-! ### What `permuteEntries` leaves -/

variable {map : List ℕ}

def newBlocks (rows : List (List ℤ)) (map : List ℕ) : List (List ℤ) :=
  map.map fun o => (rows.getD o []).map (newId map)

def renumbered (h : HNSW) (rows : List (List ℤ)) (map : List ℕ) : HNSW :=
  { h with
    levels := map.map (h.levels.getD · 0)
    offsets := rowOffsets (newBlocks rows map)
    neighbors := (newBlocks rows map).flatten
    entryPoint := map.idxOf h.entryPoint.toNat }

lemma HasBlocks.permutedBlock_eq (hw : h.WellFormed) (hb : h.HasBlocks rows)
    {o : ℕ} (ho : o < h.levels.length) :
    h.permutedBlock ((range h.levels.length).map map.idxOf) o
      = some ((rows.getD o []).map (newId map)) := by
  have hrow := hb.getElem?_eq ho
  have hlen := hb.length_eq
  have hblock : readRange rows.flatten (rowOffset rows o) (rowOffset rows (o + 1))
      = some (rows.getD o []) := by
    rw [readRange_of_le (rowOffset_le rows (o + 1)), rowOffset_succ hrow, Nat.add_sub_cancel_left,
      take_drop_rowOffset hrow]
  simp only [permutedBlock, hb.offsets, getElem?_rowOffsets (show o ≤ rows.length by omega),
    getElem?_rowOffsets (show o + 1 ≤ rows.length by omega), hb.neighbors, hblock,
    some_bind]
  exact mapM_eq_some_map fun v hv => renumber_eq (hw.ids_lt v (hb.mem_neighbors ho hv))

include hb in
lemma HasBlocks.map_length_newBlocks (hp : IsNumbering map h.levels.length) :
    (newBlocks rows map).map length
      = (map.map (h.levels.getD · 0)).map (h.cumNneighborPerLevel.getD · 0) := by
  rw [newBlocks, map_map, map_map]
  apply map_congr_left
  intro o ho
  simpa using hb.length_getD (hp.mem_iff.mp ho)

include hb in
lemma HasBlocks.length_flatten_newBlocks (hp : IsNumbering map h.levels.length) :
    (newBlocks rows map).flatten.length = h.neighbors.length := by
  have hmap : (range h.levels.length).map (fun o => (rows.getD o []).length) = rows.map length := by
    apply ext_getElem (by simp [hb.length_eq])
    intro i hi _
    have hi' : i < rows.length := by simpa [hb.length_eq] using hi
    simp [hi']
  rw [hb.neighbors, length_flatten, length_flatten, ← hmap, newBlocks, map_map]
  have hcomp : length ∘ (fun o => (rows.getD o []).map (newId map))
      = fun o => (rows.getD o []).length := by
    funext o
    simp
  rw [hcomp]
  exact (List.Perm.map _ hp).sum_nat

lemma HasBlocks.permuteEntries_eq (hw : h.WellFormed) (hb : h.HasBlocks rows)
    (hp : IsNumbering map h.levels.length) :
    h.permuteEntries map = some (h.renumbered rows map) := by
  have hentry : h.entryPoint.toNat < h.levels.length := by
    have := hw.entry_nonneg
    have := hw.entry_lt
    omega
  have hrd : rd ((range h.levels.length).map map.idxOf) h.entryPoint
      = some (map.idxOf h.entryPoint.toNat) := by
    simp [rd, hw.entry_nonneg, hentry]
  have holds : readRange map 0 h.levels.length = some map := by
    rw [readRange_of_le (by rw [hp.length]), drop_zero, Nat.sub_zero,
      take_of_length_le (by rw [hp.length])]
  have hlevels : map.mapM (h.levels[·]?) = some (map.map (h.levels.getD · 0)) := by
    apply mapM_eq_some_map
    intro o ho
    exact getElem?_eq_getD (hp.mem_iff.mp ho) 0
  have hblocks : map.mapM (h.permutedBlock ((range h.levels.length).map map.idxOf))
      = some (newBlocks rows map) :=
    mapM_eq_some_map fun o ho => hb.permutedBlock_eq hw (hp.mem_iff.mp ho)
  have hne : h.entryPoint ≠ -1 := by
    have := hw.entry_nonneg
    omega
  simp only [permuteEntries, inverseMap_eq hp, if_neg hne, hrd, holds, hlevels, hblocks,
    some_bind, Option.map_some, hb.length_flatten_newBlocks hp, le_refl,
    if_true, Nat.sub_self, replicate_zero, append_nil, renumbered]

include hb in
lemma HasBlocks.renumbered (hp : IsNumbering map h.levels.length) :
    (h.renumbered rows map).HasBlocks (newBlocks rows map) :=
  ⟨rfl, rfl, hb.map_length_newBlocks hp⟩

section

variable (hp : IsNumbering map h.levels.length)

include hp

lemma length_renumbered_levels : (h.renumbered rows map).levels.length = h.levels.length := by
  simp [HNSW.renumbered, hp.length]

lemma getD_renumbered_levels (hi : i < h.levels.length) :
    (h.renumbered rows map).levels.getD i 0 = h.levels.getD (map.getD i 0) 0 := by
  exact hp.getD_map hi _ 0

lemma getD_newBlocks (hi : i < h.levels.length) :
    (newBlocks rows map).getD i [] = (rows.getD (map.getD i 0) []).map (newId map) := by
  exact hp.getD_map hi _ []

end

lemma levelSlots_map (h : HNSW) (level : ℕ) (f : ℤ → ℤ) (block : List ℤ) :
    h.levelSlots level (block.map f) = (h.levelSlots level block).map f := by
  rw [levelSlots, levelSlots, ← map_drop, ← map_take]

section

variable (hw : h.WellFormed) (hb : h.HasBlocks rows) (hp : IsNumbering map h.levels.length)

include hw hb hp

lemma HasBlocks.wellFormed_renumbered : (h.renumbered rows map).WellFormed := by
  have hlen : (h.renumbered rows map).levels.length = h.levels.length := length_renumbered_levels hp
  have hentry : h.entryPoint.toNat < h.levels.length := by
    have := hw.entry_nonneg
    have := hw.entry_lt
    omega
  have hlevel : ∀ lv ∈ (h.renumbered rows map).levels, lv ∈ h.levels := by
    intro lv hlv
    obtain ⟨o, ho, rfl⟩ := mem_map.mp hlv
    have ho' := hp.mem_iff.mp ho
    rw [getD_eq_getElem _ _ ho']
    exact getElem_mem ho'
  refine ⟨hw.cum_sorted, fun lv hlv => hw.levels_pos lv (hlevel lv hlv),
    fun lv hlv => hw.levels_lt lv (hlevel lv hlv), ?_, ?_, ?_, ?_⟩
  · exact ⟨_, rfl, rfl, (hb.renumbered hp).lengths⟩
  · intro v hv
    obtain ⟨row, hrow, hv⟩ := mem_flatten.mp hv
    obtain ⟨o, ho, rfl⟩ := mem_map.mp hrow
    obtain ⟨w, hwrow, rfl⟩ := mem_map.mp hv
    have hw' := hw.ids_lt w (hb.mem_neighbors (hp.mem_iff.mp ho) hwrow)
    rw [newId]
    split
    · have := hp.idxOf_lt (o := w.toNat) (by omega)
      omega
    · omega
  · exact Int.natCast_nonneg _
  · rw [hlen]
    exact Int.ofNat_lt.mpr (hp.idxOf_lt hentry)

lemma HasBlocks.nodeEdges_renumbered (hi : i < h.levels.length) (level : ℕ) :
    ((h.renumbered rows map).nodeEdges level i).map (Prod.map (map.getD · 0) (map.getD · 0))
      = h.nodeEdges level (map.getD i 0) := by
  have hwn := hb.wellFormed_renumbered hw hp
  have hbn := hb.renumbered hp
  have hlevel : (h.renumbered rows map).levels.getD i 0 = h.levels.getD (map.getD i 0) 0 :=
    getD_renumbered_levels hp hi
  unfold nodeEdges
  split
  · next hlt =>
    rw [if_pos (hlevel ▸ hlt)]
    have hin : i < (h.renumbered rows map).levels.length := (length_renumbered_levels hp).symm ▸ hi
    have hold : map.getD i 0 < h.levels.length := hp.getD_lt hi
    -- the same slots of the two blocks, the new ones under `newId`
    have hslots : (h.renumbered rows map).levelSlots level ((newBlocks rows map).getD i [])
        = (h.levelSlots level (rows.getD (map.getD i 0) [])).map (newId map) := by
      rw [getD_newBlocks hp hi, ← levelSlots_map]
      rfl
    rw [hbn.neighborIds_eq hwn hin hlt, hb.neighborIds_eq hw hold (hlevel ▸ hlt), hslots,
      validIds_map_newId, Option.getD_some, map_map, map_map]
    apply map_congr_left
    intro v hv
    have hvn : v < h.levels.length := lt_of_mem_validIds
      (fun w hw' => hw.ids_lt w (hb.mem_neighbors hold (levelSlots_subset h level _ hw'))) hv
    simp only [Function.comp_apply, Prod.map_apply, hp.getD_idxOf hvn]
  · next hlt =>
    rw [if_neg (hlevel ▸ hlt), map_nil]

lemma HasBlocks.edges_renumbered (level : ℕ) :
    (((h.renumbered rows map).edges level).map (Prod.map (map.getD · 0) (map.getD · 0))).Perm
      (h.edges level) := by
  have hnodes : ((h.renumbered rows map).edges level).map (Prod.map (map.getD · 0) (map.getD · 0))
      = (range h.levels.length).flatMap fun i => h.nodeEdges level (map.getD i 0) := by
    rw [edges, length_renumbered_levels hp, map_flatMap]
    apply flatMap_congr
    intro i hi
    exact hb.nodeEdges_renumbered hw hp (mem_range.mp hi) level
  rw [hnodes]
  exact hp.flatMap_perm (h.nodeEdges level)

end

end HNSW

end Rvanns.Faiss
