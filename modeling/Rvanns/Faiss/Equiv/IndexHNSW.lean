import Rvanns.Faiss.Equiv.Layout.Gorder
import Rvanns.Faiss.Equiv.Layout.RabbitOrder
import Rvanns.Faiss.IndexHNSW

/-!
# The layout pass relabels the index

Every layout computes a numbering, `permute_entries` moves the graph and the payload along it, and
sorting the level-0 lists, which `rorder` does afterwards, keeps the edges of every node.
-/

namespace Rvanns.Faiss

open Cpp List

/-! ### Sorting the level-0 lists -/

namespace HNSW

variable {h : HNSW} {rows : List (List ℤ)} (S : StdSort ℕ)

lemma length_validIds_le (slots : List ℤ) : (validIds slots).length ≤ slots.length := by
  rw [validIds, length_map]
  exact (takeWhile_sublist _).length_le

private lemma sort_validIds_perm (slots : List ℤ) :
    (S.run (· < ·) (validIds slots)).Perm (validIds slots) :=
  S.perm strictWeak_lt _

lemma length_sortedSlots (slots : List ℤ) : (sortedSlots S slots).length = slots.length := by
  have hle := length_validIds_le slots
  have hsort := (sort_validIds_perm S slots).length_eq
  simp only [sortedSlots, length_append, length_map, length_replicate, hsort]
  omega

lemma validIds_sortedSlots (slots : List ℤ) :
    (validIds (sortedSlots S slots)).Perm (validIds slots) := by
  have hids : validIds (sortedSlots S slots) = S.run (· < ·) (validIds slots) := by
    rw [sortedSlots]
    nth_rewrite 1 [validIds]
    simp [Function.comp_def]
  rw [hids]
  exact sort_validIds_perm S slots

lemma sortedSlots_lt {slots : List ℤ} {n : ℕ} (hlt : ∀ v ∈ slots, v < n) {v : ℤ}
    (hv : v ∈ sortedSlots S slots) : v < n := by
  rcases mem_append.mp hv with hv | hv
  · obtain ⟨u, hu, rfl⟩ := mem_map.mp hv
    exact Int.ofNat_lt.mpr (lt_of_mem_validIds hlt ((sort_validIds_perm S slots).mem_iff.mp hu))
  · rw [eq_of_mem_replicate hv]
    omega

def sortBlock (h : HNSW) (block : List ℤ) : List ℤ :=
  block.take (h.cumNneighborPerLevel.getD 0 0) ++ sortedSlots S (h.levelSlots 0 block)
    ++ block.drop (h.cumNneighborPerLevel.getD 1 0)

def sortedLists (h : HNSW) (rows : List (List ℤ)) : HNSW :=
  { h with neighbors := (rows.map (h.sortBlock S)).flatten }

lemma levels_sortedLists : (h.sortedLists S rows).levels = h.levels := rfl

private def HasBase (h : HNSW) (block : List ℤ) : Prop :=
  h.cumNneighborPerLevel.getD 0 0 ≤ h.cumNneighborPerLevel.getD 1 0
    ∧ h.cumNneighborPerLevel.getD 1 0 ≤ block.length

private lemma HasBase.length_levelSlots (hbase : h.HasBase block) :
    (h.levelSlots 0 block).length
      = h.cumNneighborPerLevel.getD 1 0 - h.cumNneighborPerLevel.getD 0 0 := by
  have := hbase.2
  simp only [levelSlots, length_take, length_drop, zero_add]
  omega

private lemma HasBase.length_sortBlock (hbase : h.HasBase block) :
    (h.sortBlock S block).length = block.length := by
  have := hbase.1
  have := hbase.2
  simp only [sortBlock, length_append, length_sortedSlots, hbase.length_levelSlots,
    length_take, length_drop]
  omega

private lemma HasBase.levelSlots_zero (hbase : h.HasBase block) :
    h.levelSlots 0 (h.sortBlock S block) = sortedSlots S (h.levelSlots 0 block) := by
  have hlen : (block.take (h.cumNneighborPerLevel.getD 0 0)).length
      = h.cumNneighborPerLevel.getD 0 0 := by
    rw [length_take]
    have := hbase.1
    have := hbase.2
    omega
  have hslots := length_sortedSlots S (h.levelSlots 0 block)
  rw [hbase.length_levelSlots] at hslots
  rw [levelSlots, sortBlock, append_assoc, drop_append_of_le_length hlen.ge, drop_of_length_le
    hlen.le, nil_append, take_append_of_le_length hslots.ge, take_of_length_le hslots.le]

private lemma HasBase.levelSlots_of_pos (hbase : h.HasBase block)
    (hcum : h.cumNneighborPerLevel.getD 1 0 ≤ h.cumNneighborPerLevel.getD level 0) :
    h.levelSlots level (h.sortBlock S block) = h.levelSlots level block := by
  have hlen : (block.take (h.cumNneighborPerLevel.getD 0 0)
      ++ sortedSlots S (h.levelSlots 0 block)).length = h.cumNneighborPerLevel.getD 1 0 := by
    have := hbase.1
    have := hbase.2
    simp only [length_append, length_sortedSlots, hbase.length_levelSlots, length_take]
    omega
  obtain ⟨d, hd⟩ := Nat.exists_eq_add_of_le hcum
  have hdrop : (h.sortBlock S block).drop (h.cumNneighborPerLevel.getD level 0)
      = block.drop (h.cumNneighborPerLevel.getD level 0) := by
    rw [sortBlock, hd, ← drop_drop, ← hlen, drop_left, drop_drop]
  rw [levelSlots, levelSlots, hdrop]

lemma WellFormed.one_lt_length_cum (hw : h.WellFormed) : 1 < h.cumNneighborPerLevel.length := by
  have hpos : 0 < h.levels.length := by
    have := hw.entry_nonneg
    have := hw.entry_lt
    omega
  have := hw.level_pos hpos
  have := hw.level_lt hpos
  omega

private lemma HasBlocks.hasBase (hw : h.WellFormed) (hb : h.HasBlocks rows)
    (hi : i < h.levels.length) : h.HasBase (rows.getD i []) :=
  ⟨hw.cum_le (Nat.zero_le 1) hw.one_lt_length_cum, hb.cum_le_length hw hi (hw.level_pos hi)⟩

private lemma HasBlocks.hasBase_of_mem (hw : h.WellFormed) (hb : h.HasBlocks rows)
    (hblock : block ∈ rows) : h.HasBase block := by
  obtain ⟨i, hi, rfl⟩ := getElem_of_mem hblock
  have hbase := hb.hasBase hw (hb.length_eq ▸ hi)
  rwa [getD_eq_getElem _ _ hi] at hbase

private def SortedUpTo (h : HNSW) (rows : List (List ℤ)) (i : ℕ) (neighbors : List ℤ) : Prop :=
  ∃ rows' : List (List ℤ), neighbors = rows'.flatten
    ∧ rows'.map List.length = rows.map List.length
    ∧ ∀ j : ℕ, rows'[j]? = if j < i then rows[j]?.map (h.sortBlock S) else rows[j]?

variable (hw : h.WellFormed) (hb : h.HasBlocks rows)

include hw hb

private lemma SortedUpTo.turn {i : ℕ}
    (hi : i < h.levels.length) {neighbors : List ℤ} (hinv : SortedUpTo S h rows i neighbors) :
    Returns (do
      let range ← h.neighborRange i 0
      let slots ← readRange neighbors range.1 range.2
      writeRange neighbors range.1 (sortedSlots S slots)) (SortedUpTo S h rows (i + 1)) := by
  obtain ⟨rows', rfl, hlens, hrows⟩ := hinv
  have hbase := hb.hasBase hw hi
  have hrow : rows'[i]? = some (rows.getD i []) := by
    rw [hrows, if_neg (by omega), hb.getElem?_eq hi]
  have hend := rowOffset_add_le hrow
  have hcum := hbase.1
  have hlen := hbase.2
  have hslots := hbase.length_levelSlots
  have hread : readRange rows'.flatten (rowOffset rows' i + h.cumNneighborPerLevel.getD 0 0)
      (rowOffset rows' i + h.cumNneighborPerLevel.getD 1 0)
      = some (h.levelSlots 0 (rows.getD i [])) := by
    rw [readRange_of_le (by omega), Nat.add_sub_add_left,
      take_drop_rowOffset_add hrow (by omega), levelSlots]
  have hfit : h.cumNneighborPerLevel.getD 0 0
      + (sortedSlots S (h.levelSlots 0 (rows.getD i []))).length
      = h.cumNneighborPerLevel.getD 1 0 := by
    rw [length_sortedSlots]
    omega
  rw [hb.neighborRange_eq hw hi (hw.level_pos hi), rowOffset_congr hlens.symm]
  simp only [some_bind, zero_add, hread]
  rw [writeRange_rowOffset_add hrow (by omega), hfit]
  change Returns (some (rows'.set i (h.sortBlock S (rows.getD i []))).flatten) _
  have hi' : i < rows'.length := lt_length hrow
  refine .pure ⟨_, rfl, ?_, fun j => ?_⟩
  · -- a block keeps its length
    rw [map_set, hbase.length_sortBlock, ← hlens]
    have hget : (rows'.map List.length)[i]? = some (rows.getD i []).length := by
      rw [getElem?_map, hrow, Option.map_some]
    obtain ⟨hlt, heq⟩ := List.getElem?_eq_some_iff.mp hget
    rw [← heq, set_getElem_self]
  · rw [getElem?_set_of_lt hi', hrows]
    by_cases hij : i = j
    · subst hij
      rw [if_pos rfl, if_pos (by omega), hb.getElem?_eq hi, Option.map_some]
    · rw [if_neg hij]
      by_cases hlt : j < i
      · rw [if_pos hlt, if_pos (by omega)]
      · rw [if_neg hlt, if_neg (by omega)]

lemma HasBlocks.optimizeNeighborsById_eq :
    h.optimizeNeighborsById S h.levels.length = some (h.sortedLists S rows) := by
  have hstart : SortedUpTo S h rows 0 h.neighbors := ⟨rows, hb.neighbors, rfl, by simp⟩
  obtain ⟨neighbors, hrun, rows', rfl, -, hrows⟩ := Returns.foldlM_range h.levels.length
    (fun i hi neighbors hinv => SortedUpTo.turn S hw hb hi hinv) hstart
  have hall : rows' = rows.map (h.sortBlock S) := by
    apply ext_getElem?
    intro j
    rw [hrows, getElem?_map]
    split
    · rfl
    · rw [getElem?_eq_none (by rw [hb.length_eq]; omega), Option.map_none]
  rw [optimizeNeighborsById, hrun, hall]
  rfl

lemma HasBlocks.sortedLists : (h.sortedLists S rows).HasBlocks (rows.map (h.sortBlock S)) := by
  have hlens : (rows.map (h.sortBlock S)).map List.length = rows.map List.length := by
    rw [map_map]
    apply map_congr_left
    intro block hblock
    exact (hb.hasBase_of_mem hw hblock).length_sortBlock S
  refine ⟨?_, rfl, hlens.trans hb.lengths⟩
  rw [rowOffsets_congr hlens]
  exact hb.offsets

lemma HasBlocks.wellFormed_sortedLists : (h.sortedLists S rows).WellFormed := by
  have hbs := hb.sortedLists S hw
  refine ⟨hw.cum_sorted, hw.levels_pos, hw.levels_lt,
    ⟨_, hbs.offsets, hbs.neighbors, hbs.lengths⟩, ?_, hw.entry_nonneg, hw.entry_lt⟩
  intro v hv
  obtain ⟨block', hblock', hv⟩ := mem_flatten.mp hv
  obtain ⟨block, hblock, rfl⟩ := mem_map.mp hblock'
  have hold : ∀ w ∈ block, w < h.levels.length := fun w hwb =>
    hw.ids_lt w (hb.neighbors ▸ mem_flatten.mpr ⟨block, hblock, hwb⟩)
  rcases mem_append.mp hv with hv | hv
  · rcases mem_append.mp hv with hv | hv
    · exact hold v (mem_of_mem_take hv)
    · exact sortedSlots_lt S (fun w hws => hold w (levelSlots_subset h 0 block hws)) hv
  · exact hold v (mem_of_mem_drop hv)

lemma HasBlocks.nodeEdges_sortedLists (hi : i < h.levels.length) (level : ℕ) :
    ((h.sortedLists S rows).nodeEdges level i).Perm (h.nodeEdges level i) := by
  have hws := hb.wellFormed_sortedLists S hw
  have hbs := hb.sortedLists S hw
  have hbase := hb.hasBase hw hi
  unfold nodeEdges
  rw [levels_sortedLists]
  by_cases hlevel : level < h.levels.getD i 0
  · have hblock : (rows.map (h.sortBlock S)).getD i [] = h.sortBlock S (rows.getD i []) := by
      rw [getD_eq_getElem?_getD, getElem?_map, hb.getElem?_eq hi, Option.map_some, Option.getD_some]
    rw [if_pos hlevel, if_pos hlevel, hbs.neighborIds_eq hws hi hlevel,
      hb.neighborIds_eq hw hi hlevel, Option.getD_some, Option.getD_some, hblock]
    apply List.Perm.map
    change (validIds (h.levelSlots level (h.sortBlock S (rows.getD i [])))).Perm _
    rcases Nat.eq_zero_or_pos level with rfl | hpos
    · rw [hbase.levelSlots_zero]
      exact validIds_sortedSlots S _
    · have hcum := hw.cum_le hpos (lt_of_lt_of_le hlevel (hw.level_lt hi).le)
      rw [hbase.levelSlots_of_pos S hcum]
  · rw [if_neg hlevel, if_neg hlevel]

lemma HasBlocks.edges_sortedLists (level : ℕ) :
    ((h.sortedLists S rows).edges level).Perm (h.edges level) :=
  List.Perm.flatMap_left _ fun _ hi => hb.nodeEdges_sortedLists S hw (mem_range.mp hi) level

end HNSW

/-! ### The permutation -/

lemma generatePermutation_isNumbering (S : StdSort ℕ) (F : Type) [LinearOrder F] [Zero F] [One F]
    [Add F] [Sub F] [Mul F] [Div F] [NatCast F] (hw : h.WellFormed) (m : LayoutMethod) :
    Returns (generatePermutation S F h h.levels.length 0 m) (IsNumbering · h.levels.length) := by
  cases m with
  | rorder => exact generateGorderPermutation_isNumbering S hw
  | gorder => exact generateGorderPermutation_isNumbering S hw
  | rcm => exact generateRCMPermutation_isNumbering S hw
  | rabbitorder => exact generateRabbitOrderPermutation_isNumbering S hw F
  | bfs => exact generateBFSPermutation_isNumbering hw

/-! ### Moving the payload -/

variable {V : Type} {n : ℕ} {perm : List ℕ}

lemma reorderNodeMetadata_spec (hp : IsNumbering perm n) (hv : values = [] ∨ values.length = n) :
    Returns (reorderNodeMetadata n perm values) fun new =>
      (new = [] ∨ new.length = n) ∧ ∀ i < n, new[i]? = values[perm.getD i 0]? := by
  unfold reorderNodeMetadata
  by_cases hlen : values.length = n
  · rw [if_neg (by simpa using hlen)]
    have hread : ∀ i < n, (do let o ← perm[i]?; values[o]?) = values[perm.getD i 0]? := by
      intro i hi
      rw [hp.getElem?_eq hi]
      rfl
    have hfill := Returns.mapM_range (f := fun i => do let o ← perm[i]?; values[o]?) n
      fun i hi => ⟨_, (hread i hi).trans (getElem?_eq_getElem (hlen.symm ▸ hp.getD_lt hi))⟩
    refine hfill.mono fun new hnew => ⟨.inr hnew.1, fun i hi => ?_⟩
    exact (hnew.2 i hi).trans (hread i hi)
  · rw [if_pos hlen]
    have hnil := hv.resolve_right hlen
    exact .pure ⟨hv, fun i _ => by simp [hnil]⟩

namespace IndexFlatCodes

variable {st : IndexFlatCodes V}

lemma Stores.codeRow_eq (hs : st.Stores n) (hi : i < n) :
    ∃ row, st.codeRow i = some row ∧ row.length = st.codeSize := by
  have hend : i * st.codeSize + st.codeSize ≤ st.codes.length := by
    rw [hs.codes, ← Nat.succ_mul]
    exact Nat.mul_le_mul_right _ hi
  refine ⟨_, readRange_of_le hend, ?_⟩
  rw [length_take, length_drop]
  omega

lemma Stores.permuteEntries_spec (hs : st.Stores n) (hp : IsNumbering perm n) :
    Returns (st.permuteEntries perm) fun new =>
      new.Stores n ∧ new.codeNorms = st.codeNorms ∧ new.inverseL2Norms = st.inverseL2Norms
        ∧ ∀ i < n, new.codeRow i = st.codeRow (perm.getD i 0) := by
  have hread : ∀ i < n, (do let o ← perm[i]?; st.codeRow o) = st.codeRow (perm.getD i 0) := by
    intro i hi
    rw [hp.getElem?_eq hi]
    rfl
  have hfill := Returns.mapM_range (f := fun i => do let o ← perm[i]?; st.codeRow o) n
    fun i hi => by
      obtain ⟨row, hrow, -⟩ := hs.codeRow_eq (hp.getD_lt hi)
      exact ⟨row, (hread i hi).trans hrow⟩
  unfold permuteEntries
  rw [hs.ntotal]
  refine hfill.bind fun rows hrows => ?_
  have hget : ∀ i < n, rows[i]? = st.codeRow (perm.getD i 0) := fun i hi =>
    (hrows.2 i hi).trans (hread i hi)
  have hwidth : ∀ r ∈ rows, r.length = st.codeSize := by
    intro r hr
    obtain ⟨i, hi, rfl⟩ := getElem_of_mem hr
    obtain ⟨row, hrow, hlen⟩ := hs.codeRow_eq (hp.getD_lt (hrows.1 ▸ hi))
    have heq := (hget i (hrows.1 ▸ hi)).trans hrow
    rw [getElem?_eq_getElem hi] at heq
    exact (Option.some.inj heq) ▸ hlen
  have htotal : rows.flatten.length = st.codes.length := by
    rw [hs.codes, ← hrows.1, ← rowOffset_of_length hwidth le_rfl, rowOffset, take_length,
      length_flatten]
  rw [if_pos htotal.le]
  refine .pure ⟨⟨rfl, ?_, hs.codeNorms, hs.inverseNorms⟩, rfl, rfl, fun i hi => ?_⟩
  · simpa [htotal] using hs.codes
  · -- row `i` of the new array is the `i`-th row read
    obtain ⟨row, hrow, hlen⟩ := hs.codeRow_eq (hp.getD_lt hi)
    have hi' : rows[i]? = some row := (hget i hi).trans hrow
    have hend := rowOffset_add_le hi'
    rw [rowOffset_of_length hwidth (hrows.1 ▸ hi.le), hlen] at hend
    have hcut := take_drop_rowOffset hi'
    rw [rowOffset_of_length hwidth (hrows.1 ▸ hi.le), hlen] at hcut
    rw [hrow, codeRow, htotal, Nat.sub_self, replicate_zero, append_nil,
      readRange_of_le hend, Nat.add_sub_cancel_left, hcut]

end IndexFlatCodes

/-! ### Moving graph and payload -/

lemma HNSW.getElem?_renumbered_levels {h : HNSW} (rows : List (List ℤ))
    (hp : IsNumbering perm h.levels.length) (hi : i < h.levels.length) :
    (h.renumbered rows perm).levels[i]? = h.levels[perm.getD i 0]? := by
  rw [HNSW.renumbered, getElem?_map, hp.getElem?_eq hi, Option.map_some,
    getElem?_eq_getD (hp.getD_lt hi)]

lemma reorderInverseNorms_spec (hp : IsNumbering perm n) {norms : Option (List V)}
    (hn : ∀ values ∈ norms, values = [] ∨ values.length = n) :
    Returns (norms.mapM (reorderNodeMetadata n perm)) fun new =>
      (∀ values ∈ new, values = [] ∨ values.length = n)
        ∧ ∀ i < n, new.bind (·[i]?) = norms.bind (·[perm.getD i 0]?) := by
  cases norms with
  | none => exact .pure ⟨by simp, fun _ _ => rfl⟩
  | some values =>
    obtain ⟨new, hnew, hlen, hget⟩ := reorderNodeMetadata_spec hp (hn values rfl)
    refine .of_eq (a := some new) ?_ ⟨by simpa using hlen, hget⟩
    rw [Option.mapM_some, hnew]
    rfl

variable {idx : IndexHNSW V}

lemma IndexHNSW.Built.permuteEntries_spec (hb : idx.Built) (hp : IsNumbering perm idx.ntotal) :
    ∃ new, idx.permuteEntries perm = .ok new ∧ new.Built ∧ IsRelabelling idx new perm := by
  obtain ⟨st, hst, hs⟩ := hb.storage
  obtain ⟨rows, hrows⟩ := hb.graph.hasBlocks
  have hpl := hb.nodes ▸ hp
  obtain ⟨norms, hnorms, hnlen, hnget⟩ := reorderNodeMetadata_spec hp hs.codeNorms
  have hs' : ({ st with codeNorms := norms } : IndexFlatCodes V).Stores idx.ntotal :=
    ⟨hs.ntotal, hs.codes, hnlen, hs.inverseNorms⟩
  obtain ⟨st₁, hst₁, hs₁, hcn, hin, hcode⟩ := hs'.permuteEntries_spec hp
  obtain ⟨inv, hinv, hilen, higet⟩ := reorderInverseNorms_spec hp hs₁.inverseNorms
  have hgraph := hrows.permuteEntries_eq hb.graph hpl
  have hrun : idx.permuteFlat st perm = some { idx with
        hnsw := idx.hnsw.renumbered rows perm
        storage := some { st₁ with inverseL2Norms := inv } } := by
    simp only [permuteFlat, hnorms, hst₁, hgraph, hinv, some_bind]
    rfl
  refine ⟨_, by simp only [permuteEntries, hst, hrun]; rfl, ?_, ?_⟩
  · exact ⟨hrows.wellFormed_renumbered hb.graph hpl,
      (HNSW.length_renumbered_levels hpl).trans hb.nodes,
      _, rfl, ⟨hs₁.ntotal, hs₁.codes, hs₁.codeNorms, hilen⟩⟩
  · refine ⟨hp, rfl, hrows.edges_renumbered hb.graph hpl, fun i hi => ?_, rfl⟩
    have hlevel := HNSW.getElem?_renumbered_levels rows hpl (hb.nodes.symm ▸ hi)
    simp only [payload, hst, Option.bind_some, hlevel, Payload.mk.injEq, true_and]
    refine ⟨hcode i hi, ?_, ?_⟩
    · rw [hcn]
      exact hnget i hi
    · rw [IndexFlatCodes.inverseNorm, higet i hi, hin]
      rfl

lemma IsRelabelling.optimizeNeighborsById (S : StdSort ℕ) (hn : new.Built)
    (hr : IsRelabelling idx new perm) :
    ∃ hnsw, new.hnsw.optimizeNeighborsById S new.ntotal = some hnsw
      ∧ ({ new with hnsw := hnsw } : IndexHNSW V).Built
      ∧ IsRelabelling idx { new with hnsw := hnsw } perm := by
  obtain ⟨rows, hrows⟩ := hn.graph.hasBlocks
  refine ⟨new.hnsw.sortedLists S rows, ?_, ?_, ?_⟩
  · rw [← hn.nodes]
    exact hrows.optimizeNeighborsById_eq S hn.graph
  · exact ⟨hrows.wellFormed_sortedLists S hn.graph, hn.nodes, hn.storage⟩
  · refine ⟨hr.numbering, hr.ntotal, fun level => ?_, hr.payload, hr.entryPoint⟩
    exact ((hrows.edges_sortedLists S hn.graph level).map _).trans (hr.edges level)

/-! ### The layout pass -/

section Reorder

variable (S : StdSort ℕ) (F : Type)
  [LinearOrder F] [Zero F] [One F] [Add F] [Sub F] [Mul F] [Div F] [NatCast F]

lemma IsRelabelling.mark (hr : IsRelabelling idx new perm) (p : List ℕ) :
    IsRelabelling idx { new with reorderPerm := p } perm :=
  ⟨hr.numbering, hr.ntotal, hr.edges, hr.payload, hr.entryPoint⟩

lemma IndexHNSW.Built.mark (hb : idx.Built) (p : List ℕ) :
    ({ idx with reorderPerm := p } : IndexHNSW V).Built :=
  ⟨hb.graph, hb.nodes, hb.storage⟩

lemma IndexHNSW.Built.applyLayout_spec (hb : idx.Built) (m : LayoutMethod) :
    ∃ new, applyLayout S F idx 0 m = .ok new ∧ new.Built
      ∧ IsRelabelling idx new new.reorderPerm := by
  obtain ⟨perm, hgen, hp⟩ := generatePermutation_isNumbering S F hb.graph m
  rw [hb.nodes] at hgen hp
  obtain ⟨moved, hmoved, hbm, hrm⟩ := hb.permuteEntries_spec hp
  have hbk := hbm.mark perm
  have hrk := hrm.mark perm
  unfold applyLayout
  rw [hgen, defined_bind_some, hmoved]
  cases m with
  | rorder =>
    obtain ⟨hnsw, hopt, hbo, hro⟩ := hrk.optimizeNeighborsById S hbk
    refine ⟨{ moved with reorderPerm := perm, hnsw := hnsw }, ?_, hbo, hro⟩
    change (defined _ >>= _) = _
    rw [hopt]
    rfl
  | gorder => exact ⟨_, rfl, hbk, hrk⟩
  | rcm => exact ⟨_, rfl, hbk, hrk⟩
  | rabbitorder => exact ⟨_, rfl, hbk, hrk⟩
  | bfs => exact ⟨_, rfl, hbk, hrk⟩

lemma selectMethod_eq (hm : methodEquals method m.name) : selectMethod method = some m := by
  cases method with
  | none => cases hm
  | some s =>
    have hs : s.toList.map Char.toLower = m.name.toList.map Char.toLower := by
      simpa [methodEquals] using hm
    simp only [selectMethod, methodEquals, hs]
    cases m <;> decide

lemma reorderGraphAfterBuild_cases (h : reorderGraphAfterBuild S F idx 0 method freeze = .ok new) :
    idx.reorderPerm = [] ∧ ((idx.ntotal = 0 ∨ idx.hnsw.entryPoint = -1) ∧ new = idx
      ∨ idx.ntotal ≠ 0 ∧ ∃ m, applyLayout S F idx 0 m = .ok new) := by
  unfold reorderGraphAfterBuild at h
  split_ifs at h with hperm hempty hlevel
  · exact ⟨not_not.mp hperm, .inl ⟨hempty, (Except.ok.inj h).symm⟩⟩
  · refine ⟨not_not.mp hperm, .inr ⟨fun h0 => hempty (.inl h0), ?_⟩⟩
    cases hm : selectMethod method with
    | none => simp [hm] at h
    | some m => exact ⟨m, by simpa [hm] using h⟩

/-- **The layout pass relabels the index exactly**: whatever layout is asked for, the pass comes to
an end, the permutation it keeps numbers the nodes, and graph, payload and entry point are the old
ones under it. -/
theorem reorderGraphAfterBuild_isRelabelling (hb : idx.Built) (hfresh : idx.reorderPerm = [])
    {method : Option String} {m : LayoutMethod} (hm : methodEquals method m.name) (freeze : Bool) :
    ∃ new, reorderGraphAfterBuild S F idx 0 method freeze = .ok new ∧ new.Built
      ∧ IsRelabelling idx new new.reorderPerm := by
  have hne : ¬ (idx.ntotal = 0 ∨ idx.hnsw.entryPoint = -1) := by
    have h0 := hb.graph.entry_nonneg
    have hlt := hb.graph.entry_lt
    rw [hb.nodes] at hlt
    omega
  obtain ⟨new, hnew, hspec⟩ := hb.applyLayout_spec S F m
  refine ⟨new, ?_, hspec⟩
  rw [reorderGraphAfterBuild, if_neg (by simpa using hfresh), if_neg hne, selectMethod_eq hm]
  exact hnew

end Reorder

def threeNodes : IndexHNSW ℚ where
  ntotal := 3
  hnsw := ⟨[0, 2, 3], [1, 2, 1], [0, 2, 5, 7], [1, -1, 0, 2, -1, 1, 0], 1⟩
  storage := some ⟨3, 2, [10, 11, 20, 21, 30, 31], [], some [1, 1 / 2, 1 / 3]⟩
  reorderPerm := []

lemma threeNodes_built : threeNodes.Built where
  graph :=
    { cum_sorted := by decide
      levels_pos := by decide
      levels_lt := by decide
      blocks := ⟨[[1, -1], [0, 2, -1], [1, 0]], by decide, by decide, by decide⟩
      ids_lt := by decide
      entry_nonneg := by decide
      entry_lt := by decide }
  nodes := rfl
  storage := ⟨_, rfl, rfl, rfl, .inl rfl, by simp [threeNodes]⟩

theorem reorderGraphAfterBuild_threeNodes :
    methodEquals (some "ROrder") LayoutMethod.rorder.name = true ∧ ∃ new,
      reorderGraphAfterBuild StdSort.insertion ℚ threeNodes 0 (some "ROrder") true = .ok new
        ∧ new.Built ∧ IsRelabelling threeNodes new new.reorderPerm :=
  ⟨by decide, reorderGraphAfterBuild_isRelabelling StdSort.insertion ℚ threeNodes_built rfl
    (m := .rorder) (by decide) true⟩

end Rvanns.Faiss
