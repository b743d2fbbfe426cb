import Rvanns.Faiss.Equiv.HnswDescent
import Rvanns.Faiss.Equiv.HnswLevelSearch

/-!
# What a search returns

A search of a well-formed graph ends, and its slots hold different nodes that pass the filter, in
the order of their true distances, and then `-1`s (`search_isAnswer`).
-/

namespace Rvanns.Faiss.HnswSearcher

open Cpp List NeighborSetDoublePopList

variable {D : Type} [LinearOrder D] {s : HnswSearcher D} {Q : StdPriorityQueue (Neighbor D)}
  {vis : List Bool} {near : Nearest D} {cap : ℕ+} {alpha : ℚ}
  {heap : Option (List (Neighbor D))} {st : LevelSearch D}

lemma ordered_new (cap : ℕ+) : (new D cap).Ordered where
  valid := ⟨Nat.zero_le _, .nil⟩
  cursor := ⟨le_rfl, by simp [new],
    by simp [new]⟩
  invalid := ⟨Nat.zero_le _, .nil⟩

def start (s : HnswSearcher D) (near : Nearest D) (cap : ℕ+) (vis : List Bool)
    (alpha : ℚ) (heap : Option (List (Neighbor D))) : LevelSearch D where
  visited := vis.set near.node true
  alpha := alpha
  candidates :=
    { retset := ((NeighborSetDoublePopList.new D cap).insert s.maxDist
        (s.neighbor near.node near.distance)).1
      disqualified := heap }

lemma searchFrom_eq (hlt : near.node < vis.length) :
    s.searchFrom Q near cap vis alpha heap
      = s.searchOnALevel Q 0 (s.start near cap vis alpha heap) := by
  unfold searchFrom
  rw [wr_of_lt hlt]
  rfl

lemma inv_new (s : HnswSearcher D) (vis : List Bool) (cap : ℕ+) :
    Candidates.Inv s vis { retset := new D cap } where
  ordered := ordered_new cap
  nodup := nodup_nil
  distance _ hn := absurd hn not_mem_nil
  marked _ hn := absurd hn not_mem_nil
  valid _ hn := absurd hn not_mem_nil
  invalid _ hn := absurd hn not_mem_nil
  unchecked _ hn := absurd hn not_mem_nil

lemma Candidates.Inv.withHeap {retset : NeighborSetDoublePopList D}
    (h : Candidates.Inv s vis { retset := retset }) (hheap : heap.getD [] = []) :
    Candidates.Inv s vis { retset := retset, disqualified := heap } := by
  have hpool : ({ retset := retset, disqualified := heap } : Candidates D).pool
      = ({ retset := retset } : Candidates D).pool := by
    unfold Candidates.pool
    rw [hheap]
    rfl
  refine ⟨h.ordered, ?_, ?_, ?_, h.valid, h.invalid, h.unchecked⟩
  · unfold Candidates.ids
    rw [hpool]
    exact h.nodup
  · rw [hpool]
    exact h.distance
  · rw [hpool]
    exact h.marked

lemma start_inv (cap : ℕ+) (alpha : ℚ) (heap : Option (List (Neighbor D)))
    (hn : near.Valid s) (hlen : vis.length = s.ntotal) (hheap : heap.getD [] = []) :
    (s.start near cap vis alpha heap).Inv s ∧
      (s.start near cap vis alpha heap).remaining < s.ntotal + 2 := by
  have hlt : near.node < vis.length := hlen ▸ hn.lt_ntotal
  have hadds := adds_addSearchCandidate (s := s) (Q := .sorting)
    (c := { retset := new D cap }) (ordered_new cap)
    (s.status_neighbor_ne near.node (s.qdis near.node))
  have hinv := (inv_new s (vis.set near.node true) cap).adds
    ((isMarked_set hlt).mpr (.inl rfl)) not_mem_nil hadds
  have hlen' : (vis.set near.node true).length = s.ntotal := by rw [length_set, hlen]
  unfold start
  rw [hn.distance_eq]
  refine ⟨⟨hlen', hinv.withHeap hheap⟩, ?_⟩
  have hpending := hadds.pending_le
  have hcount := count_le_length (a := false) (l := vis.set near.node true)
  rw [hlen'] at hcount
  exact Nat.lt_succ_of_le (add_comm s.ntotal 1 ▸ Nat.add_le_add hpending hcount)

omit [LinearOrder D] in
lemma read_level_zero (hw : s.hnsw.WellFormed) (hv : v < s.ntotal) :
    ∃ ids, s.hnsw.neighborIds v 0 = some ids ∧ ∀ u ∈ ids, u < s.ntotal :=
  hw.graph.neighborIds_spec hv (hw.graph.level_pos hv)

lemma returns_searchFrom (cap : ℕ+) (alpha : ℚ) (hw : s.hnsw.WellFormed)
    (hn : near.Valid s) (hlen : vis.length = s.ntotal) (hheap : heap.getD [] = []) :
    Returns (s.searchFrom Q near cap vis alpha heap) fun st =>
      st.Inv s ∧ st.candidates.retset.hasNext s.maxDist = false := by
  obtain ⟨hinv, hfuel⟩ := start_inv cap alpha heap hn hlen hheap
  rw [searchFrom_eq (hlen ▸ hn.lt_ntotal)]
  exact returns_searchOnALevel hinv (fun v hv => read_level_zero hw hv) hfuel

def IsAnswer (s : HnswSearcher D) (k : ℕ) (slots : List (D × ℤ)) : Prop :=
  ∃ found : List ℕ, found.length ≤ k ∧ found.Nodup ∧
    (∀ v ∈ found, v < s.ntotal ∧ s.isMember v = true) ∧
    found.Pairwise (fun u v => s.qdis u ≤ s.qdis v) ∧
    slots = found.map (fun v => (s.qdis v, (v : ℤ)))
      ++ List.replicate (k - found.length) (s.maxDist, -1)

def LevelSearch.listed (st : LevelSearch D) : List ℕ :=
  st.candidates.retset.validNs.data.map (·.id)

lemma LevelSearch.Inv.nodup_listed (h : st.Inv s) : st.listed.Nodup := by
  -- the first list is a part of the pool
  have hsub : st.candidates.retset.validNs.data.Sublist st.candidates.pool :=
    (sublist_append_left _ _).trans (sublist_append_left _ _)
  exact h.candidates.nodup.sublist (hsub.map _)

lemma LevelSearch.Inv.mem_listed (h : st.Inv s) (hv : v ∈ st.listed) :
    v < s.ntotal ∧ s.isMember v = true := by
  obtain ⟨n, hn, rfl⟩ := mem_map.mp hv
  have hpool : n ∈ st.candidates.pool := mem_append_left _ (mem_append_left _ hn)
  exact ⟨h.length_eq ▸ (h.candidates.marked n hpool).lt_length, h.candidates.valid n hn⟩

lemma LevelSearch.Inv.distance_listed (h : st.Inv s) :
    ∀ n ∈ st.candidates.retset.validNs.data, n.distance = s.qdis n.id := fun n hn =>
  h.candidates.distance n (mem_append_left _ (mem_append_left _ hn))

lemma LevelSearch.Inv.sorted_listed (h : st.Inv s) :
    st.listed.Pairwise (fun u v => s.qdis u ≤ s.qdis v) := by
  unfold LevelSearch.listed
  rw [pairwise_map]
  refine h.candidates.ordered.valid.pairwise.imp_of_mem fun {a b} ha hb hle => ?_
  rw [← h.distance_listed a ha, ← h.distance_listed b hb]
  exact hle

lemma populate_eq (k : ℕ) (h : st.Inv s) : s.populate k st.candidates.retset =
      (st.listed.take k).map (fun v => (s.qdis v, (v : ℤ)))
        ++ List.replicate (k - (st.listed.take k).length) (s.maxDist, -1) := by
  unfold populate LevelSearch.listed
  simp only [length_map, ← map_take, map_map]
  congr 1
  apply map_congr_left
  intro n hn
  simp [h.distance_listed n (mem_of_mem_take hn)]

lemma populate_isAnswer (k : ℕ) (h : st.Inv s) :
    s.IsAnswer k (s.populate k st.candidates.retset) := by
  refine ⟨st.listed.take k, length_take_le k _, h.nodup_listed.sublist (take_sublist k _),
    fun v hv => h.mem_listed (mem_of_mem_take hv), ?_, populate_eq k h⟩
  exact h.sorted_listed.sublist (take_sublist k _)

lemma search_eq_ok (hw : s.hnsw.WellFormed) (hbeam : s.hnsw.upperBeam = 1)
    (hnearest : s.descend = some near)
    (hst : s.searchFrom Q near (s.nCandidates k) vis 1 none = some st) (slots : List (D × ℤ)) :
    s.search Q k vis slots = .ok (s.populate k st.candidates.retset) := by
  have hentry : s.hnsw.entryPoint ≠ -1 := by
    have hnonneg := hw.graph.entry_nonneg
    omega
  unfold search
  rw [if_neg hentry, if_neg (not_not.mpr hbeam), hnearest, defined_bind_some, hst]
  rfl

/-- **The search returns the answer**, for every well-formed graph that is not empty. -/
theorem search_isAnswer (hw : s.hnsw.WellFormed) (hbeam : s.hnsw.upperBeam = 1)
    (hlen : vis.length = s.ntotal) (k : ℕ+) (slots : List (D × ℤ)) :
    ∃ result, s.search Q k vis slots = .ok result ∧ s.IsAnswer k result := by
  obtain ⟨near, hnearest, hvalid⟩ := returns_descend hw
  have hsearch : Returns (s.searchFrom Q near (s.nCandidates k) vis 1 none) fun st =>
      st.Inv s ∧ st.candidates.retset.hasNext s.maxDist = false :=
    returns_searchFrom (s.nCandidates k) 1 hw hvalid.toValid hlen rfl
  obtain ⟨st, hst, hinv, -⟩ := hsearch
  exact ⟨_, search_eq_ok hw hbeam hnearest hst slots, populate_isAnswer k hinv⟩

def oneLevel (m : ℕ) (rows : List (List ℤ)) (entry : ℕ) : SearchGraph where
  cumNneighborPerLevel := [0, m]
  levels := List.replicate rows.length 1
  offsets := rowOffsets rows
  neighbors := rows.flatten
  entryPoint := entry
  maxLevel := 0

lemma oneLevel_wellFormed (hrows : ∀ row ∈ rows, row.length = m ∧ ∀ v ∈ row, v < rows.length)
    (hentry : entry < rows.length) : (oneLevel m rows entry).WellFormed := by
  have hlevel : ∀ {u : ℕ}, u < rows.length → (List.replicate rows.length 1).getD u 0 = 1 := by
    intro u hu
    exact getD_replicate 1 hu
  have hgraph : (oneLevel m rows entry).toHNSW.WellFormed := by
    refine ⟨?_, ?_, ?_, ?_, ?_, ?_, ?_⟩
    · simp [oneLevel]
    · exact fun lv hlv => (eq_of_mem_replicate hlv).ge
    · intro lv hlv
      rw [eq_of_mem_replicate hlv]
      exact Nat.one_lt_two
    · refine ⟨rows, rfl, rfl, ?_⟩
      rw [map_congr_left fun row hrow => (hrows row hrow).1]
      simp [oneLevel]
    · intro v hv
      obtain ⟨row, hrow, hmem⟩ := mem_flatten.mp hv
      simpa [oneLevel] using (hrows row hrow).2 v hmem
    · exact Int.natCast_nonneg entry
    · simpa [oneLevel] using hentry
  refine ⟨hgraph, ?_, ?_⟩
  · simp only [oneLevel, Int.toNat_natCast]
    rw [hlevel hentry]
    decide
  · intro u level ids hu hlt hids v hv
    obtain ⟨ids', hids', hnodes⟩ := hgraph.neighborIds_spec hu hlt
    obtain rfl := Option.some.inj (hids.symm.trans hids')
    have hnode := hnodes v hv
    simp only [oneLevel, length_replicate] at hu hlt hnode ⊢
    rw [hlevel hu] at hlt
    rw [hlevel hnode]
    exact hlt

def twoNodes : HnswSearcher ℕ where
  hnsw := oneLevel 2 [[1, -1], [0, -1]] 1
  qdis v := v + 3
  isMember v := v = 0
  kAlpha := 0
  maxDist := 100

/-- The result of a search with `k = 2`. -/
theorem search_twoNodes :
    ∃ result, twoNodes.search .sorting 2 [false, false] [(7, 7), (7, 7)] = .ok result ∧
      twoNodes.IsAnswer 2 result :=
  search_isAnswer (oneLevel_wellFormed (by decide) (by decide)) rfl rfl 2 _

def noNodes : HnswSearcher ℕ where
  hnsw := { cumNneighborPerLevel := [0, 2], levels := [], offsets := [0], neighbors := [],
            entryPoint := -1, maxLevel := -1 }
  qdis v := v + 3
  isMember v := v = 0
  kAlpha := 0
  maxDist := 100

/-- **The empty graph**: the search leaves in the slots what the caller had there, which is no
answer. -/
theorem search_noNodes :
    noNodes.hnsw.Empty ∧ noNodes.hnsw.upperBeam = 1 ∧
      noNodes.search .sorting 1 [] [(7, 5)] = .ok [(7, 5)] ∧ ¬ noNodes.IsAnswer 1 [(7, 5)] := by
  refine ⟨⟨rfl, rfl⟩, rfl, rfl, ?_⟩
  rintro ⟨found, -, -, hnodes, -, hslots⟩
  -- there is no node to be found
  have hnil : found = [] := eq_nil_iff_forall_not_mem.mpr fun v hv =>
    absurd (hnodes v hv).1 (Nat.not_lt_zero v)
  subst hnil
  simp [noNodes] at hslots

end Rvanns.Faiss.HnswSearcher
