import Rvanns.Faiss.Equiv.HnswCoverage

/-!
# A search with room for everything is exact

Without a filter, and with room for all nodes that can be reached from the node where the descent
ends, no candidate ever falls out of the first list.
-/

namespace Rvanns.Faiss.HnswSearcher

open Cpp List NeighborSetDoublePopList

variable {D : Type} [LinearOrder D] {s : HnswSearcher D} {Q : StdPriorityQueue (Neighbor D)}
  {vis : List Bool} {c : Candidates D} {n : Neighbor D} {st : LevelSearch D}
  {near : Nearest D} {cap : ℕ+} {alpha : ℚ}

/-! ### Handing nodes on -/

structure OnlyValid (c : Candidates D) : Prop where
  invalid : c.retset.invalidNs.data = []
  heap : c.disqualified = none

omit [LinearOrder D] in
lemma OnlyValid.pool_eq (h : OnlyValid c) : c.pool = c.retset.validNs.data := by
  unfold Candidates.pool entries
  rw [h.invalid, h.heap, Option.getD_none, append_nil, append_nil]

lemma OnlyValid.add (h : OnlyValid c) (hc : c.retset.Ordered) (hn : n.status = .valid)
    (hroom : c.retset.validNs.data.length < c.retset.validNs.capacity) :
    OnlyValid (s.addSearchCandidate Q c n)
      ∧ (s.addSearchCandidate Q c n).pool.Perm (n :: c.pool) := by
  have hinsert : c.retset.insert s.maxDist n =
      ({ c.retset with validNs := (c.retset.validNs.insert true n).1 },
        (c.retset.validNs.insert true n).2) := by
    unfold NeighborSetDoublePopList.insert
    rw [if_pos hn]
  have hnone := (NeighborSetPopList.insert_snd_eq_none_iff hc.valid true n).mpr hroom
  have honly : OnlyValid (s.addSearchCandidate Q c n) := by
    unfold addSearchCandidate
    rw [hinsert, h.heap]
    exact ⟨h.invalid, rfl⟩
  refine ⟨honly, ?_⟩
  have hperm := NeighborSetPopList.perm_insert hc.valid true n
  rw [hnone, Option.toList_none, append_nil] at hperm
  rw [honly.pool_eq, h.pool_eq]
  unfold addSearchCandidate
  rw [hinsert]
  exact hperm

lemma OnlyValid.handOn (h : OnlyValid c) (hc : c.retset.Ordered)
    (hfilter : ∀ v ∈ l, s.isMember v = true)
    (hroom : c.retset.validNs.data.length + l.length ≤ c.retset.validNs.capacity) :
    OnlyValid (s.handOn (s.addSearchCandidate Q) c l)
      ∧ (s.handOn (s.addSearchCandidate Q) c l).pool.Perm
        ((l.map fun v => s.neighbor v (s.qdis v)) ++ c.pool) := by
  induction l generalizing c with
  | nil => exact ⟨h, .refl _⟩
  | cons v l ih =>
    rw [length_cons] at hroom
    obtain ⟨hv, hfilter⟩ := forall_mem_cons.mp hfilter
    have hadds := s.adds_neighbor Q hc v
    have hstatus : (s.neighbor v (s.qdis v)).status = .valid := if_pos hv
    obtain ⟨honly, hperm⟩ := h.add (s := s) (Q := Q) hc hstatus (by omega)
    have hlen : (s.addSearchCandidate Q c (s.neighbor v (s.qdis v))).retset.validNs.data.length
        = c.retset.validNs.data.length + 1 := by
      rw [← honly.pool_eq, hperm.length_eq, length_cons, h.pool_eq]
    obtain ⟨honly', hperm'⟩ := ih honly hadds.ordered hfilter (by
      rw [hadds.capacity.1]
      omega)
    exact ⟨honly', hperm'.trans ((hperm.append_left _).trans perm_middle)⟩

/-! ### The invariant -/

structure Complete (s : HnswSearcher D) (near : Nearest D) (cap : ℕ+) (st : LevelSearch D) :
    Prop where
  inv : st.Inv s
  onlyValid : OnlyValid st.candidates
  capacity_eq : st.candidates.retset.validNs.capacity = cap
  first : IsMarked st.visited near.node
  kept : ∀ u, IsMarked st.visited u → u ∈ st.candidates.ids
  reaches : ∀ u, IsMarked st.visited u → s.Reaches near.node u
  expanded_or : ∀ u, IsMarked st.visited u →
    s.Expanded st.visited u ∨ ∃ n ∈ st.candidates.pool, n.id = u ∧ n.status ≠ .checked

lemma start_complete (hn : near.Valid s) (hfilter : ∀ v, s.isMember v = true)
    (hlen : vis.length = s.ntotal) (hvisited : ∀ u, ¬ IsMarked vis u) :
    Complete s near cap (s.start near cap vis alpha none) := by
  obtain ⟨hinv, -⟩ := start_inv cap alpha none hn hlen rfl
  have hlt : near.node < vis.length := hlen ▸ hn.lt_ntotal
  have hnew : OnlyValid { retset := new D cap } := ⟨rfl, rfl⟩
  obtain ⟨honly, hperm⟩ := hnew.add (s := s) (Q := .sorting) (ordered_new cap)
    (n := s.neighbor near.node near.distance) (if_pos (hfilter _)) cap.pos
  have hmem := hperm.mem_iff.mpr mem_cons_self
  have hfirst : ∀ u, IsMarked (vis.set near.node true) u → u = near.node := fun u hu =>
    ((isMarked_set hlt).mp hu).resolve_right (hvisited u)
  refine ⟨hinv, honly, (insert_capacities s.maxDist _ _).1, (isMarked_set hlt).mpr (.inl rfl),
    ?_, ?_, ?_⟩
  · intro u hu
    rw [hfirst u hu]
    exact mem_ids hmem
  · intro u hu
    rw [hfirst u hu]
    exact .refl
  · intro u hu
    rw [hfirst u hu]
    exact .inr ⟨_, hmem, rfl, s.status_neighbor_ne _ _⟩

lemma Complete.turn (h : Complete s near cap st) (hfilter : ∀ v, s.isMember v = true)
    (hfinite : {u | s.Reaches near.node u}.Finite) (hcard : {u | s.Reaches near.node u}.ncard ≤ cap)
    (hpops : st.candidates.retset.Pops n retset) (hids : s.hnsw.neighborIds n.id 0 = some ids)
    (hlt : ∀ u ∈ ids, u < s.ntotal) (hinv' : (s.afterTurn Q st retset ids).Inv s) :
    Complete s near cap (s.afterTurn Q st retset ids) := by
  have hd := h.inv.discovered hlt
  have hpopped := h.inv.candidates.pops hpops
  have hn : n ∈ st.candidates.pool := mem_append_left _ hpops.mem
  have hnreaches := h.reaches n.id (h.inv.candidates.marked n hn)
  have honly : OnlyValid { st.candidates with retset := retset } := by
    cases hpops with
    | valid _ => exact ⟨h.onlyValid.invalid, h.onlyValid.heap⟩
    | invalid hcons => exact absurd (h.onlyValid.invalid.symm.trans hcons) (cons_ne_nil _ _).symm
  -- the candidates that are left and those that are new are different nodes that can be reached
  have hroom : retset.validNs.data.length + (s.discover ids st.visited st.alpha).fresh.length
      ≤ cap := by
    refine le_trans ?_ hcard
    have hnodup : (({ st.candidates with retset := retset } : Candidates D).ids
        ++ (s.discover ids st.visited st.alpha).fresh).Nodup := by
      exact List.Nodup.append hpopped.nodup hd.nodup fun v hv hfresh =>
        hd.not_mem_ids hpopped v hfresh hv
    have hle := length_le_ncard hfinite hnodup fun v hv => ?_
    · rw [length_append, Candidates.ids, length_map, honly.pool_eq] at hle
      exact hle
    · rcases mem_append.mp hv with hv | hv
      · obtain ⟨m, hm, rfl⟩ := mem_map.mp hv
        exact h.reaches m.id (hpopped.marked m hm)
      · exact hnreaches.tail ⟨ids, hids, (hd.subset v hv).1⟩
  have hcap := (capacity_of_pops hpops).1.trans h.capacity_eq
  obtain ⟨honly', hperm⟩ := honly.handOn (s := s) (Q := Q) hpopped.ordered
    (fun v _ => hfilter v) (by rw [hcap]; exact hroom)
  have hall : ∀ v ∈ ids, ¬ IsMarked st.visited v →
      v ∈ (s.discover ids st.visited st.alpha).fresh := fun v hv hnot =>
    hd.member v hv (hfilter v) hnot
  refine ⟨hinv', honly', ?_, hd.mono _ h.first, ?_, ?_, ?_⟩
  · exact (capacity_handOn hpopped.ordered).1.trans hcap
  · exact fun u hu =>
      (pool_turn hpops hids h.inv hd hall hperm hu).2 (hfilter u) fun hold => h.kept u hold
  · intro u hu
    rcases (hd.marked_iff u).mp hu with hu | hu
    · exact h.reaches u hu
    · exact hnreaches.tail ⟨ids, hids, hu⟩
  · exact fun u hu => (pool_turn hpops hids h.inv hd hall hperm hu).1 (h.expanded_or u)

lemma mem_searchFrom_iff (hfilter : ∀ v, s.isMember v = true) (hn : near.Valid s)
    (hlen : vis.length = s.ntotal) (hvisited : ∀ u, ¬ IsMarked vis u)
    (hfinite : {u | s.Reaches near.node u}.Finite) (hcard : {u | s.Reaches near.node u}.ncard ≤ cap)
    (hst : s.searchFrom Q near cap vis alpha none = some st) :
    st.Inv s ∧ ∀ u, u ∈ st.listed ↔ s.Reaches near.node u := by
  rw [searchFrom_eq (hlen ▸ hn.lt_ntotal)] at hst
  have hend : Complete s near cap st ∧ st.candidates.retset.hasNext s.maxDist = false := by
    refine whileLoop_eq_some (P := Complete s near cap)
      (Q := fun st => Complete s near cap st ∧
        st.candidates.retset.hasNext s.maxDist = false)
      (fun st t hc ht => ?_) (start_complete hn hfilter hlen hvisited) hst
    have hturns := turns_of_searchTurn hc.inv.length_eq ht
    have hmeets := hc.inv.turn hturns
    cases hturns with
    | done hdone => exact ⟨hc, hdone⟩
    | next _ hpops hids hlt => exact hc.turn hfilter hfinite hcard hpops hids hlt hmeets.1
  obtain ⟨hc, hdone⟩ := hend
  have hpool := hc.onlyValid.pool_eq
  have hids : st.candidates.ids = st.listed := by rw [Candidates.ids, hpool, LevelSearch.listed]
  -- everything has been popped, so that the marks are closed under edges
  have hexpanded : ∀ u, IsMarked st.visited u → s.Expanded st.visited u := by
    intro u hu
    refine (hc.expanded_or u hu).resolve_right ?_
    rintro ⟨m, hm, -, hstatus⟩
    rw [hpool] at hm
    exact hstatus (hc.inv.candidates.ordered.cursor.checked_of_not_hasNext
      (Bool.or_eq_false_iff.mp hdone).1 m hm)
  refine ⟨hc.inv, fun u => ⟨fun hu => ?_, fun hu => ?_⟩⟩
  · rw [← hids] at hu
    obtain ⟨m, hm, rfl⟩ := mem_map.mp hu
    exact hc.reaches m.id (hc.inv.candidates.marked m hm)
  · rw [← hids]
    apply hc.kept
    induction hu with
    | refl => exact hc.first
    | tail _ hedge ih => exact hexpanded _ ih _ hedge

/-! ### The answer -/

structure IsNearest (s : HnswSearcher D) (S : Set ℕ) (k : ℕ) (found : List ℕ) : Prop where
  length_eq : found.length = min k S.ncard
  nodup : found.Nodup
  mem : ∀ v ∈ found, v ∈ S
  sorted : found.Pairwise (fun u v => s.qdis u ≤ s.qdis v)
  /-- Nothing that is left out is nearer. -/
  le_of_not_mem : ∀ v ∈ found, ∀ u ∈ S, u ∉ found → s.qdis v ≤ s.qdis u

lemma isNearest_take {l : List ℕ} (k : ℕ) (hnodup : l.Nodup)
    (hsorted : l.Pairwise (fun u v => s.qdis u ≤ s.qdis v)) (hmem : ∀ u, u ∈ l ↔ u ∈ S) :
    s.IsNearest S k (l.take k) := by
  have hS : S = (l.toFinset : Set ℕ) := by
    ext u
    rw [← hmem u, Finset.mem_coe, mem_toFinset]
  refine ⟨?_, hnodup.sublist (take_sublist k l),
    fun v hv => (hmem v).mp (mem_of_mem_take hv), hsorted.sublist (take_sublist k l), ?_⟩
  · rw [length_take, hS, Set.ncard_coe_finset, toFinset_card_of_nodup hnodup]
  · intro v hv u hu hnot
    -- `u` stands behind the first `k`
    have hsplit := (hmem u).mpr hu
    rw [← take_append_drop k l] at hsplit hsorted
    have hdrop := (mem_append.mp hsplit).resolve_left hnot
    exact (pairwise_append.mp hsorted).2.2 v hv u hdrop

/-- **A search with room for every node that can be reached is exact.**  Without a filter it
returns the `k` nearest of the nodes that can be reached on level 0 from where the descent ends. -/
theorem search_isNearest (hw : s.hnsw.WellFormed) (hbeam : s.hnsw.upperBeam = 1)
    (hfilter : ∀ v, s.isMember v = true) (hlen : vis.length = s.ntotal)
    (hvisited : ∀ u, ¬ IsMarked vis u) (k : ℕ+) (slots : List (D × ℤ)) :
    ∃ near, s.descend = some near ∧
      ({u | s.Reaches near.node u}.ncard ≤ max s.ef k →
        ∃ found, s.IsNearest {u | s.Reaches near.node u} k found ∧
          s.search Q k vis slots = .ok (found.map (fun v => (s.qdis v, (v : ℤ)))
            ++ List.replicate (k - found.length) (s.maxDist, -1))) := by
  obtain ⟨near, hnearest, hlevel⟩ := returns_descend hw
  have hn := hlevel.toValid
  refine ⟨near, hnearest, fun hcard => ?_⟩
  have hreturns : Returns (s.searchFrom Q near (s.nCandidates k) vis 1 none) fun st =>
      st.Inv s ∧ st.candidates.retset.hasNext s.maxDist = false :=
    returns_searchFrom (s.nCandidates k) 1 hw hn hlen rfl
  obtain ⟨st, hst, -⟩ := hreturns
  have hroom : {u | s.Reaches near.node u}.ncard ≤ (s.nCandidates k : ℕ) := hcard
  obtain ⟨hinv, hmem⟩ := mem_searchFrom_iff hfilter hn hlen hvisited
    (finite_reaches hw hn.lt_ntotal) hroom hst
  refine ⟨st.listed.take k, isNearest_take k hinv.nodup_listed hinv.sorted_listed hmem, ?_⟩
  rw [search_eq_ok hw hbeam hnearest hst slots, populate_eq k hinv]

def fourNodes : HnswSearcher ℕ where
  hnsw := oneLevel 2 [[1, 2], [0, -1], [1, -1], [0, -1]] 0
  qdis v := 9 - v
  isMember _ := true
  kAlpha := 0
  efSearch := some 3
  maxDist := 100

lemma reaches_fourNodes (hu : fourNodes.Reaches 0 u) : u ∈ [0, 1, 2] := by
  have hrows : ∀ v ∈ [0, 1, 2], ∀ w ∈ (fourNodes.hnsw.neighborIds v 0).getD [], w ∈ [0, 1, 2] := by
    decide
  induction hu with
  | refl => exact mem_cons_self
  | tail _ hedge ih =>
    obtain ⟨ids, hids, hmem⟩ := hedge
    refine hrows _ ih _ ?_
    rw [hids]
    exact hmem

theorem search_fourNodes :
    ∃ found, fourNodes.IsNearest {u | fourNodes.Reaches 0 u} 2 found ∧
      fourNodes.search .sorting 2 [false, false, false, false] [(7, 7), (7, 7)]
        = .ok (found.map (fun v => (fourNodes.qdis v, (v : ℤ)))
          ++ List.replicate (2 - found.length) (fourNodes.maxDist, -1)) := by
  have hvisited : ∀ u, ¬ IsMarked [false, false, false, false] u := by
    intro u hu
    have hmem := mem_of_getElem? hu
    revert hmem
    decide
  obtain ⟨near, hnearest, h⟩ := search_isNearest (s := fourNodes) (Q := .sorting)
    (oneLevel_wellFormed (by decide) (by decide)) rfl (fun _ => rfl) rfl hvisited 2 [(7, 7), (7, 7)]
  obtain rfl : near = ⟨0, 9⟩ := Option.some.inj (hnearest.symm.trans rfl)
  apply h
  have hsub : {u | fourNodes.Reaches 0 u} ⊆ ([0, 1, 2].toFinset : Set ℕ) := fun u hu =>
    mem_toFinset.mpr (reaches_fourNodes hu)
  refine (Set.ncard_le_ncard hsub (Finset.finite_toSet _)).trans ?_
  rw [Set.ncard_coe_finset]
  decide

end Rvanns.Faiss.HnswSearcher
