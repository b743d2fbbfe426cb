import Rvanns.Faiss.Equiv.HnswCoverage
import Rvanns.Knowhere.Equiv.FaissHnswIterator

/-!
# Which nodes an iterator over an HNSW graph reaches

Between the batches every node with a mark is expanded or waits in `to_visit`, apart from those that
the first search left in its second list.  These are never expanded, so the nodes found in the end
are those that can be reached without passing one of them.
-/

namespace Rvanns.Knowhere.FaissHnswIterator

open Cpp Faiss Faiss.HnswSearcher

section Batches

open List

variable {F : Type} [LinearOrder F] [Neg F] {ix : FaissHnswIterator F}
  {Q : StdPriorityQueue (Neighbor F)} {w w' : Workspace F} {nodes dists : List (Neighbor F)}
  {first : ℕ} {lost : List ℕ} {u v : ℕ}

/-! ### The invariant -/

/-- `v` can be reached from `first` without an edge that leaves one of the nodes `lost`. -/
def ReachesAvoiding (s : HnswSearcher F) (lost : List ℕ) : ℕ → ℕ → Prop :=
  Relation.ReflTransGen fun a b => s.Edge a b ∧ a ∉ lost

/-- The state between two batches: `nodes` have been delivered, and `lost` are the nodes with a mark
that will never be expanded. -/
structure Covered (ix : FaissHnswIterator F) (first : ℕ) (lost : List ℕ)
    (nodes : List (Neighbor F)) (w : Workspace F) : Prop where
  sound : Sound ix nodes w
  done : w.initialSearchDone = true
  alpha : 1 ≤ w.accumulatedAlpha
  marked : IsMarked w.visitedNodes first
  expanded_or : ∀ u, IsMarked w.visitedNodes u →
    ix.searcher.Expanded w.visitedNodes u ∨ u ∈ w.toVisit.map (·.id) ∨ u ∈ lost
  kept : ∀ u, IsMarked w.visitedNodes u → ix.isMember u = true →
    u ∈ (nodes ++ w.toVisit).map (·.id)
  lost_marked : ∀ u ∈ lost, IsMarked w.visitedNodes u
  not_lost : ∀ n ∈ w.toVisit, n.id ∉ lost
  traced : ∀ u, IsMarked w.visitedNodes u → ReachesAvoiding ix.searcher lost first u

section Visit

variable {top : Neighbor F} {rest : List (Neighbor F)} {ids : List ℕ}

lemma Covered.afterVisit (h : Covered ix first lost nodes w)
    (hpop : Q.pop above w.toVisit = some (top, rest))
    (hids : ix.hnsw.neighborIds top.id 0 = some ids) (hlt : ∀ u ∈ ids, u < ix.searcher.ntotal)
    (hsound : Sound ix nodes' (ix.afterVisit Q w rest ids))
    (hnodes : ∀ u ∈ (nodes ++ [top]).map (·.id), ix.isMember u = true →
      u ∈ nodes'.map (·.id)) :
    Covered ix first lost nodes' (ix.afterVisit Q w rest ids) := by
  have hd := discovered (s := ix.searcher) ids w.visitedNodes w.accumulatedAlpha
    (by rw [h.sound.length_eq]; exact hlt)
  obtain ⟨halpha, hall⟩ := hd.all rfl h.alpha
  have hmono : ∀ u, IsMarked w.visitedNodes u →
      IsMarked (ix.afterVisit Q w rest ids).visitedNodes u := fun u hu =>
    (hd.marked_iff u).mpr (.inl hu)
  have hpush := perm_handOn_push (Q := Q) ix.searcher rest
    (ix.searcher.discover ids w.visitedNodes w.accumulatedAlpha).fresh
  have htop : top ∈ w.toVisit := (Q.perm_pop hpop).mem_iff.mp mem_cons_self
  -- a node with a new mark is on the heap
  have hnew : ∀ u, IsMarked (ix.afterVisit Q w rest ids).visitedNodes u →
      ¬ IsMarked w.visitedNodes u →
      u ∈ (ix.afterVisit Q w rest ids).toVisit.map (·.id) := by
    intro u hu hnot
    have hmem := hall u (((hd.marked_iff u).mp hu).resolve_left hnot) hnot
    have hheap := hpush.mem_iff.mpr (mem_append_left rest (mem_map_of_mem
      (f := fun v => ix.searcher.neighbor v (ix.searcher.qdis v)) hmem))
    exact mem_map_of_mem (f := (·.id)) hheap
  -- and so is what was on it before, but for the node taken
  have hold : ∀ u, u ∈ w.toVisit.map (·.id) →
      u = top.id ∨ u ∈ (ix.afterVisit Q w rest ids).toVisit.map (·.id) := by
    intro u hu
    obtain ⟨m, hm, rfl⟩ := mem_map.mp hu
    rcases mem_cons.mp ((Q.perm_pop hpop).mem_iff.mpr hm) with rfl | hm
    · exact .inl rfl
    · have hheap := hpush.mem_iff.mpr (mem_append_right _ hm)
      exact .inr (mem_map_of_mem (f := (·.id)) hheap)
  refine ⟨hsound, h.done, h.alpha.trans_eq halpha.symm, hmono _ h.marked, ?_, ?_,
    fun u hu => hmono u (h.lost_marked u hu), ?_, ?_⟩
  · intro u hu
    by_cases hmarked : IsMarked w.visitedNodes u
    · rcases h.expanded_or u hmarked with hexp | hvisit | hlost
      · exact .inl (hexp.mono hmono)
      · rcases hold u hvisit with rfl | hvisit
        · exact .inl (expanded_of_discovered hd hids)
        · exact .inr (.inl hvisit)
      · exact .inr (.inr hlost)
    · exact .inr (.inl (hnew u hu hmarked))
  · intro u hu hmember
    rw [map_append, mem_append]
    by_cases hmarked : IsMarked w.visitedNodes u
    · have hkept := h.kept u hmarked hmember
      rw [map_append, mem_append] at hkept
      rcases hkept with hkept | hkept
      · exact .inl (hnodes u (by rw [map_append]; exact mem_append_left _ hkept) hmember)
      · rcases hold u hkept with rfl | hvisit
        · exact .inl (hnodes _ (by simp) hmember)
        · exact .inr hvisit
    · exact .inr (hnew u hu hmarked)
  · intro n hn hlost
    rcases mem_append.mp (hpush.mem_iff.mp hn) with hn | hn
    · obtain ⟨v, hv, rfl⟩ := mem_map.mp hn
      exact (hd.subset v hv).2 (h.lost_marked _ hlost)
    · exact h.not_lost n ((Q.perm_pop hpop).mem_iff.mp (mem_cons_of_mem _ hn)) hlost
  · intro u hu
    rcases (hd.marked_iff u).mp hu with hu | hu
    · exact h.traced u hu
    · have hmarked := h.sound.marked top (mem_append_right _ htop)
      exact (h.traced top.id hmarked).tail ⟨⟨ids, hids, hu⟩, h.not_lost top htop⟩

lemma Covered.visits (h : Covered ix first lost nodes w) (ht : Visits ix Q w t) :
    t.Meets (Covered ix first lost nodes)
      (fun r => Covered ix first lost (nodes ++ r.1) r.2) := by
  have hmeets := h.sound.visits h.done ht
  cases ht with
  | empty hempty =>
    show Covered ix first lost (nodes ++ []) w
    rw [append_nil]
    exact h
  | found hpop hids hlt hmember =>
    exact h.afterVisit hpop hids hlt hmeets.1 fun u hu _ => hu
  | @passed top rest ids hpop hids hlt hmember =>
    refine h.afterVisit hpop hids hlt hmeets.1 fun u hu hu' => ?_
    -- the node that was taken does not pass the filter
    rw [map_append, mem_append] at hu
    refine hu.resolve_right fun htop => ?_
    rw [mem_singleton.mp htop, hmember] at hu'
    cases hu'

end Visit

/-! ### Later batches come to an end -/

def Workspace.remaining (w : Workspace F) : ℕ := w.toVisit.length + w.visitedNodes.count false

lemma remaining_afterVisit (h : Sound ix nodes w) (hpop : Q.pop above w.toVisit = some (top, rest))
    (hlt : ∀ u ∈ ids, u < ix.searcher.ntotal) :
    (ix.afterVisit Q w rest ids).remaining < w.remaining := by
  have hd := discovered (s := ix.searcher) ids w.visitedNodes w.accumulatedAlpha
    (by rw [h.length_eq]; exact hlt)
  have hpush := (perm_handOn_push (Q := Q) ix.searcher rest
    (ix.searcher.discover ids w.visitedNodes w.accumulatedAlpha).fresh).length_eq
  have hlen := StdPriorityQueue.length_pop hpop
  have hcount := hd.count_le
  rw [length_append, length_map] at hpush
  simp only [Workspace.remaining, FaissHnswIterator.afterVisit]
  omega

/-- The neighbours of every node on level 0 can be read, and are nodes. -/
def Readable (ix : FaissHnswIterator F) : Prop :=
  ∀ v < ix.searcher.ntotal, ∃ ids, ix.hnsw.neighborIds v 0 = some ids ∧
    ∀ u ∈ ids, u < ix.searcher.ntotal

omit [LinearOrder F] in
lemma readable_of_wellFormed (hw : ix.hnsw.WellFormed) : Readable ix := fun _ hv =>
  read_level_zero (s := ix.searcher) hw hv

lemma visitTurn_isSome (hread : Readable ix) (h : Sound ix nodes w) :
    ∃ t, ix.visitTurn Q w = some t := by
  unfold visitTurn
  cases hpop : Q.pop above w.toVisit with
  | none => exact ⟨_, rfl⟩
  | some e =>
    have hmem : e.1 ∈ w.toVisit := (Q.perm_pop hpop).mem_iff.mp mem_cons_self
    have hmarked := h.marked e.1 (mem_append_right nodes hmem)
    obtain ⟨ids, hids, hlt⟩ := hread e.1.id (h.length_eq ▸ hmarked.lt_length)
    have heval : ∃ r, ix.searcher.evaluateSingleNode (Q.push above) e.1.id 0 w.visitedNodes
        w.accumulatedAlpha e.2 = some r :=
      ⟨_, (evaluateSingleNode_eq_some_iff h.length_eq).mpr ⟨ids, hids, hlt, rfl⟩⟩
    obtain ⟨r, hr⟩ := heval
    simp [hr]

/-- A later batch: a node at a time, until `to_visit` is empty. -/
lemma returns_laterBatch (Q : StdPriorityQueue (Neighbor F)) (hread : Readable ix)
    (h : Sound ix nodes w) (hdone : w.initialSearchDone = true) :
    Returns (ix.laterBatch Q w) fun r =>
      r.1.length + r.2.remaining ≤ w.remaining ∧ (r.1 = [] → r.2.toVisit = []) := by
  have hfuel : w.remaining < w.toVisit.length + w.visitedNodes.length + 1 := by
    have hcount := count_le_length (a := false) (l := w.visitedNodes)
    unfold Workspace.remaining
    omega
  refine .whileLoop (P := fun w' => (Sound ix nodes w' ∧ w'.initialSearchDone = true) ∧
    w'.remaining ≤ w.remaining) Workspace.remaining (fun w' hw' => ?_) ⟨⟨h, hdone⟩, le_rfl⟩ hfuel
  obtain ⟨⟨hsound, hdone'⟩, hle⟩ := hw'
  obtain ⟨t, ht⟩ := visitTurn_isSome (Q := Q) hread hsound
  have hvisits := visits_of_visitTurn hsound.length_eq ht
  have hmeets := hsound.visits hdone' hvisits
  refine ⟨t, ht, ?_⟩
  cases hvisits with
  | empty hempty => exact ⟨by simpa using hle, fun _ => hempty⟩
  | found hpop hids hlt hmember =>
    have hless := remaining_afterVisit hsound hpop hlt
    refine ⟨?_, nofun⟩
    simp only [length_singleton]
    omega
  | passed hpop hids hlt hmember =>
    have hless := remaining_afterVisit hsound hpop hlt
    exact ⟨⟨hmeets, by omega⟩, hless⟩

lemma Covered.laterBatch (h : Covered ix first lost nodes w)
    (hw' : ix.laterBatch Q w = some (dists, w')) :
    Covered ix first lost (nodes ++ dists) w' :=
  whileLoop_eq_some (P := Covered ix first lost nodes)
    (Q := fun r => Covered ix first lost (nodes ++ r.1) r.2)
    (fun _ _ hw ht => hw.visits (visits_of_visitTurn hw.sound.length_eq ht)) h hw'

/-! ### The first batch -/

omit [LinearOrder F] in
lemma not_isMarked_workspace (ix : FaissHnswIterator F) (u : ℕ) :
    ¬ IsMarked ix.workspace.visitedNodes u := by
  intro h
  have hmem := mem_of_getElem? h
  exact absurd (eq_of_mem_replicate hmem) (by decide)

omit [LinearOrder F] in
lemma one_le_alpha_workspace (ix : FaissHnswIterator F) :
    1 ≤ ix.workspace.accumulatedAlpha := by
  unfold workspace
  split_ifs
  · unfold floatMax
    norm_num
  · exact le_rfl

/-- The workspace after the first search. -/
def afterSearch (ix : FaissHnswIterator F) (st : LevelSearch F) : Workspace F :=
  { ix.workspace with
    visitedNodes := st.visited
    initialSearchDone := true
    toVisit := st.candidates.disqualified.getD [] }

/-- The nodes that are thrown away with the candidate lists of the first search: those still in
`invalid_ns_`. -/
def leftBehind (st : LevelSearch F) : List ℕ := st.candidates.retset.invalidNs.data.map (·.id)

lemma covered_afterSearch (h : ix.searcher.Explores first st)
    (hdone : st.candidates.retset.hasNext ix.maxDist = false) :
    Covered ix first (leftBehind st) st.candidates.retset.validNs.data
      (ix.afterSearch st) where
  sound := sound_of_levelSearch h.inv rfl rfl rfl
  done := rfl
  alpha := one_le_alpha_workspace ix
  marked := h.marked
  expanded_or u hu := (h.covers.expanded_or_left h.inv hdone hu).imp_right Or.symm
  kept u hu hmember := by
    obtain ⟨n, hn, rfl⟩ := mem_map.mp (h.covers.kept u hu hmember)
    -- it is not in the second list, because it passes the filter
    rcases mem_append.mp hn with hn | hn
    · rcases mem_append.mp hn with hn | hn
      · exact mem_map_of_mem (mem_append_left _ hn)
      · have hnot : ix.isMember n.id = false := h.inv.candidates.invalid n hn
        rw [hnot] at hmember
        cases hmember
    · exact mem_map_of_mem (mem_append_right _ hn)
  lost_marked u hu := by
    obtain ⟨n, hn, rfl⟩ := mem_map.mp hu
    exact h.inv.candidates.marked n (mem_append_left _ (mem_append_right _ hn))
  not_lost n hn hlost := by
    have hnodup := h.inv.candidates.nodup
    unfold Candidates.ids Candidates.pool at hnodup
    rw [map_append, NeighborSetDoublePopList.entries, map_append] at hnodup
    exact (disjoint_of_nodup_append hnodup) (mem_append_right _ hlost) (mem_map_of_mem hn)
  traced u hu := by
    refine (h.traced u hu).lift id fun a b hab => ⟨hab.1, fun hlost => hab.2.2 ?_⟩
    obtain ⟨n, hn, rfl⟩ := mem_map.mp hlost
    exact ⟨n, mem_append_left _ (mem_append_right _ hn), rfl, h.inv.candidates.unchecked n hn⟩

/-- The first search, which ends with `st`. -/
structure FirstSearch (ix : FaissHnswIterator F) (Q : StdPriorityQueue (Neighbor F))
    (nearest : Nearest F) (st : LevelSearch F) : Prop where
  batch_eq : ix.firstBatch Q ix.workspace
    = some (st.candidates.retset.validNs.data, ix.afterSearch st)
  sound : Sound ix st.candidates.retset.validNs.data (ix.afterSearch st)
  covered : st.candidates.retset.validNs.data ≠ [] →
    Covered ix nearest.node (leftBehind st) st.candidates.retset.validNs.data
      (ix.afterSearch st)

lemma exists_firstSearch (Q : StdPriorityQueue (Neighbor F)) (hw : ix.hnsw.WellFormed)
    (hnearest : ix.searcher.descend = some nearest) :
    ∃ st, ix.searcher.searchFrom Q nearest ix.ef ix.workspace.visitedNodes
        ix.workspace.accumulatedAlpha (some []) = some st ∧ FirstSearch ix Q nearest st := by
  have hvalid := descend_valid hnearest
  have hlen : ix.workspace.visitedNodes.length = ix.searcher.ntotal := length_replicate
  have hentry : ix.hnsw.entryPoint ≠ -1 := by
    have hnonneg := hw.graph.entry_nonneg
    omega
  have hreturns : Returns (ix.searcher.searchFrom Q nearest ix.ef
      ix.workspace.visitedNodes ix.workspace.accumulatedAlpha (some [])) fun st =>
      st.Inv ix.searcher ∧ st.candidates.retset.hasNext ix.searcher.maxDist = false :=
    returns_searchFrom ix.ef _ hw hvalid hlen rfl
  obtain ⟨st, hst, hinv, hdone⟩ := hreturns
  refine ⟨st, hst, ?_, sound_of_levelSearch hinv rfl rfl rfl, fun hne => ?_⟩
  · have hst' : ix.searcher.searchFrom Q nearest ix.ef ix.workspace.visitedNodes
        ix.workspace.accumulatedAlpha (some ix.workspace.toVisit) = some st := hst
    unfold firstBatch
    rw [if_neg hentry, hnearest]
    simp only [some_bind, hst']
    rfl
  · have hin := not_imp_comm.mp (fun hin => valid_eq_nil_of_searchFrom hvalid hlen hin hst) hne
    exact covered_afterSearch (Explores.searchFrom rfl hvalid hin hlen
      (not_isMarked_workspace ix) (one_le_alpha_workspace ix) hst) hdone

/-! ### What has been found in the end -/

section Exhausted

variable (h : Covered ix first lost nodes w) (hempty : w.toVisit = [])

include h hempty

omit [LinearOrder F] in
/-- When nothing is left to visit, the marked nodes are those that can be reached past the lost
ones. -/
lemma Covered.marked_iff : IsMarked w.visitedNodes v ↔
    ReachesAvoiding ix.searcher lost first v := by
  refine ⟨h.traced v, fun hv => ?_⟩
  induction hv with
  | refl => exact h.marked
  | tail _ hedge ih =>
    have hexp := h.expanded_or _ ih
    rw [hempty] at hexp
    rcases hexp with hexp | hvisit | hlost
    · exact hexp _ hedge.1
    · cases hvisit
    · exact absurd hlost hedge.2

omit [LinearOrder F] in
lemma Covered.mem_nodes_iff (hmember : ix.isMember v = true) :
    (∃ n ∈ nodes, n.id = v) ↔ ReachesAvoiding ix.searcher lost first v := by
  rw [← h.marked_iff hempty]
  constructor
  · rintro ⟨n, hn, rfl⟩
    exact h.sound.marked n (mem_append_left _ hn)
  · intro hmarked
    have hkept := h.kept v hmarked hmember
    rw [hempty, append_nil] at hkept
    exact mem_map.mp hkept

end Exhausted

/-! ### Using an iterator up -/

/-- There is a label for every node, and no label twice. -/
structure HasLabels (ix : FaissHnswIterator F) : Prop where
  length_le : ∀ labels ∈ ix.labels, ix.searcher.ntotal ≤ labels.length
  nodup : ∀ labels ∈ ix.labels, labels.Nodup

omit [LinearOrder F] in
lemma HasLabels.exists_toDistId (h : HasLabels ix)
    (hn : n.id < ix.searcher.ntotal) : ∃ r, ix.toDistId n = some r := by
  have hlabel : ∃ id, ix.label n.id = some id := by
    unfold label
    cases hlabels : ix.labels with
    | none => exact ⟨_, rfl⟩
    | some labels => exact ⟨_, getElem?_eq_getElem (hn.trans_le (h.length_le labels hlabels))⟩
  obtain ⟨id, hid⟩ := hlabel
  exact ⟨_, by rw [toDistId, hid]; rfl⟩

omit [LinearOrder F] in
lemma Sound.exists_mapM (h : Sound ix nodes w) (hlabels : HasLabels ix)
    (hsub : dists ⊆ nodes) : ∃ batch, dists.mapM ix.toDistId = some batch := by
  refine Rvanns.Cpp.exists_mapM fun n hn => hlabels.exists_toDistId ?_
  exact h.length_eq ▸ (h.marked n (mem_append_left _ (hsub hn))).lt_length

omit [LinearOrder F] in
lemma Sound.length_add_remaining_le (h : Sound ix nodes w) :
    nodes.length + w.remaining ≤ ix.searcher.ntotal := by
  have hle := length_add_count_le h.nodup fun v hv => by
    obtain ⟨n, hn, rfl⟩ := mem_map.mp hv
    exact h.marked n hn
  rw [length_map, length_append, h.length_eq] at hle
  unfold Workspace.remaining
  omega

/-- A batch after the first: it comes, and what remains gets less by its length at least. -/
lemma Sound.exists_nextBatch (h : Sound ix nodes w) (hdone : w.initialSearchDone = true)
    (Q : StdPriorityQueue (Neighbor F)) (hread : Readable ix) (hlabels : HasLabels ix) :
    ∃ dists batch w', ix.laterBatch Q w = some (dists, w') ∧
      ix.nextBatch Q w = .ok (batch, w') ∧ dists.mapM ix.toDistId = some batch ∧
      (Sound ix (nodes ++ dists) w' ∧ w'.initialSearchDone = true) ∧
      batch.length + w'.remaining ≤ w.remaining ∧ (batch = [] → w'.toVisit = []) := by
  obtain ⟨⟨dists, w'⟩, hbatch, hremaining, hempty⟩ := returns_laterBatch Q hread h hdone
  have hsound := h.laterBatch hdone hbatch
  obtain ⟨batch, hmap⟩ := hsound.1.exists_mapM hlabels (subset_append_right nodes dists)
  have hlen := length_of_mapM hmap
  refine ⟨dists, batch, w', hbatch, ?_, hmap, hsound, ?_, ?_⟩
  · refine nextBatch_eq_ok_iff.mpr ⟨dists, ?_, hmap⟩
    rw [if_pos hdone]
    exact hbatch
  · rw [hlen]
    exact hremaining
  · rintro rfl
    exact hempty (length_eq_zero_iff.mp hlen.symm)

/-- `delivered` are the results that the nodes delivered so far became. -/
def HandedAll (ix : FaissHnswIterator F) (first : ℕ) (lost : List ℕ)
    (delivered : List (DistId F)) (w : Workspace F) : Prop :=
  ∃ nodes, nodes.mapM ix.toDistId = some delivered ∧ Covered ix first lost nodes w

lemma HandedAll.nextBatch
    (h : HandedAll ix first lost delivered w) (Q : StdPriorityQueue (Neighbor F))
    (hw : ix.hnsw.WellFormed) (hlabels : HasLabels ix) :
    ∃ batch w', ix.nextBatch Q w = .ok (batch, w') ∧
      HandedAll ix first lost (delivered ++ batch) w' ∧
      batch.length + w'.remaining ≤ w.remaining ∧ (batch = [] → w'.toVisit = []) := by
  obtain ⟨nodes, hnodes, hcov⟩ := h
  obtain ⟨dists, batch, w', hlater, hbatch, hmap, -, hremaining, hempty⟩ :=
    hcov.sound.exists_nextBatch hcov.done Q (readable_of_wellFormed hw) hlabels
  refine ⟨batch, w', hbatch, ⟨nodes ++ dists, ?_, hcov.laterBatch hlater⟩, hremaining, hempty⟩
  rw [mapM_append, hnodes, hmap]
  rfl

lemma keeps_handedAll (Q : StdPriorityQueue (Neighbor F)) (hw : ix.hnsw.WellFormed)
    (hlabels : HasLabels ix) :
    IndexIterator.Keeps (ix.nextBatch Q) (HandedAll ix first lost) := by
  intro delivered w batch w' h hbatch
  obtain ⟨batch', w₁, hbatch', hhanded, -, -⟩ := h.nextBatch Q hw hlabels
  obtain ⟨rfl, rfl⟩ := Prod.mk.inj (ok_unique hbatch hbatch')
  exact hhanded

end Batches

section Calls

open IndexIterator

variable {F : Type} [LinearOrder F] [InvolutiveNeg F] {ix : FaissHnswIterator F}
  {Q : StdPriorityQueue (Neighbor F)} {heap : StdPriorityQueue (DistId F)}
  {p : IteratorParams} {raw : ℤ → F} {fuel : ℕ} {first : ℕ} {lost : List ℕ}
  {it : IndexIterator F (Workspace F)}

structure UnderWay (ix : FaissHnswIterator F) (p : IteratorParams) (first : ℕ)
    (lost : List ℕ) (rs : List (DistId F)) (it : IndexIterator F (Workspace F)) : Prop where
  initialized : it.initialized = true
  delivers : Delivers p (HandedAll ix first lost) rs it
  last : it.res = [] → it.source.toVisit = []

lemma hasNext_of_initialized {B : Type} (heap : StdPriorityQueue (DistId F))
    (p : IteratorParams) (nextBatch : B → Except Fault (List (DistId F) × B))
    (raw : ℤ → F) {it : IndexIterator F B} (h : it.initialized = true)
    (hrefined : it.refinedRes = []) :
    hasNext heap p nextBatch raw it = .ok (!it.res.isEmpty, it) := by
  unfold hasNext initializeIfNeeded
  rw [if_pos h]
  simp [hrefined, bind, Except.bind, pure, Except.pure]

lemma UnderWay.next (h : UnderWay ix p first lost rs it) (Q : StdPriorityQueue (Neighbor F))
    (heap : StdPriorityQueue (DistId F)) (raw : ℤ → F) (fuel : ℕ) (hplain : Plain p)
    (hw : ix.hnsw.WellFormed) (hlabels : HasLabels ix) (hne : it.res ≠ []) :
    ∃ result it', IndexIterator.next heap p (ix.nextBatch Q) raw fuel it = .ok
      (result, it') ∧
      UnderWay ix p first lost (rs ++ [result]) it' ∧
      it'.res.length + it'.source.remaining < it.res.length + it.source.remaining := by
  obtain ⟨top, rest, hpop⟩ := heap.exists_pop above hne
  obtain ⟨delivered, hhanded, -⟩ := h.delivers.exists_perm
  obtain ⟨batch, w', hbatch, -, hremaining, hempty⟩ := hhanded.nextBatch Q hw hlabels
  have hnext : IndexIterator.next heap p (ix.nextBatch Q) raw fuel it = .ok _ :=
    (next_initialized_iff hplain h.initialized h.delivers.refinedRes_eq).mpr
      ⟨top, rest, batch, w', hpop, hbatch, rfl, rfl⟩
  have hlen := (heap.perm_pushAll IndexIterator.above rest
    (batch.map (signedElem p))).length_eq
  rw [List.length_append, List.length_map] at hlen
  have hpopped := StdPriorityQueue.length_pop hpop
  refine ⟨_, _, hnext, ⟨h.initialized, h.delivers.next hplain (keeps_handedAll Q hw hlabels) hnext,
    fun hnil => ?_⟩, ?_⟩
  · -- nothing waits, so the batch was empty
    apply hempty
    dsimp only at hnil
    rw [hnil, List.length_nil] at hlen
    exact List.length_eq_zero_iff.mp (by omega)
  · dsimp only
    omega

lemma UnderWay.take (h : UnderWay ix p first lost rs it) (Q : StdPriorityQueue (Neighbor F))
    (heap : StdPriorityQueue (DistId F)) (raw : ℤ → F) (fuel : ℕ) (hplain : Plain p)
    (hw : ix.hnsw.WellFormed) (hlabels : HasLabels ix)
    (hn : it.res.length + it.source.remaining < n) :
    ∃ rest it', take heap p (ix.nextBatch Q) raw fuel n it
        = .ok (rest, it') ∧
      UnderWay ix p first lost (rs ++ rest) it' ∧ it'.res = [] := by
  induction n generalizing it rs with
  | zero => omega
  | succ n ih =>
    have hhas : hasNext heap p (ix.nextBatch Q) raw it = .ok
      (!it.res.isEmpty, it) :=
      hasNext_of_initialized heap p _ raw h.initialized h.delivers.refinedRes_eq
    by_cases hne : it.res = []
    · rw [hne] at hhas
      refine ⟨[], it, take_nil hhas, ?_, hne⟩
      rw [List.append_nil]
      exact h
    · have hmore : (!it.res.isEmpty) = true := by simpa using hne
      rw [hmore] at hhas
      obtain ⟨result, it₁, hnext, hway, hless⟩ := h.next Q heap raw fuel hplain hw hlabels hne
      obtain ⟨rest, it', htake, hway', hdone⟩ := ih hway (by omega)
      refine ⟨result :: rest, it', take_cons hhas hnext htake, ?_, hdone⟩
      rwa [List.append_assoc] at hway'

lemma exists_initialized (hst : FirstSearch ix Q nearest st) (heap : StdPriorityQueue (DistId F))
    (raw : ℤ → F) (hplain : Plain p) (hlabels : HasLabels ix) :
    ∃ batch it₀, st.candidates.retset.validNs.data.mapM ix.toDistId = some batch ∧
      initializeIfNeeded heap p (ix.nextBatch Q) raw ix.iterator = .ok it₀ ∧
      it₀.source = ix.afterSearch st ∧ it₀.res.Perm (batch.map (signedElem p)) ∧
      it₀.refinedRes = [] ∧ it₀.initialized = true := by
  obtain ⟨batch, hbatch⟩ := hst.sound.exists_mapM hlabels (List.Subset.refl _)
  have hfirst : ix.nextBatch Q ix.workspace = .ok (batch, ix.afterSearch st) :=
    nextBatch_eq_ok_iff.mpr ⟨_, hst.batch_eq, hbatch⟩
  have hupdate : updateNext heap p (ix.nextBatch Q) raw ix.iterator = .ok _ :=
    (updateNext_eq_ok_iff hplain).mpr ⟨batch, _, hfirst, rfl⟩
  refine ⟨batch, _, hbatch, bind_eq_ok.mpr ⟨_, hupdate, rfl⟩, rfl, ?_, rfl, rfl⟩
  have hperm := heap.perm_pushAll above [] (batch.map (signedElem p))
  rwa [List.append_nil] at hperm

/-- An iterator that is used up: node `v`, which passes the filter, has been returned exactly when
the first batch was not empty and `v` can be reached past the nodes that were left behind. -/
lemma exists_take (hw : ix.hnsw.WellFormed) (hlabels : HasLabels ix)
    (hst : FirstSearch ix Q nearest st) (heap : StdPriorityQueue (DistId F))
    (hplain : Plain p) (raw : ℤ → F) (fuel : ℕ) (hn : ix.searcher.ntotal < n) :
    ∃ rs it, take heap p (ix.nextBatch Q) raw fuel n
        ix.iterator = .ok (rs, it) ∧
      hasNext heap p (ix.nextBatch Q) raw it = .ok (false, it) ∧
      ∀ v, ix.isMember v = true →
        ((∃ id, ix.label v = some id ∧ ⟨id, ix.distance v⟩ ∈ rs) ↔
          st.candidates.retset.validNs.data ≠ [] ∧
            ReachesAvoiding ix.searcher (leftBehind st) nearest.node v) := by
  obtain ⟨batch, it₀, hbatch, hit₀, hsource, hres, hrefined, hinit⟩ :=
    exists_initialized hst heap raw hplain hlabels
  have hlen : it₀.res.length = st.candidates.retset.validNs.data.length := by
    rw [hres.length_eq, List.length_map, length_of_mapM hbatch]
  obtain ⟨m, rfl⟩ : ∃ m, n = m + 1 := ⟨n - 1, by omega⟩
  rw [take_eq_of_initialized hit₀ hinit]
  by_cases hnil : st.candidates.retset.validNs.data = []
  · -- an empty first batch ends the iteration
    have hempty : it₀.res = [] := by
      rw [hnil] at hlen
      exact List.length_eq_zero_iff.mp hlen
    have hhas := hasNext_of_initialized heap p (ix.nextBatch Q) raw hinit hrefined
    rw [hempty] at hhas
    exact ⟨[], it₀, bind_eq_ok.mpr ⟨_, hhas, rfl⟩, hhas, fun v _ => by simp [hnil]⟩
  · have hway : UnderWay ix p nearest.node (leftBehind st) [] it₀ := by
      refine ⟨hinit, ⟨hrefined, batch, ⟨_, hbatch, hsource ▸ hst.covered hnil⟩, ?_⟩,
        fun hempty => ?_⟩
      · have hperm := hres.map (signedElem p)
        simpa [List.map_map, Function.comp_def] using hperm
      · rw [hempty] at hlen
        exact absurd (List.length_eq_zero_iff.mp hlen.symm) hnil
    have hbound := hst.sound.length_add_remaining_le
    obtain ⟨rs, it, htake, hway', hempty⟩ := hway.take Q heap raw fuel hplain hw
      hlabels (n := m + 1) (by rw [hlen, hsource]; omega)
    have hhas := hasNext_of_initialized heap p
      (ix.nextBatch Q) raw hway'.initialized hway'.delivers.refinedRes_eq
    rw [hempty] at hhas
    refine ⟨rs, it, htake, hhas, fun v hmember => ?_⟩
    obtain ⟨delivered, ⟨nodes, hnodes, hcov⟩, hperm⟩ := hway'.delivers.exists_perm
    rw [hempty, List.map_nil, List.append_nil] at hperm
    rw [and_iff_right hnil, ← hcov.mem_nodes_iff (hway'.last hempty) hmember]
    have hdist : ∀ node ∈ nodes, node.distance = ix.storageDistance node.id := fun node hnode =>
      hcov.sound.distance node (List.mem_append_left _ hnode)
    constructor
    · rintro ⟨id, hid, hr⟩
      obtain ⟨node, hnode, heq⟩ := exists_of_mem_mapM hnodes (hperm.mem_iff.mp hr)
      obtain ⟨id', hid', hr'⟩ := toDistId_eq_some heq (hdist node hnode)
      have hids : id = id' := Int.natCast_inj.mp (congrArg DistId.id hr')
      exact ⟨node, hnode, eq_of_label_eq hlabels.nodup (hids ▸ hid') hid⟩
    · rintro ⟨node, hnode, rfl⟩
      obtain ⟨r, hr, heq⟩ := exists_mem_of_mapM hnodes hnode
      obtain ⟨id, hid, rfl⟩ := toDistId_eq_some heq (hdist node hnode)
      exact ⟨id, hid, hperm.mem_iff.mpr hr⟩

/-- **Completeness.**  An iterator that is used up has returned every node that passes the filter
and can be reached from the node at which the descent ends if and only if, for each of them, the
first batch was not empty and there is a path that leaves none of the nodes in `invalid_ns_` at the
moment when the lists of the first search are thrown away. -/
theorem take_complete_iff (hw : ix.hnsw.WellFormed) (hlabels : HasLabels ix)
    {nearest : Nearest F} (hnearest : ix.searcher.descend = some nearest)
    (Q : StdPriorityQueue (Neighbor F)) (heap : StdPriorityQueue (DistId F))
    (larger : Bool) (raw : ℤ → F) (fuel : ℕ) {n : ℕ} (hn : ix.searcher.ntotal < n) :
    ∃ st rs it, ix.searcher.searchFrom Q nearest ix.ef ix.workspace.visitedNodes
        ix.workspace.accumulatedAlpha (some []) = some st ∧
      IndexIterator.take heap { largerIsCloser := larger } (ix.nextBatch Q)
        raw fuel n ix.iterator = .ok (rs, it) ∧
      IndexIterator.hasNext heap { largerIsCloser := larger } (ix.nextBatch Q)
        raw it = .ok (false, it) ∧
      ((∀ v, ix.isMember v = true → ix.searcher.Reaches nearest.node v →
          ∃ id, ix.label v = some id ∧ ⟨id, ix.distance v⟩ ∈ rs) ↔
        ∀ v, ix.isMember v = true → ix.searcher.Reaches nearest.node v →
          st.candidates.retset.validNs.data ≠ [] ∧
            ReachesAvoiding ix.searcher (leftBehind st) nearest.node v) := by
  obtain ⟨st, hsearch, hst⟩ := exists_firstSearch Q hw hnearest
  have hplain : Plain { largerIsCloser := larger } := ⟨rfl, rfl⟩
  obtain ⟨rs, it, htake, hend, hiff⟩ := exists_take hw hlabels hst heap hplain raw fuel hn
  refine ⟨st, rs, it, hsearch, htake, hend, ?_⟩
  exact forall_congr' fun v => forall_congr' fun hmember => forall_congr' fun _ => hiff v hmember

/-! ### Four nodes -/

/-- Node 1 is filtered out, and node 3 is behind it; node 2 leads back. -/
def fourNodes (distances : List ℤ) : FaissHnswIterator ℤ where
  hnsw := oneLevel 2 [[1, 2], [3, -1], [0, -1], [1, -1]] 0
  distance v := distances.getD v 0
  isSimilarityMetric := false
  bitset := { bits := fun _ => 2, numBits := 4, numFilteredOutBits := 1 }
  ef := Nat.succPNat 1
  maxDist := 1000

lemma fourNodes_wellFormed (distances : List ℤ) : (fourNodes distances).hnsw.WellFormed :=
  oneLevel_wellFormed (by decide) (by decide)

lemma fourNodes_labels (distances : List ℤ) : HasLabels (fourNodes distances) :=
  ⟨fun _ hlabels => (by cases hlabels), fun _ hlabels => (by cases hlabels)⟩

/-- When node 1 is closer than node 2 it is expanded, and nothing is missed. -/
theorem take_fourNodes : ∃ rs it,
    IndexIterator.take .sorting { largerIsCloser := false }
        ((fourNodes [1, 2, 3, 10]).nextBatch .sorting) (fun _ => 0) 0 5
        (fourNodes [1, 2, 3, 10]).iterator = .ok (rs, it) ∧
      ∀ v, (fourNodes [1, 2, 3, 10]).isMember v = true →
        (fourNodes [1, 2, 3, 10]).searcher.Reaches 0 v →
        ∃ id, (fourNodes [1, 2, 3, 10]).label v = some id ∧
          ⟨id, (fourNodes [1, 2, 3, 10]).distance v⟩ ∈ rs := by
  have hnearest : (fourNodes [1, 2, 3, 10]).searcher.descend = some ⟨0, 1⟩ := rfl
  obtain ⟨st, rs, it, hst, htake, -, hiff⟩ :=
    take_complete_iff (fourNodes_wellFormed [1, 2, 3, 10]) (fourNodes_labels _) hnearest .sorting
      .sorting false (fun _ => 0) 0 (n := 5) (by decide)
  have hrun : ((fourNodes [1, 2, 3, 10]).searcher.searchFrom .sorting ⟨0, 1⟩ 2
      (fourNodes [1, 2, 3, 10]).workspace.visitedNodes
      (fourNodes [1, 2, 3, 10]).workspace.accumulatedAlpha (some [])).map
        (fun st => (st.candidates.retset.validNs.data.isEmpty, leftBehind st)) =
      some (false, []) := by
    decide +kernel
  obtain ⟨st', hst', heq⟩ := Option.map_eq_some_iff.mp hrun
  obtain rfl := Option.some.inj (hst.symm.trans hst')
  obtain ⟨hne, hleft⟩ := Prod.mk.inj heq
  refine ⟨rs, it, htake, hiff.mpr fun v _ hv => ⟨by simpa using hne, ?_⟩⟩
  rw [hleft]
  exact hv.lift id fun a b hab => ⟨hab, List.not_mem_nil⟩

/-- **The iterator is not complete**: when node 2 is closer, node 1 is left in the second list when
the search ends, and node 3, which passes the filter, is never returned. -/
theorem take_misses_node :
    (fourNodes [1, 3, 2, 10]).hnsw.WellFormed ∧
      (fourNodes [1, 3, 2, 10]).searcher.descend = some ⟨0, 1⟩ ∧
      (fourNodes [1, 3, 2, 10]).isMember 3 = true ∧
      (fourNodes [1, 3, 2, 10]).searcher.Reaches 0 3 ∧
      ∃ rs it it',
        IndexIterator.take .sorting { largerIsCloser := false }
          ((fourNodes [1, 3, 2, 10]).nextBatch .sorting) (fun _ => 0) 0 5
          (fourNodes [1, 3, 2, 10]).iterator = .ok (rs, it) ∧
        IndexIterator.hasNext .sorting { largerIsCloser := false }
          ((fourNodes [1, 3, 2, 10]).nextBatch .sorting) (fun _ => 0) it = .ok (false, it') ∧
        rs = [⟨0, 1⟩, ⟨2, 2⟩] := by
  refine ⟨fourNodes_wellFormed _, rfl, by decide, ?_, ?_⟩
  · have h01 : (fourNodes [1, 3, 2, 10]).searcher.Edge 0 1 := ⟨[1, 2], rfl, by decide⟩
    have h13 : (fourNodes [1, 3, 2, 10]).searcher.Edge 1 3 := ⟨[3], rfl, by decide⟩
    exact (Relation.ReflTransGen.single h01).tail h13
  · have hrun : (take .sorting { largerIsCloser := false }
        ((fourNodes [1, 3, 2, 10]).nextBatch .sorting) (fun _ => 0) 0 5
        (fourNodes [1, 3, 2, 10]).iterator).toOption.bind
        (fun e => (hasNext .sorting { largerIsCloser := false }
          ((fourNodes [1, 3, 2, 10]).nextBatch .sorting) (fun _ => 0) e.2).toOption.map
            fun q => (e.1, q.1))
        = some ([⟨0, 1⟩, ⟨2, 2⟩], false) := by
      decide +kernel
    obtain ⟨e, he, hq⟩ := Option.bind_eq_some_iff.mp hrun
    obtain ⟨q, hq, heq⟩ := Option.map_eq_some_iff.mp hq
    obtain ⟨hresults, hmore⟩ := Prod.mk.inj heq
    refine ⟨e.1, e.2, q.2, toOption_eq_some.mp he, ?_, hresults⟩
    rw [toOption_eq_some.mp hq, ← hmore]

end Calls

end Rvanns.Knowhere.FaissHnswIterator
