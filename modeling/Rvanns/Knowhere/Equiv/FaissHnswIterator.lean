import Rvanns.Faiss.Equiv.HnswSearcher
import Rvanns.Knowhere.Equiv.PlainIterator
import Rvanns.Knowhere.FaissHnswIterator

/-!
# What an iterator over an HNSW graph returns

The nodes that have been delivered and those in `to_visit` are different nodes, each with a mark and
its distance (`Sound`).
-/

namespace Rvanns.Knowhere.FaissHnswIterator

open Cpp Faiss Faiss.HnswSearcher

section Batches

open List

variable {F : Type} [LinearOrder F] [Neg F] {ix : FaissHnswIterator F}
  {Q : StdPriorityQueue (Neighbor F)} {w w' : Workspace F} {nodes dists : List (Neighbor F)}

/-! ### The invariant -/

structure Sound (ix : FaissHnswIterator F) (nodes : List (Neighbor F)) (w : Workspace F) :
    Prop where
  length_eq : w.visitedNodes.length = ix.searcher.ntotal
  nodup : ((nodes ++ w.toVisit).map (·.id)).Nodup
  marked : ∀ n ∈ nodes ++ w.toVisit, IsMarked w.visitedNodes n.id
  distance : ∀ n ∈ nodes ++ w.toVisit, n.distance = ix.storageDistance n.id
  member : ∀ n ∈ nodes, ix.isMember n.id = true
  initial : w.initialSearchDone = false → nodes = [] ∧ w.toVisit = []

omit [LinearOrder F] in
lemma sound_workspace (ix : FaissHnswIterator F) : Sound ix [] ix.workspace where
  length_eq := length_replicate
  nodup := nodup_nil
  marked _ hn := absurd hn not_mem_nil
  distance _ hn := absurd hn not_mem_nil
  member _ hn := absurd hn not_mem_nil
  initial _ := ⟨rfl, rfl⟩

/-! ### The first batch -/

lemma sound_of_levelSearch {st : LevelSearch F} (h : st.Inv ix.searcher)
    (hlen : w'.visitedNodes = st.visited) (hvisit : w'.toVisit = st.candidates.disqualified.getD [])
    (hdone : w'.initialSearchDone = true) : Sound ix st.candidates.retset.validNs.data w' := by
  have hsub : (st.candidates.retset.validNs.data ++ w'.toVisit).Sublist st.candidates.pool := by
    rw [hvisit]
    exact (sublist_append_left _ _).append_right _
  refine ⟨hlen ▸ h.length_eq, ?_, ?_, ?_, h.candidates.valid, ?_⟩
  · exact h.candidates.nodup.sublist (hsub.map _)
  · intro n hn
    exact hlen ▸ h.candidates.marked n (hsub.subset hn)
  · exact fun n hn => h.candidates.distance n (hsub.subset hn)
  · intro hnot
    rw [hdone] at hnot
    cases hnot

lemma Sound.firstBatch (h : Sound ix [] w) (hdone : w.initialSearchDone = false)
    (hw' : ix.firstBatch Q w = some (dists, w')) : Sound ix dists w' := by
  have hvisit := (h.initial hdone).2
  unfold FaissHnswIterator.firstBatch at hw'
  split_ifs at hw'
  · cases hw'
    exact { h with initial := fun _ => ⟨rfl, hvisit⟩ }
  · obtain ⟨nearest, hnearest, hw'⟩ := Option.bind_eq_some_iff.mp hw'
    obtain ⟨st, hst, ⟨⟩⟩ := Option.bind_eq_some_iff.mp hw'
    have hvalid := descend_valid hnearest
    obtain ⟨hstart, -⟩ := start_inv ix.ef w.accumulatedAlpha (some w.toVisit) hvalid
      h.length_eq hvisit
    rw [searchFrom_eq (h.length_eq ▸ hvalid.lt_ntotal)] at hst
    exact sound_of_levelSearch (hstart.searchOnALevel hst).1 rfl rfl rfl

/-! ### Later batches -/

def afterVisit (ix : FaissHnswIterator F) (Q : StdPriorityQueue (Neighbor F)) (w : Workspace F)
    (rest : List (Neighbor F)) (ids : List ℕ) : Workspace F :=
  let d := ix.searcher.discover ids w.visitedNodes w.accumulatedAlpha
  { w with
    visitedNodes := d.visited
    accumulatedAlpha := d.alpha
    toVisit := ix.searcher.handOn (Q.push above) rest d.fresh }

inductive Visits (ix : FaissHnswIterator F) (Q : StdPriorityQueue (Neighbor F))
    (w : Workspace F) : Turn (Workspace F) (List (Neighbor F) × Workspace F) → Prop
  | empty (hempty : w.toVisit = []) : Visits ix Q w (.done ([], w))
  | found (hpop : Q.pop above w.toVisit = some (top, rest))
      (hids : ix.hnsw.neighborIds top.id 0 = some ids)
      (hlt : ∀ u ∈ ids, u < ix.searcher.ntotal) (hmember : ix.isMember top.id = true) :
      Visits ix Q w (.done ([top], ix.afterVisit Q w rest ids))
  | passed (hpop : Q.pop above w.toVisit = some (top, rest))
      (hids : ix.hnsw.neighborIds top.id 0 = some ids)
      (hlt : ∀ u ∈ ids, u < ix.searcher.ntotal) (hmember : ix.isMember top.id = false) :
      Visits ix Q w (.next (ix.afterVisit Q w rest ids))

lemma visits_of_visitTurn (hlen : w.visitedNodes.length = ix.searcher.ntotal)
    (h : ix.visitTurn Q w = some t) : Visits ix Q w t := by
  unfold visitTurn at h
  cases hpop : Q.pop above w.toVisit with
  | none =>
    rw [hpop] at h
    cases h
    exact .empty (Q.pop_eq_none.mp hpop)
  | some p =>
    rw [hpop] at h
    obtain ⟨r, hr, h⟩ := Option.bind_eq_some_iff.mp h
    obtain ⟨ids, hids, hlt, rfl⟩ := (evaluateSingleNode_eq_some_iff hlen).mp hr
    cases hmember : ix.isMember p.1.id with
    | true =>
      rw [hmember] at h
      cases h
      exact .found hpop hids hlt hmember
    | false =>
      rw [hmember] at h
      cases h
      exact .passed hpop hids hlt hmember

omit [Neg F] in
lemma perm_handOn_push (s : HnswSearcher F) (heap : List (Neighbor F)) (l : List ℕ) :
    (s.handOn (Q.push above) heap l).Perm ((l.map fun v => s.neighbor v (s.qdis v)) ++ heap) := by
  have hfold : s.handOn (Q.push above) heap l
      = Q.pushAll above heap (l.map fun v => s.neighbor v (s.qdis v)) := by
    unfold handOn StdPriorityQueue.pushAll
    rw [foldl_map]
  rw [hfold]
  exact Q.perm_pushAll above heap _

section Visit

variable {top : Neighbor F} {rest : List (Neighbor F)} {ids : List ℕ}

lemma perm_afterVisit (ix : FaissHnswIterator F) (nodes : List (Neighbor F)) (ids : List ℕ)
    (hpop : Q.pop above w.toVisit = some (top, rest)) :
    (nodes ++ top :: (ix.afterVisit Q w rest ids).toVisit).Perm
      (((ix.searcher.discover ids w.visitedNodes w.accumulatedAlpha).fresh.map fun v =>
        ix.searcher.neighbor v (ix.searcher.qdis v)) ++ (nodes ++ w.toVisit)) := by
  have hpush := perm_handOn_push (Q := Q) ix.searcher rest
    (ix.searcher.discover ids w.visitedNodes w.accumulatedAlpha).fresh
  set added := (ix.searcher.discover ids w.visitedNodes w.accumulatedAlpha).fresh.map fun v =>
    ix.searcher.neighbor v (ix.searcher.qdis v)
  calc List.Perm (nodes ++ top :: (ix.afterVisit Q w rest ids).toVisit)
        (nodes ++ top :: (added ++ rest)) := (hpush.cons top).append_left nodes
    List.Perm _ (nodes ++ (added ++ top :: rest)) := perm_middle.symm.append_left nodes
    List.Perm _ (nodes ++ (added ++ w.toVisit)) :=
      ((Q.perm_pop hpop).append_left added).append_left nodes
    List.Perm _ (added ++ (nodes ++ w.toVisit)) :=
      perm_append_comm_assoc nodes added w.toVisit

lemma Sound.afterVisit (h : Sound ix nodes w) (hpop : Q.pop above w.toVisit = some (top, rest))
    (hlt : ∀ u ∈ ids, u < ix.searcher.ntotal) :
    (ix.afterVisit Q w rest ids).visitedNodes.length = ix.searcher.ntotal ∧
      ((nodes ++ top :: (ix.afterVisit Q w rest ids).toVisit).map (·.id)).Nodup ∧
      ∀ n ∈ nodes ++ top :: (ix.afterVisit Q w rest ids).toVisit,
        IsMarked (ix.afterVisit Q w rest ids).visitedNodes n.id ∧
          n.distance = ix.storageDistance n.id := by
  have hd := discovered (s := ix.searcher) ids w.visitedNodes w.accumulatedAlpha
    (by rw [h.length_eq]; exact hlt)
  have hperm := perm_afterVisit ix nodes ids hpop
  refine ⟨hd.length_eq.trans h.length_eq, ?_, ?_⟩
  · rw [(hperm.map (·.id)).nodup_iff, map_append, map_map, nodup_append']
    have hids : (ix.searcher.discover ids w.visitedNodes w.accumulatedAlpha).fresh.map
        ((·.id) ∘ fun v => ix.searcher.neighbor v (ix.searcher.qdis v))
          = (ix.searcher.discover ids w.visitedNodes w.accumulatedAlpha).fresh :=
      map_id' _
    rw [hids]
    refine ⟨hd.nodup, h.nodup, ?_⟩
    -- what is discovered had no mark
    intro v hv hmem
    obtain ⟨n, hn, rfl⟩ := mem_map.mp hmem
    exact (hd.subset _ hv).2 (h.marked n hn)
  · intro n hn
    rcases mem_append.mp (hperm.mem_iff.mp hn) with hn | hn
    · obtain ⟨v, hv, rfl⟩ := mem_map.mp hn
      exact ⟨(hd.marked_iff v).mpr (.inr (hd.subset v hv).1), rfl⟩
    · exact ⟨(hd.marked_iff _).mpr (.inl (h.marked n hn)), h.distance n hn⟩

lemma Sound.visits
    (h : Sound ix nodes w) (hdone : w.initialSearchDone = true) (ht : Visits ix Q w t) :
    t.Meets (fun w' => Sound ix nodes w' ∧ w'.initialSearchDone = true)
      (fun r => Sound ix (nodes ++ r.1) r.2 ∧ r.2.initialSearchDone = true) := by
  have hnot : ¬ w.initialSearchDone = false := by simp [hdone]
  cases ht with
  | empty hempty =>
    refine ⟨?_, hdone⟩
    rw [append_nil]
    exact h
  | @found top rest ids hpop hids hlt hmember =>
    obtain ⟨hlen, hnodup, hknown⟩ := h.afterVisit hpop hlt
    rw [append_cons] at hnodup hknown
    refine ⟨⟨hlen, hnodup, fun n hn => (hknown n hn).1, fun n hn => (hknown n hn).2, ?_,
      fun hfalse => absurd hfalse hnot⟩, hdone⟩
    exact forall_mem_concat.mpr ⟨h.member, hmember⟩
  | @passed top rest ids hpop hids hlt hmember =>
    obtain ⟨hlen, hnodup, hknown⟩ := h.afterVisit hpop hlt
    have hsub : (nodes ++ (ix.afterVisit Q w rest ids).toVisit).Sublist
        (nodes ++ top :: (ix.afterVisit Q w rest ids).toVisit) :=
      (sublist_cons_self top _).append_left nodes
    exact ⟨⟨hlen, hnodup.sublist (hsub.map _), fun n hn => (hknown n (hsub.subset hn)).1,
      fun n hn => (hknown n (hsub.subset hn)).2, h.member, fun hfalse => absurd hfalse hnot⟩, hdone⟩

end Visit

lemma Sound.laterBatch (h : Sound ix nodes w) (hdone : w.initialSearchDone = true)
    (hw' : ix.laterBatch Q w = some (dists, w')) :
    Sound ix (nodes ++ dists) w' ∧ w'.initialSearchDone = true :=
  whileLoop_eq_some (P := fun w => Sound ix nodes w ∧ w.initialSearchDone = true)
    (Q := fun r => Sound ix (nodes ++ r.1) r.2 ∧ r.2.initialSearchDone = true)
    (fun _ _ hw ht => hw.1.visits hw.2 (visits_of_visitTurn hw.1.length_eq ht)) ⟨h, hdone⟩ hw'

/-! ### All calls -/

def Handed (ix : FaissHnswIterator F) (delivered : List (DistId F)) (w : Workspace F) : Prop :=
  ∃ nodes, nodes.mapM ix.toDistId = some delivered ∧ Sound ix nodes w

lemma nextBatch_eq_ok_iff : ix.nextBatch Q w = .ok (batch, w') ↔
      ∃ dists, (if w.initialSearchDone then ix.laterBatch Q w else ix.firstBatch Q w)
        = some (dists, w') ∧ dists.mapM ix.toDistId = some batch := by
  unfold nextBatch
  constructor
  · intro h
    obtain ⟨⟨dists, w₁⟩, hdists, h⟩ := bind_eq_ok.mp h
    obtain ⟨batch', hbatch, ⟨⟩⟩ := bind_eq_ok.mp h
    exact ⟨dists, defined_eq_ok.mp hdists, defined_eq_ok.mp hbatch⟩
  · rintro ⟨dists, hdists, hbatch⟩
    rw [hdists, defined_bind_some]
    dsimp only
    rw [hbatch]
    rfl

lemma Sound.nextBatch (h : Sound ix nodes w)
    (hw' : (if w.initialSearchDone then ix.laterBatch Q w else ix.firstBatch Q w)
      = some (dists, w')) : Sound ix (nodes ++ dists) w' := by
  cases hdone : w.initialSearchDone with
  | true =>
    rw [hdone] at hw'
    exact (h.laterBatch hdone hw').1
  | false =>
    rw [hdone] at hw'
    obtain rfl := (h.initial hdone).1
    exact h.firstBatch hdone hw'

lemma keeps_handed (ix : FaissHnswIterator F) (Q : StdPriorityQueue (Neighbor F)) :
    IndexIterator.Keeps (ix.nextBatch Q) (Handed ix) := by
  rintro delivered w batch w' ⟨nodes, hnodes, hsound⟩ hbatch
  obtain ⟨dists, hdists, hbatch⟩ := nextBatch_eq_ok_iff.mp hbatch
  refine ⟨nodes ++ dists, ?_, hsound.nextBatch hdists⟩
  rw [mapM_append, hnodes, hbatch]
  rfl

omit [LinearOrder F] [Neg F] in
lemma eq_of_label_eq (hlabels : ∀ labels ∈ ix.labels, labels.Nodup)
    (hu : ix.label u = some a) (hv : ix.label v = some a) : u = v := by
  unfold label at hu hv
  cases hlab : ix.labels with
  | none =>
    rw [hlab] at hu hv
    exact (Option.some.inj hu).trans (Option.some.inj hv).symm
  | some labels =>
    rw [hlab] at hu hv
    have hult := lt_length hu
    exact (getElem?_inj hult (hlabels labels hlab)).mp (hu.trans hv.symm)

end Batches

section Calls

variable {F : Type} [LinearOrder F] [InvolutiveNeg F] {ix : FaissHnswIterator F}
  {Q : StdPriorityQueue (Neighbor F)}

omit [LinearOrder F] in
lemma toDistId_eq_some (h : ix.toDistId n = some r) (hn : n.distance = ix.storageDistance n.id) :
    ∃ id, ix.label n.id = some id ∧ r = ⟨id, ix.distance n.id⟩ := by
  obtain ⟨id, hid, rfl⟩ := Option.map_eq_some_iff.mp h
  refine ⟨id, hid, ?_⟩
  rw [hn, storageDistance]
  split_ifs
  · rw [neg_neg]
  · rfl

/-- **An iterator returns different nodes that pass the filter, with their distances**, whatever the
graph is and whatever calls are made. -/
theorem run_sound (hlabels : ∀ labels ∈ ix.labels, labels.Nodup)
    {heap : StdPriorityQueue (DistId F)} {larger : Bool} {rawDistance : ℤ → F} {fuel : ℕ}
    {calls : List IndexIterator.Call} {results : List (DistId F)}
    {it : IndexIterator F (Workspace F)}
    (hrun : IndexIterator.run heap { largerIsCloser := larger } (ix.nextBatch Q)
      rawDistance fuel calls ix.iterator = .ok (results, it)) :
    (results.map (·.id)).Nodup ∧
      ∀ r ∈ results, ∃ v id, v < ix.searcher.ntotal ∧ ix.isMember v = true ∧
        ix.label v = some id ∧ r = ⟨id, ix.distance v⟩ := by
  have hbegin : IndexIterator.Delivers { largerIsCloser := larger } (Handed ix) []
      ix.iterator := ⟨rfl, [], ⟨[], rfl, sound_workspace ix⟩, .refl []⟩
  obtain ⟨-, delivered, ⟨nodes, hnodes, hsound⟩, hperm⟩ :=
    hbegin.run ⟨rfl, rfl⟩ (keeps_handed ix Q) hrun
  have hsub : results.Subperm delivered :=
    (List.sublist_append_left _ _).subperm.trans hperm.subperm
  have hknown : ∀ n ∈ nodes, n ∈ nodes ++ it.source.toVisit := fun n hn =>
    List.mem_append_left _ hn
  constructor
  · have hnodup : (nodes.map (·.id)).Nodup := by
      have hall := hsound.nodup
      rw [List.map_append] at hall
      exact hall.of_append_left
    have hdelivered : (delivered.map (·.id)).Nodup := by
      refine nodup_of_mapM hnodes hnodup fun a a' b b' hb hb' heq => ?_
      obtain ⟨u, hu, rfl⟩ := Option.map_eq_some_iff.mp hb
      obtain ⟨v, hv, rfl⟩ := Option.map_eq_some_iff.mp hb'
      exact eq_of_label_eq hlabels (Int.natCast_inj.mp heq ▸ hu) hv
    obtain ⟨l, hl, hsublist⟩ := hsub
    exact (hl.map _).nodup_iff.mp (hdelivered.sublist (hsublist.map _))
  · intro r hr
    obtain ⟨n, hn, hdist⟩ := exists_of_mem_mapM hnodes (hsub.subset hr)
    obtain ⟨id, hid, hr⟩ := toDistId_eq_some hdist (hsound.distance n (hknown n hn))
    exact ⟨n.id, id, hsound.length_eq ▸ (hsound.marked n (hknown n hn)).lt_length,
      hsound.member n hn, hid, hr⟩

def threeNodes : FaissHnswIterator ℤ where
  hnsw := oneLevel 2 [[1, -1], [0, 2], [1, -1]] 0
  distance v := 10 - v
  isSimilarityMetric := true
  bitset := { bits := fun _ => 2, numBits := 3, numFilteredOutBits := 1 }
  ef := 2
  maxDist := 1000

/-- The nodes 0 and 2 are returned, with the similarities they have. -/
theorem run_threeNodes : ∃ results it,
    IndexIterator.run .sorting { largerIsCloser := true } (threeNodes.nextBatch .sorting)
        (fun _ => 0) 0 [.hasNext, .next, .next] threeNodes.iterator = .ok (results, it) ∧
      results = [⟨0, 10⟩, ⟨2, 8⟩] ∧ (results.map (·.id)).Nodup ∧
      ∀ r ∈ results, ∃ v id, v < threeNodes.searcher.ntotal ∧ threeNodes.isMember v = true ∧
        threeNodes.label v = some id ∧ r = ⟨id, threeNodes.distance v⟩ := by
  have hresults : (IndexIterator.run .sorting { largerIsCloser := true }
      (threeNodes.nextBatch .sorting) (fun _ => 0) 0 [.hasNext, .next, .next]
      threeNodes.iterator).toOption.map Prod.fst = some [⟨0, 10⟩, ⟨2, 8⟩] := by
    decide +kernel
  obtain ⟨p, hp, hfst⟩ := Option.map_eq_some_iff.mp hresults
  have hrun := toOption_eq_some.mp hp
  exact ⟨p.1, p.2, hrun, hfst, run_sound (fun labels hlabels => by cases hlabels) hrun⟩

end Calls

end Rvanns.Knowhere.FaissHnswIterator
