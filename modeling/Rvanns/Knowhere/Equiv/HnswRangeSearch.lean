import Rvanns.Knowhere.Equiv.HnswIteratorCoverage
import Rvanns.Knowhere.Equiv.RangeSearch

/-!
# Range search in the order of an HNSW iterator

The ordered task ends at the first value that is too far.  The iterators over HNSW graphs are not
told to retain an order, so that something in range may come later.
-/

namespace Rvanns.Knowhere

open Cpp Faiss List Option

namespace IndexIterator

variable {F B : Type} [LinearOrder F] [Neg F] (heap : StdPriorityQueue (DistId F))
  (raw : ℤ → F) {p : IteratorParams}
  {nextBatch : B → Except Fault (List (DistId F) × B)} {fuel total : ℕ} {it : IndexIterator F B}

/-! ### Iterators come to an end -/

lemma exists_handleBatch (hrefine : p.refineRatio = 0 ∨ ScalesWithin p total)
    (it : IndexIterator F B) (batch : List (DistId F)) (htotal : it.queued + batch.length ≤ total) :
    ∃ it', handleBatch heap p raw it batch = .ok it' ∧
      it'.initialized = it.initialized ∧ it'.source = it.source ∧
      it'.queued = it.queued + batch.length := by
  rcases hrefine with hzero | hscales
  · have hplain : refine p = false := by simp [refine, hzero]
    unfold handleBatch
    by_cases hbatch : batch = []
    · exact ⟨it, by simp [hbatch, pure, Except.pure], rfl, rfl, by simp [hbatch]⟩
    · set pushed := heap.pushAll above it.res
        (batch.map fun e => ⟨e.id, signed p e.val⟩) with hpushed
      have hlen : pushed.length = batch.length + it.res.length := by
        rw [(heap.perm_pushAll above it.res _).length_eq, length_append, length_map]
      refine ⟨{ it with res := pushed }, ?_, rfl, rfl, ?_⟩
      · rw [if_neg (by simpa using hbatch), hplain]
        rfl
      · show pushed.length + it.refinedRes.length = it.res.length + it.refinedRes.length + _
        omega
  · obtain ⟨res, refined, heq, hcount, -⟩ :=
      handleBatch_spec heap p raw it batch (hscales.of_le htotal)
    exact ⟨_, heq, rfl, rfl, hcount⟩

section Exhaust

variable {P : B → Prop} {μ : B → ℕ}
  (hnextBatch : ∀ b, P b → ∃ batch b', nextBatch b = .ok (batch, b') ∧ P b' ∧
    batch.length + μ b' ≤ μ b)
  (hrefine : p.refineRatio = 0 ∨ ScalesWithin p total)

include hnextBatch hrefine

lemma exists_updateNext (hsource : P it.source) (htotal : it.queued + μ it.source ≤ total) :
    ∃ it', updateNext heap p nextBatch raw it = .ok it' ∧
      it'.initialized = it.initialized ∧ P it'.source ∧
      it'.queued + μ it'.source ≤ it.queued + μ it.source := by
  obtain ⟨batch, source, hbatch, hP, hless⟩ := hnextBatch it.source hsource
  obtain ⟨it', hhandle, hinit, hsource', hqueued⟩ := exists_handleBatch heap
    raw hrefine { it with source := source } batch
    (show it.queued + _ ≤ _ by omega)
  refine ⟨it', bind_eq_ok.mpr ⟨_, hbatch, hhandle⟩, hinit, ?_, ?_⟩
  · rw [hsource']
    exact hP
  · rw [hqueued, hsource']
    show it.queued + _ + μ source ≤ _
    omega

/-- **An iterator over a source that runs dry runs dry too**: it delivers no more values than wait
in its heaps and remain in the source. -/
theorem exists_delivers (hretain : p.retainIteratorOrder = false)
    (hinit : it.initialized = true) (hsource : P it.source)
    (htotal : it.queued + μ it.source ≤ total) :
    ∃ l, (cursor heap p nextBatch raw fuel).Delivers it l ∧
      l.length ≤ it.queued + μ it.source := by
  obtain ⟨n, hn⟩ : ∃ n, it.queued + μ it.source = n := ⟨_, rfl⟩
  induction n using Nat.strong_induction_on generalizing it with
  | _ n ih =>
    have hhas : hasNext heap p nextBatch raw it =
        .ok (!it.res.isEmpty || !it.refinedRes.isEmpty, it) := by
      rw [hasNext, initializeIfNeeded_eq hinit]
      rfl
    cases hpop : popQueue heap it with
    | none =>
      -- nothing waits
      have hzero := (popQueue_eq_none heap).mp hpop
      have hnone : (!it.res.isEmpty || !it.refinedRes.isEmpty) = false := by
        simp [length_eq_zero_iff.mp (Nat.eq_zero_of_add_eq_zero_right hzero),
          length_eq_zero_iff.mp (Nat.eq_zero_of_add_eq_zero_left hzero)]
      rw [hnone] at hhas
      exact ⟨[], .done hhas, Nat.zero_le _⟩
    | some e =>
      obtain ⟨top, it₁⟩ := e
      obtain ⟨hinit₁, hsource₁, hcount, -⟩ := popQueue_spec heap hpop
      have hqueued : it.queued = it₁.queued + 1 := hcount
      have hP₁ : P it₁.source := hsource₁ ▸ hsource
      obtain ⟨it₂, hupdate, hinit₂, hP₂, hless⟩ := exists_updateNext heap raw hnextBatch
        hrefine hP₁ (by rw [hsource₁]; omega)
      rw [hsource₁] at hless
      obtain ⟨l, hl, hlen⟩ := ih _ (by omega) (hinit₂.trans (hinit₁.trans hinit)) hP₂ (by omega) rfl
      have hmore : (!it.res.isEmpty || !it.refinedRes.isEmpty) = true := by
        by_contra hnone
        have hboth : it.res = [] ∧ it.refinedRes = [] := by simpa using hnone
        unfold queued at hqueued
        rw [hboth.1, hboth.2] at hqueued
        simp at hqueued
      rw [hmore] at hhas
      have hnext : next heap p nextBatch raw fuel it =
          .ok (⟨top.id, signed p top.val⟩, it₂) := by
        rw [next, initializeIfNeeded_eq hinit, ok_bind, hpop]
        dsimp only
        rw [hupdate, ok_bind, hretain]
        rfl
      exact ⟨_, .step hhas hnext hl, by rw [length_cons]; omega⟩

end Exhaust

lemma delivers_of_initialized {it' : IndexIterator F B}
    (hit' : initializeIfNeeded heap p nextBatch raw it = .ok it') (hinit : it'.initialized = true)
    (h : (cursor heap p nextBatch raw fuel).Delivers it' l) :
    (cursor heap p nextBatch raw fuel).Delivers it l := by
  apply h.of_hasNext_eq
  show hasNext heap p nextBatch raw it = hasNext heap p nextBatch raw it'
  rw [hasNext, hit', hasNext, initializeIfNeeded_eq hinit]

variable {heap raw}

lemma delivers_of_take (h : take heap p nextBatch raw fuel n it = .ok (results, it'))
    (hend : hasNext heap p nextBatch raw it' = .ok (false, it'')) :
    (cursor heap p nextBatch raw fuel).Delivers it results := by
  induction n generalizing it results with
  | zero =>
    cases h
    exact .done hend
  | succ n ih =>
    obtain ⟨⟨more, it₁⟩, hmore, h⟩ := bind_eq_ok.mp h
    cases more with
    | false =>
      obtain ⟨rfl, -⟩ := Prod.mk.inj (Except.ok.inj h)
      exact .done hmore
    | true =>
      obtain ⟨⟨result, it₂⟩, hnext, h⟩ := bind_eq_ok.mp h
      obtain ⟨⟨rest, it₃⟩, hrest, ⟨⟩⟩ := bind_eq_ok.mp h
      exact .step hmore hnext (ih hrest)

end IndexIterator

/-! ### The iterator of a query -/

namespace HnswQuery

variable {F : Type} [LinearOrder F] [Neg F] {q : HnswQuery F}

/-- The graph is well formed or has no nodes, every node has a label, and the products of refining
can be computed. -/
structure Searchable (q : HnswQuery F) : Prop where
  graph : q.hnsw.WellFormed ∨ q.hnsw.Empty
  labels : q.HasLabels
  refines : q.refineRatio = 0 ∨ IndexIterator.ScalesWithin q.params q.searcher.ntotal

/-- The workspace before the first batch, or after it. -/
def Running (q : HnswQuery F) (w : FaissHnswIterator.Workspace F) : Prop :=
  w = q.workspace ∨ ∃ nodes, q.Sound nodes w ∧ w.initialSearchDone = true

lemma Searchable.exists_firstBatch (h : q.Searchable) (toVisit : StdPriorityQueue (Neighbor F)) :
    ∃ dists w', q.firstBatch toVisit q.workspace = some (dists, w') ∧
      q.Sound dists w' ∧ w'.initialSearchDone = true := by
  rcases h.graph with hw | hempty
  · obtain ⟨nearest, hnearest, -⟩ := HnswSearcher.returns_descend (s := q.searcher) hw
    obtain ⟨st, -, hst⟩ := FaissHnswIterator.exists_firstSearch toVisit hw hnearest
    exact ⟨_, _, hst.batch_eq, hst.sound, rfl⟩
  · have hbatch : q.firstBatch toVisit q.workspace
        = some ([], { q.workspace with initialSearchDone := true }) :=
      if_pos hempty.entryPoint_eq
    exact ⟨_, _, hbatch, (q.sound_workspace).firstBatch rfl hbatch, rfl⟩

omit [LinearOrder F] in
lemma Searchable.readable (h : q.Searchable) : q.Readable := by
  rcases h.graph with hw | hempty
  · exact FaissHnswIterator.readable_of_wellFormed hw
  · intro v hv
    have hnone : q.searcher.ntotal = 0 := congrArg length hempty.levels_eq
    omega

omit [LinearOrder F] in
lemma remaining_workspace : q.workspace.remaining = q.searcher.ntotal := by
  simp [FaissHnswIterator.Workspace.remaining, FaissHnswIterator.workspace]

lemma Searchable.exists_nextBatch (h : q.Searchable) (toVisit : StdPriorityQueue (Neighbor F))
    {w : FaissHnswIterator.Workspace F} (hw : q.Running w) :
    ∃ batch w', q.nextBatch toVisit w = .ok (batch, w') ∧ q.Running w' ∧
      batch.length + w'.remaining ≤ w.remaining := by
  rcases hw with rfl | ⟨nodes, hsound, hdone⟩
  · obtain ⟨dists, w', hbatch, hsound, hdone⟩ := h.exists_firstBatch toVisit
    obtain ⟨batch, hmap⟩ := hsound.exists_mapM h.labels (Subset.refl _)
    refine ⟨batch, w', FaissHnswIterator.nextBatch_eq_ok_iff.mpr ⟨dists, hbatch, hmap⟩,
      .inr ⟨dists, hsound, hdone⟩, ?_⟩
    rw [length_of_mapM hmap, remaining_workspace]
    exact hsound.length_add_remaining_le
  · obtain ⟨dists, batch, w', -, hbatch, -, hsound', hless, -⟩ :=
      hsound.exists_nextBatch hdone toVisit h.readable h.labels
    exact ⟨batch, w', hbatch, .inr ⟨_, hsound'⟩, hless⟩

/-- The iterator of a query delivers at most as many values as there are nodes. -/
theorem exists_delivers (h : q.Searchable) (heap : StdPriorityQueue (DistId F))
    (toVisit : StdPriorityQueue (Neighbor F)) :
    ∃ l, (q.annIterator heap toVisit).Delivers q.iterator l ∧
      l.length ≤ q.searcher.ntotal := by
  have hnextBatch : ∀ w, q.Running w → ∃ batch w', q.nextBatch toVisit w = .ok (batch, w') ∧
      q.Running w' ∧ batch.length + w'.remaining ≤ w.remaining :=
    fun _ hw => h.exists_nextBatch toVisit hw
  have hstart : q.iterator.queued + q.workspace.remaining = q.searcher.ntotal :=
    (zero_add _).trans remaining_workspace
  have hfirst : ∃ it, IndexIterator.updateNext heap q.params (q.nextBatch toVisit)
      q.rawDistance q.iterator = .ok it ∧ it.initialized = false ∧
        q.Running it.source ∧ it.queued + it.source.remaining ≤ _ :=
    IndexIterator.exists_updateNext heap q.rawDistance hnextBatch h.refines (.inl rfl) hstart.le
  obtain ⟨it, hit, -, hrunning, hless⟩ := hfirst
  have htotal := hless.trans hstart.le
  have hrest : ∃ l, (q.annIterator heap toVisit).Delivers { it with initialized := true } l ∧
      l.length ≤ it.queued + it.source.remaining :=
    IndexIterator.exists_delivers heap q.rawDistance hnextBatch h.refines rfl rfl hrunning
      htotal
  obtain ⟨l, hl, hlen⟩ := hrest
  exact ⟨l, IndexIterator.delivers_of_initialized heap q.rawDistance
    (bind_eq_ok.mpr ⟨it, hit, rfl⟩) rfl hl, hlen.trans htotal⟩

end HnswQuery

/-! ### Range search -/

section

variable {F : Type} [LinearOrder F] {cfg : RangeConfig F}

lemma task_of_delivers (hordered : cfg.retainIteratorOrder = true) (hk : cfg.rangeSearchK < 0)
    {it : AnnIterator F} {l : List (DistId F)} (hl : it.Delivers it.state l)
    (hfuel : l.length < fuel) :
    cfg.task bounds fuel it = .ok ((l.takeWhile fun e => !cfg.stops e.val).filter
      fun e => cfg.inRange e.val) := by
  rw [RangeConfig.task, if_pos hordered, RangeConfig.taskWithOrderedIterator,
    Cursor.loop_eq hl hfuel, RangeConfig.loopList_orderedTurn hk]
  rfl

variable [Neg F]

/-- **Range search in the order of the iterator.**  For every query it returns all that is in range
of what the iterator delivers when it is used up, if and only if nothing in range comes, for the
first time, after a value that ends the task. -/
theorem hnswRangeSearch_complete_iff (heap : StdPriorityQueue (DistId F))
    (toVisit : StdPriorityQueue (Neighbor F)) (bounds : StdPriorityQueue F) (cfg : RangeConfig F)
    (hordered : cfg.retainIteratorOrder = true) (hk : cfg.rangeSearchK < 0)
    (queries : List (HnswQuery F)) (fuel : ℕ)
    (hqueries : ∀ q ∈ queries, q.Searchable ∧ q.searcher.ntotal < fuel) :
    ∃ r, hnswRangeSearch heap toVisit bounds cfg fuel queries = .ok (.ok r) ∧
      ∀ (i : ℕ) (q : HnswQuery F), queries[i]? = some q →
        ∃ l, ∃ results : List (DistId F),
          (q.annIterator heap toVisit).Delivers q.iterator l ∧
          r.query i = some (results.map DistId.val, results.map DistId.id) ∧
          ((∀ e ∈ l, cfg.inRange e.val = true → e ∈ results) ↔ cfg.NothingLate l) := by
  have htask : ∀ q ∈ queries, ∃ l,
      (q.annIterator heap toVisit).Delivers q.iterator l ∧
      cfg.task bounds fuel (q.annIterator heap toVisit) =
        .ok ((l.takeWhile fun e => !cfg.stops e.val).filter fun e => cfg.inRange e.val) := by
    intro q hquery
    obtain ⟨hsearchable, hfuel⟩ := hqueries q hquery
    obtain ⟨l, hl, hlen⟩ := HnswQuery.exists_delivers hsearchable heap toVisit
    exact ⟨l, hl, task_of_delivers hordered hk hl (hlen.trans_lt hfuel)⟩
  have htasks : ∀ it ∈ queries.map (·.annIterator heap toVisit),
      ∃ results, cfg.task bounds fuel it = .ok results := by
    intro it hit
    obtain ⟨q, hquery, rfl⟩ := mem_map.mp hit
    obtain ⟨l, -, hl⟩ := htask q hquery
    exact ⟨_, hl⟩
  obtain ⟨r, hr, hget⟩ := exists_rangeSearch hk.ne htasks queries.length
  refine ⟨r, hr, fun i q hquery => ?_⟩
  obtain ⟨results, hresults, hri⟩ := hget i _ (by rw [getElem?_map, hquery]; rfl)
  obtain ⟨l, hl, htask'⟩ := htask q (mem_of_getElem? hquery)
  obtain rfl := ok_unique htask' hresults
  exact ⟨l, _, hl, hri, cfg.nothingLate_iff l⟩

end

/-! ### Three nodes in a row -/

/-- Nodes 0, 1 and 2 in a row, and room for one candidate. -/
def inARow (refineRatio : ℚ) (distances : List ℚ) : HnswQuery ℚ where
  hnsw := HnswSearcher.oneLevel 1 [[1], [2], [-1]] 0
  distance v := distances.getD v 0
  isSimilarityMetric := false
  bitset := { bits := fun _ => 0, numBits := 0 }
  ef := 1
  maxDist := FaissHnswIterator.floatMax
  refineRatio := refineRatio
  round := id
  rawDistance id := distances.getD id.toNat 0 + 1 / 4

lemma inARow_searchable (distances : List ℚ) (h : refineRatio = 0 ∨ refineRatio = 1 / 2) :
    (inARow refineRatio distances).Searchable where
  graph := .inl (HnswSearcher.oneLevel_wellFormed (by decide) (by decide))
  labels := ⟨fun _ hlabels => (by cases hlabels), fun _ hlabels => (by cases hlabels)⟩
  refines := h.imp_right fun hhalf => by
    subst hhalf
    refine ⟨?_, monotone_id, rfl, ?_⟩
    · show (0 : ℚ) < 1 / 2
      norm_num
    · show ((3 : ℕ) : ℚ) * (1 / 2) < 2 ^ 64
      norm_num

/-- What the iterator delivers, evaluated. -/
def drained (q : HnswQuery ℚ) (n : ℕ) : Option (List (DistId ℚ) × Bool) := do
  let e ← (IndexIterator.take .sorting q.params (q.nextBatch .sorting) q.rawDistance 0 n
    q.iterator).toOption
  let r ← (IndexIterator.hasNext .sorting q.params (q.nextBatch .sorting) q.rawDistance
    e.2).toOption
  return (e.1, r.1)

lemma delivers_of_drained (h : drained q n = some (l, false)) :
    (q.annIterator .sorting .sorting).Delivers q.iterator l := by
  obtain ⟨e, he, h⟩ := bind_eq_some_iff.mp h
  obtain ⟨⟨more, it⟩, hq, h⟩ := bind_eq_some_iff.mp h
  obtain ⟨rfl, rfl⟩ := Prod.mk.inj (some.inj h)
  exact IndexIterator.delivers_of_take (toOption_eq_some.mp he) (toOption_eq_some.mp hq)

def closerThan (radius : ℚ) : RangeConfig ℚ where
  theLargerTheCloser := false
  radius := radius
  rangeFilter := 0
  defaultRangeFilter := 0
  rangeSearchK := -1
  rangeSearchLevel := 0
  retainIteratorOrder := true

/-- With refine, and with node 2 outside of the radius: it comes last, and nothing is missed. -/
theorem hnswRangeSearch_complete_inARow : ∃ r,
    hnswRangeSearch .sorting .sorting .sorting (closerThan (3 / 2)) 4 [inARow (1 / 2) [0, 1, 2]]
        = .ok (.ok r) ∧
      ∃ results : List (DistId ℚ),
        ((inARow (1 / 2) [0, 1, 2]).annIterator .sorting .sorting).Delivers
          (inARow (1 / 2) [0, 1, 2]).iterator [⟨0, 1 / 4⟩, ⟨1, 5 / 4⟩, ⟨2, 9 / 4⟩] ∧
        r.query 0 = some (results.map DistId.val, results.map DistId.id) ∧
        ⟨0, 1 / 4⟩ ∈ results ∧ ⟨1, 5 / 4⟩ ∈ results := by
  obtain ⟨r, hr, hquery⟩ := hnswRangeSearch_complete_iff .sorting .sorting .sorting
    (closerThan (3 / 2)) rfl (by decide) [inARow (1 / 2) [0, 1, 2]] 4 fun q hmem => by
      rw [mem_singleton.mp hmem]
      exact ⟨inARow_searchable _ (.inr rfl), by decide⟩
  obtain ⟨l, results, hl, hresults, hiff⟩ := hquery 0 _ rfl
  have hdelivers : ((inARow (1 / 2) [0, 1, 2]).annIterator .sorting .sorting).Delivers
      (inARow (1 / 2) [0, 1, 2]).iterator [⟨0, 1 / 4⟩, ⟨1, 5 / 4⟩, ⟨2, 9 / 4⟩] :=
    delivers_of_drained (n := 4) (by decide +kernel)
  obtain rfl := hl.unique hdelivers
  have hall := hiff.mpr (((closerThan (3 / 2)).nothingLate_iff _).mp (by decide +kernel))
  exact ⟨r, hr, results, hl, hresults, hall _ (by simp) (by decide +kernel),
    hall _ (by simp) (by decide +kernel)⟩

/-- **Three nodes and one candidate**: the nearest node comes last, after one that is too far, and
is missed. -/
theorem orderedRangeSearch_misses_nearest :
    (inARow 0 [1, 2, 0]).Searchable ∧
      ((inARow 0 [1, 2, 0]).annIterator .sorting .sorting).Delivers (inARow 0 [1, 2, 0]).iterator
        [⟨0, 1⟩, ⟨1, 2⟩, ⟨2, 0⟩] ∧
      (closerThan (3 / 2)).inRange 0 = true ∧
      hnswRangeSearch .sorting .sorting .sorting (closerThan (3 / 2)) 4 [inARow 0 [1, 2, 0]] =
        .ok (.ok ⟨[1], [0], [0, 1]⟩) := by
  refine ⟨inARow_searchable _ (.inl rfl), delivers_of_drained (n := 4) (by decide +kernel),
    by decide +kernel, ?_⟩
  have hrun : (hnswRangeSearch .sorting .sorting .sorting (closerThan (3 / 2)) 4
      [inARow 0 [1, 2, 0]]).toOption.bind Except.toOption = some ⟨[1], [0], [0, 1]⟩ := by
    decide +kernel
  obtain ⟨r, hr, hr'⟩ := bind_eq_some_iff.mp hrun
  rw [toOption_eq_some.mp hr, toOption_eq_some.mp hr']

end Rvanns.Knowhere
