import Rvanns.Cpp.BreadthFirst
import Rvanns.Faiss.Equiv.HNSW
import Rvanns.Faiss.Layout.Rcm

/-!
# The layouts of a traversal

The breadth-first layout is a numbering, and so is the reverse Cuthill–McKee layout.  There the
search for the seed of a component comes to an end because each round finds a node farther away than
the last one, and a distance is less than the number of nodes.
-/

namespace Rvanns.Faiss

open Cpp List

section

variable {h : HNSW} {s : Traversal}

structure BetweenTraversals (n : ℕ) (s : Traversal) : Prop where
  inv : s.Inv n []
  queue : s.queue = []

lemma HNSW.WellFormed.returns_neighborIds (hw : h.WellFormed) (hnode : node < h.levels.length) :
    Returns (h.neighborIds node 0) fun l => ∀ u ∈ l, u < h.levels.length :=
  hw.neighborIds_spec hnode (hw.level_pos hnode)

def loopAndIsolated : HNSW := ⟨[0, 1], [1, 1, 1], [0, 1, 2, 3], [1, 1, -1], 0⟩

lemma loopAndIsolated_wellFormed : loopAndIsolated.WellFormed where
  cum_sorted := by decide
  levels_pos := by decide
  levels_lt := by decide
  blocks := ⟨[[1], [1], [-1]], by decide, by decide, by decide⟩
  ids_lt := by decide
  entry_nonneg := by decide
  entry_lt := by decide

lemma bfsTraversal_spec (hw : h.WellFormed) (hs : BetweenTraversals h.levels.length s)
    (hstart : start < h.levels.length) :
    Returns (bfsTraversal h 0 s start) fun s' => BetweenTraversals h.levels.length s' ∧
      s'.visited[start]? = some true ∧
      ∀ i : ℕ, s.visited[i]? = some true → s'.visited[i]? = some true := by
  obtain ⟨ms, queue, out⟩ := s
  obtain ⟨hinv, rfl⟩ := hs
  refine (Returns.getElem? (hinv.length.symm ▸ hstart)).bind fun seen hseen => ?_
  cases seen with
  | true => exact Returns.pure ⟨⟨hinv, rfl⟩, hseen, fun _ hi => hi⟩
  | false =>
    refine ((hinv.start hstart hseen).run ?_).mono ?_
    · exact fun _ node _ hnode => hw.returns_neighborIds hnode
    · rintro s' ⟨hinv', hqueue, hsub⟩
      refine ⟨⟨hinv', hqueue⟩, ?_, fun i hi => ?_⟩
      · exact (hinv'.visited_iff start).mpr (by simpa [hqueue] using hsub (by simp))
      · refine (hinv'.visited_iff i).mpr ?_
        have hout : i ∈ out := by simpa using (hinv.visited_iff i).mp hi
        simpa [hqueue] using hsub (by simp [hout])

lemma generateBFSPermutation_isNumbering (hw : h.WellFormed) :
    Returns (generateBFSPermutation h h.levels.length 0) (IsNumbering · h.levels.length) := by
  set n := h.levels.length with hn
  have hentry : h.entryPoint.toNat < n := by
    have := hw.entry_nonneg
    have := hw.entry_lt
    omega
  have hfresh : BetweenTraversals n ⟨List.replicate n false, [], []⟩ := by
    refine ⟨⟨by simp, by simp, fun i => ?_⟩, rfl⟩
    simp [List.getElem?_replicate]
  unfold generateBFSPermutation
  rw [if_pos hw.entry_nonneg]
  refine (bfsTraversal_spec hw hfresh hentry).bind fun s hs => ?_
  -- after turn `i` the nodes up to `i` are marked
  refine Returns.bind (P := fun s' => BetweenTraversals n s' ∧
    ∀ j < n, s'.visited[j]? = some true) ?_ ?_
  · refine .foldlM_range
      (P := fun i s' => BetweenTraversals n s' ∧ ∀ j < i, s'.visited[j]? = some true) n ?_
      ⟨hs.1, by omega⟩
    rintro i hi s' ⟨hbetween, hmarked⟩
    refine (Returns.getElem? (hbetween.inv.length.symm ▸ hi)).bind fun seen hseen => ?_
    have hlt : ∀ j < i + 1, j < i ∨ j = i := fun j hj => by omega
    cases seen with
    | true =>
      refine Returns.pure ⟨hbetween, fun j hj => ?_⟩
      rcases hlt j hj with hj | rfl
      · exact hmarked j hj
      · exact hseen
    | false =>
      refine (bfsTraversal_spec hw hbetween hi).mono fun s'' hs'' => ⟨hs''.1, fun j hj => ?_⟩
      rcases hlt j hj with hj | rfl
      · exact hs''.2.2 j (hmarked j hj)
      · exact hs''.2.1
  · rintro s' ⟨hbetween, hmarked⟩
    exact Returns.pure (hbetween.inv.perm_range hbetween.queue hmarked)

end

variable {n : ℕ} {g : List (List ℕ)}

/-! ### The undirected graph -/

structure IsGraph (n : ℕ) (g : List (List ℕ)) : Prop where
  length : g.length = n
  lt : ∀ row ∈ g, ∀ u ∈ row, u < n

lemma IsGraph.returns_getElem? (hg : IsGraph n g) (hi : i < n) :
    Returns g[i]? fun row => ∀ u ∈ row, u < n :=
  (Returns.getElem? (hg.length.symm ▸ hi)).mono fun _ hrow => hg.lt _ (mem_of_getElem? hrow)

lemma IsGraph.pushBackAt (hg : IsGraph n g) (hi : i < n) (hu : u < n) :
    Returns (pushBackAt g i u) (IsGraph n) := by
  refine (hg.returns_getElem? hi).bind fun row hrow => ?_
  refine .of_eq (wr_of_lt (hg.length.symm ▸ hi) _) ⟨by simp [hg.length], ?_⟩
  intro row' hrow' v hv
  rcases mem_or_eq_of_mem_set hrow' with hmem | rfl
  · exact hg.lt row' hmem v hv
  · exact forall_mem_concat.mpr ⟨hrow, hu⟩ v hv

lemma strictWeak_lt : StrictWeak fun a b : ℕ => decide (a < b) :=
  StrictWeak.of_key id fun a b => by simp

/-! ### Its edges -/

def level0Graph (h : HNSW) : SimpleGraph ℕ := SimpleGraph.fromRel fun u v => (u, v) ∈ h.edges 0

def Entered (done : List (ℕ × ℕ)) (g : List (List ℕ)) : Prop :=
  ∀ j w, w ∈ g.getD j [] ↔ (j, w) ∈ done ∨ (w, j) ∈ done

lemma mem_of_pushBackAt (h : pushBackAt g i u = some graph')
    (j w : ℕ) : w ∈ graph'.getD j [] ↔ w ∈ g.getD j [] ∨ j = i ∧ w = u := by
  obtain ⟨row, hrow, hset⟩ := Option.bind_eq_some_iff.mp h
  have hi := lt_length hrow
  rw [wr_of_lt hi] at hset
  cases hset
  rw [getD_eq_getElem?_getD, getD_eq_getElem?_getD]
  by_cases hj : i = j
  · subst hj
    rw [getElem?_set_self hi, hrow]
    simp
  · rw [getElem?_set_ne hj]
    simp [Ne.symm hj]

lemma Entered.addUndirected (hg : IsGraph n g) (h : Entered done g) (hi : i < n) (hu : u < n) :
    Returns (addUndirected i g u) fun graph' =>
      IsGraph n graph' ∧ Entered (done ++ [(i, u)]) graph' := by
  obtain ⟨graph₁, hpush, hg₁⟩ := hg.pushBackAt hi hu
  have hmem₁ := mem_of_pushBackAt hpush
  unfold Faiss.addUndirected
  rw [hpush]
  split
  · next hself =>
    refine .pure ⟨hg₁, fun j w => ?_⟩
    rw [hmem₁, h j w]
    simp only [mem_append, mem_singleton, Prod.mk.injEq]
    subst hself
    tauto
  · obtain ⟨graph₂, hpush₂, hg₂⟩ := hg₁.pushBackAt hu hi
    refine .of_eq hpush₂ ⟨hg₂, fun j w => ?_⟩
    rw [mem_of_pushBackAt hpush₂, hmem₁, h j w]
    simp only [mem_append, mem_singleton, Prod.mk.injEq]
    tauto

lemma HNSW.WellFormed.nodeEdges_zero {h : HNSW} (hw : h.WellFormed)
    (hi : i < h.levels.length) {ids : List ℕ} (hids : h.neighborIds i 0 = some ids) :
    h.nodeEdges 0 i = ids.map (i, ·) := by
  unfold HNSW.nodeEdges
  rw [if_pos (hw.level_pos hi), hids]
  rfl

lemma buildUndirectedLevel0Graph_entered (S : StdSort ℕ) {h : HNSW} (hw : h.WellFormed) :
    Returns (buildUndirectedLevel0Graph S h h.levels.length) fun g =>
      IsGraph h.levels.length g ∧ Entered (h.edges 0) g := by
  refine .bind (P := fun g => IsGraph h.levels.length g
    ∧ Entered (h.edges 0) g) ?_ fun g hgraph => .pure ?_
  · refine .foldlM_range (P := fun k g => IsGraph h.levels.length g
      ∧ Entered ((range k).flatMap (h.nodeEdges 0)) g) _ ?_ ⟨⟨by simp, by simp⟩, ?_⟩
    · rintro i hi g ⟨hg, hentered⟩
      obtain ⟨ids, hids, hlt⟩ := hw.returns_neighborIds hi
      rw [hids, range_succ, flatMap_append, flatMap_singleton, hw.nodeEdges_zero hi hids]
      -- the edges of node `i`, one after the other
      refine .foldlM (P := fun pre graph' => IsGraph h.levels.length graph'
        ∧ Entered ((range i).flatMap (h.nodeEdges 0) ++ pre.map (i, ·)) graph') ids ?_
        ⟨hg, by simpa using hentered⟩
      rintro pre u post heq graph' ⟨hg', hentered'⟩
      have hturn := hentered'.addUndirected hg' hi (hlt u (by simp [heq]))
      rw [append_assoc] at hturn
      rwa [map_append]
    · intro j w
      simp
  · obtain ⟨hg, hentered⟩ := hgraph
    refine ⟨⟨by simp [hg.length], fun row hrow u hu => ?_⟩, fun j w => ?_⟩
    · obtain ⟨row', hrow', rfl⟩ := mem_map.mp hrow
      rw [mem_unique, (S.perm strictWeak_lt row').mem_iff] at hu
      exact hg.lt row' hrow' u hu
    · rw [← hentered j w, getD_eq_getElem?_getD, getD_eq_getElem?_getD, getElem?_map]
      cases g[j]? with
      | none => rfl
      | some row =>
        rw [Option.map_some, Option.getD_some, Option.getD_some, mem_unique,
          (S.perm strictWeak_lt row).mem_iff]

lemma buildUndirectedLevel0Graph_isGraph (S : StdSort ℕ) (hw : h.WellFormed) :
    Returns (buildUndirectedLevel0Graph S h h.levels.length) (IsGraph h.levels.length) :=
  (buildUndirectedLevel0Graph_entered S hw).mono fun _ hgraph => hgraph.1

lemma strictWeak_degreeThenId (g : List (List ℕ)) : StrictWeak (degreeThenId g) := by
  refine StrictWeak.of_key (fun i => toLex (degree g i, i)) fun a b => ?_
  rw [Prod.Lex.toLex_lt_toLex]
  unfold degreeThenId
  split <;> simp <;> omega

/-! ### The seed of a component -/

variable {ms : List Bool}

structure IsFresh (n : ℕ) (ms : List Bool) (i : ℕ) : Prop where
  lt : i < n
  unmarked : ms[i]? = some false

def IsSeed (n : ℕ) (ms : List Bool) (k : ℕ) : Option ℕ → Prop
  | none => ∀ i < k, ms[i]? = some true
  | some b => IsFresh n ms b

lemma chooseLowDegreeSeed_spec (hg : IsGraph n g) (hm : ms.length = n) :
    Returns (chooseLowDegreeSeed g ms) (IsSeed n ms n) := by
  unfold chooseLowDegreeSeed
  rw [hg.length]
  refine .foldlM_range (P := IsSeed n ms) n (fun k hk best hbest => ?_) (by simp [IsSeed])
  refine (Returns.getElem? (hm.symm ▸ hk)).bind fun seen hseen => ?_
  cases seen with
  | true =>
    refine Returns.pure ?_
    cases best with
    | none =>
      intro i hi
      rcases Nat.lt_succ_iff_lt_or_eq.mp hi with hi | rfl
      · exact hbest i hi
      · exact hseen
    | some b => exact hbest
  | false =>
    have hk' : IsFresh n ms k := ⟨hk, hseen⟩
    cases best with
    | none => exact Returns.pure hk'
    | some b =>
      refine Returns.pure ?_
      split
      · exact hk'
      · exact hbest

namespace DistanceSearch

def met (s : DistanceSearch) : ℕ := s.distance.countP fun d => decide (0 ≤ d)

def todo (n : ℕ) (s : DistanceSearch) : ℕ := n - s.met + s.queue.length

structure Inv (n : ℕ) (ms : List Bool) (s : DistanceSearch) : Prop where
  length : s.distance.length = n
  fresh : ∀ i ∈ s.queue, IsFresh n ms i
  measured : ∀ i ∈ s.queue, ∃ d, s.distance[i]? = some d ∧ 0 ≤ d
  far : ∀ i ∈ s.farthest, IsFresh n ms i
  bound : ∀ (i : ℕ) (d : ℤ), s.distance[i]? = some d → d < s.met
  eccentricity : s.eccentricity < s.met

variable {s : DistanceSearch}

section

variable (hs : s.Inv n ms)

include hs

lemma Inv.met_le : s.met ≤ n := hs.length ▸ countP_le_length

lemma Inv.meet {u : ℕ} (hu : IsFresh n ms u) {d old : ℤ} (hd0 : 0 ≤ d)
    (hd : d < s.met) (hold : s.distance[u]? = some old) (hneg : ¬ 0 ≤ old) {s' : DistanceSearch}
    (heq : s' = { s with
      distance := s.distance.set u (d + 1)
      queue := s.queue ++ [u] }) : s'.Inv n ms ∧ s'.met = s.met + 1 := by
  have hu' := lt_length hold
  have hmet : s'.met = s.met + 1 := by
    subst heq
    exact countP_set_add_one hold (by simpa using hneg) (by simp; omega)
  have hdist : ∀ i, s'.distance[i]? = if u = i then some (d + 1) else s.distance[i]? := by
    intro i
    subst heq
    exact getElem?_set_of_lt hu' (d + 1) i
  refine ⟨⟨?_, ?_, ?_, ?_, ?_, ?_⟩, hmet⟩
  · simp [heq, hs.length]
  · rw [heq]
    exact forall_mem_concat.mpr ⟨hs.fresh, hu⟩
  · intro i hi
    rw [hdist]
    split
    · exact ⟨d + 1, rfl, by omega⟩
    · next hui =>
      rw [heq] at hi
      rcases mem_append.mp hi with hi | hi
      · exact hs.measured i hi
      · exact absurd (mem_singleton.mp hi).symm hui
  · rw [heq]
    exact hs.far
  · intro i d' hd'
    rw [hdist] at hd'
    split at hd'
    · cases hd'
      omega
    · have := hs.bound i d' hd'
      omega
  · have := hs.eccentricity
    rw [hmet, heq]
    push_cast
    omega

lemma Inv.measure (hm : ms.length = n) {u : ℕ} (hu : u < n) {d : ℤ} (hd0 : 0 ≤ d) (hd : d < s.met) :
    Returns (measure ms d s u) fun s' =>
      s'.Inv n ms ∧ d < s'.met ∧ s'.todo n = s.todo n := by
  refine (Returns.getElem? (hm.symm ▸ hu)).bind fun seen hseen => ?_
  cases seen with
  | true => exact Returns.pure ⟨hs, hd, rfl⟩
  | false =>
    refine (Returns.getElem? (hs.length.symm ▸ hu)).bind fun old hold => ?_
    split
    · exact Returns.pure ⟨hs, hd, rfl⟩
    · next hneg =>
      obtain ⟨hinv, hmet⟩ := hs.meet ⟨hu, hseen⟩ hd0 hd hold hneg rfl
      refine Returns.pure ⟨hinv, by omega, ?_⟩
      -- a node less to be met, a node more in the queue
      have hle := hinv.met_le
      rw [todo, todo, length_append, length_singleton]
      omega

lemma Inv.measureAll (hm : ms.length = n) {l : List ℕ}
    (hl : ∀ u ∈ l, u < n) {d : ℤ} (hd0 : 0 ≤ d) (hd : d < s.met) :
    Returns (l.foldlM (Faiss.measure ms d) s) fun s' => s'.Inv n ms ∧ s'.todo n
      = s.todo n := by
  refine .mono (P := fun s' => s'.Inv n ms ∧ d < s'.met ∧ s'.todo n = s.todo n) ?_
    fun s' hs' => ⟨hs'.1, hs'.2.2⟩
  refine .foldlM_inv l (fun u hu t ht => ?_) ⟨hs, hd, rfl⟩
  obtain ⟨hinv, hdt, htodo⟩ := ht
  exact (hinv.measure hm (hl u hu) hd0 hdt).mono fun t' ht' =>
    ⟨ht'.1, ht'.2.1, ht'.2.2.trans htodo⟩

end

lemma Inv.run (hg : IsGraph n g) (hm : ms.length = n) (hs : s.Inv n ms) {fuel : ℕ}
    (hfuel : s.todo n < fuel) :
    Returns (whileLoop (distanceTurn g ms) fuel s) fun s' =>
      (∀ i ∈ s'.farthest, IsFresh n ms i) ∧ s'.eccentricity < n := by
  refine .whileLoop (P := fun s : DistanceSearch => s.Inv n ms) (todo n) ?_ hs hfuel
  intro t ht
  rw [distanceTurn]
  cases hq : t.queue with
  | nil =>
    refine .pure ⟨ht.far, ?_⟩
    have := ht.eccentricity
    have := ht.met_le
    omega
  | cons node rest =>
    have hnode : node ∈ t.queue := by simp [hq]
    obtain ⟨d, hd, hd0⟩ := ht.measured node hnode
    have hdmet := ht.bound node d hd
    refine .bind_eq hd ?_
    -- a node farther than all before it starts a new list
    set ecc : ℤ × List ℕ := if t.eccentricity < d then (d, []) else (t.eccentricity, t.farthest)
      with hecc
    have hecc1 : ecc.1 < t.met := by
      rw [hecc]
      split
      · exact hdmet
      · exact ht.eccentricity
    have hold : ∀ i ∈ ecc.2, IsFresh n ms i := by
      rw [hecc]
      split
      · simp
      · exact ht.far
    have hecc2 : ∀ i ∈ (if d = ecc.1 then ecc.2 ++ [node] else ecc.2), IsFresh n ms i := by
      intro i hi
      split at hi
      · exact forall_mem_concat.mpr ⟨hold, ht.fresh node hnode⟩ i hi
      · exact hold i hi
    have hpop : Inv n ms ⟨t.distance, rest, ecc.1,
        if d = ecc.1 then ecc.2 ++ [node] else ecc.2⟩ :=
      ⟨ht.length, fun i hi => ht.fresh i (by simp [hq, hi]),
        fun i hi => ht.measured i (by simp [hq, hi]), hecc2, ht.bound, hecc1⟩
    refine (hg.returns_getElem? (ht.fresh node hnode).lt).bind fun neighbors hlt => ?_
    refine .bind (hpop.measureAll hm hlt hd0 hdmet) fun t' ht' => .pure ⟨ht'.1, ?_⟩
    rw [ht'.2, todo, todo, hq]
    exact Nat.lt_succ_self _

end DistanceSearch

lemma leastDegree_mem (g : List (List ℕ)) (first : ℕ) (others : List ℕ) :
    leastDegree g first others ∈ first :: others := by
  unfold leastDegree
  induction others generalizing first with
  | nil => simp
  | cons candidate others ih =>
    rw [foldl_cons]
    split
    · exact mem_cons_of_mem _ (ih candidate)
    · have hmem := ih first
      simp only [mem_cons] at hmem ⊢
      exact hmem.imp_right .inr

lemma DistanceSearch.Inv.init (hc : IsFresh n ms current) {s : DistanceSearch}
    (hs : s = ⟨(replicate n (-1)).set current 0, [current], 0, []⟩) :
    s.Inv n ms ∧ s.met = 1 := by
  have hget : ∀ (i : ℕ) (d : ℤ), s.distance[i]? = some d → d ≤ 0 := by
    intro i d hd
    have hmem : d ∈ (replicate n (-1 : ℤ)).set current 0 := by
      rw [hs] at hd
      exact mem_of_getElem? hd
    rcases mem_or_eq_of_mem_set hmem with hmem | rfl
    · have := (mem_replicate.mp hmem).2
      omega
    · exact le_rfl
  have hmet : s.met = 1 := by
    have hold : (replicate n (-1 : ℤ))[current]? = some (-1) := by simp [hc.lt]
    rw [hs, DistanceSearch.met, countP_set_add_one hold (by decide) (by decide)]
    simp [countP_replicate]
  refine ⟨⟨by simp [hs], ?_, ?_, by simp [hs], ?_, by rw [hmet]; simp [hs]⟩, hmet⟩
  · intro i hi
    rw [hs] at hi
    exact mem_singleton.mp hi ▸ hc
  · intro i hi
    rw [hs] at hi ⊢
    rw [mem_singleton.mp hi]
    exact ⟨0, by simp [hc.lt], le_rfl⟩
  · intro i d hd
    have := hget i d hd
    omega

/-- **The seed stays in its component**, and the search for it ends: in every round but the last one
the eccentricity grows. -/
theorem choosePseudoPeripheralSeed_spec (hg : IsGraph n g) (hm : ms.length = n)
    (hstart : IsFresh n ms start) :
    Returns (choosePseudoPeripheralSeed g start ms) (IsFresh n ms) := by
  refine .whileLoop (P := fun s : ℕ × ℤ => IsFresh n ms s.1 ∧ -1 ≤ s.2 ∧ s.2 < n)
    (fun s => (n - s.2).toNat) ?_ ⟨hstart, le_rfl, by omega⟩ ?_
  · rintro ⟨current, previous⟩ ⟨hc, hlow, hhigh⟩
    have hlt : current < (replicate g.length (-1 : ℤ)).length := by
      simpa [hg.length] using hc.lt
    refine .bind_eq (wr_of_lt hlt 0) ?_
    obtain ⟨hinit, hmet⟩ := DistanceSearch.Inv.init hc rfl
    rw [hg.length]
    refine .bind (hinit.run hg hm ?_) ?_
    · have := hc.lt
      rw [DistanceSearch.todo, length_singleton]
      omega
    · rintro found ⟨hfar, hecc⟩
      cases hf : found.farthest with
      | nil => exact .pure hc
      | cons first others =>
        have hnext : IsFresh n ms (leastDegree g first others) :=
          hfar _ (hf ▸ leastDegree_mem g first others)
        show Returns (if _ then _ else if _ then _ else _) _
        split
        · exact .pure hc
        · next hgrow =>
          split
          · exact .pure hc
          · refine .pure ⟨⟨hnext, ?_, hecc⟩, ?_⟩
            · omega
            · omega
  · rw [hg.length]
    omega

/-! ### The permutation -/

lemma rcmNeighbors_spec (S : StdSort ℕ) (hg : IsGraph n g)
    (hentered : Entered (h.edges 0) g) (hm : ms.length = n) (hnode : ms[node]? = some true) :
    Returns (rcmNeighbors S g ms node) (Traversal.Looks (level0Graph h) ms node) := by
  have hlt := lt_length hnode
  obtain ⟨row, hrow⟩ : ∃ row, g[node]? = some row :=
    ⟨_, getElem?_eq_getElem (by rw [hg.length, ← hm]; exact hlt)⟩
  have hmem : ∀ u, u ∈ row ↔ (node, u) ∈ h.edges 0 ∨ (u, node) ∈ h.edges 0 := by
    intro u
    rw [← hentered node u, getD_eq_getElem?_getD, hrow, Option.getD_some]
  have hrowlt : ∀ u ∈ row, u < ms.length := fun u hu =>
    hm.symm ▸ hg.lt row (mem_of_getElem? hrow) u hu
  refine .bind_eq hrow ?_
  refine Returns.bind (P := fun buffer => buffer = row.filter (ms[·]? = some false)) ?_ ?_
  · refine .foldlM (P := fun pre buffer => buffer = pre.filter (ms[·]? = some false)) row ?_ rfl
    rintro pre u post heq _ rfl
    refine (Returns.getElem? (hrowlt u (by simp [heq]))).bind fun seen hseen => Returns.pure ?_
    rw [filter_append]
    cases seen with
    | true => simp [hseen]
    | false => simp [hseen]
  · rintro _ rfl
    refine Returns.pure ?_
    have hsorted : ∀ u, u ∈ S.run (degreeThenId g) (row.filter (ms[·]? = some false)) ↔
        u ∈ row ∧ ms[u]? = some false := by
      intro u
      rw [(S.perm (strictWeak_degreeThenId g) _).mem_iff, mem_filter, decide_eq_true_iff]
    refine ⟨fun u hu => hrowlt u ((hsorted u).mp hu).1, fun u hu => ?_, fun u hadj => ?_⟩
    · obtain ⟨hu', hfree⟩ := (hsorted u).mp hu
      refine (SimpleGraph.fromRel_adj _ _ _).mpr ⟨?_, (hmem u).mp hu'⟩
      rintro rfl
      rw [hnode] at hfree
      simp at hfree
    · obtain ⟨-, hedge⟩ := (SimpleGraph.fromRel_adj _ _ _).mp hadj
      have hu := (hmem u).mpr hedge
      obtain ⟨seen, hseen⟩ : ∃ seen, ms[u]? = some seen := ⟨_, getElem?_eq_getElem (hrowlt u hu)⟩
      cases seen with
      | true => exact Or.inl hseen
      | false => exact Or.inr ((hsorted u).mpr ⟨hu, hseen⟩)

/-! ### Components -/

def marksOf (n : ℕ) (l : List ℕ) : List Bool := (range n).map fun i => decide (i ∈ l)

lemma eq_marksOf (hm : ms.length = n)
    (h : ∀ i : ℕ, ms[i]? = some true ↔ i ∈ l) : ms = marksOf n l := by
  apply ext_getElem?
  intro i
  rw [marksOf, getElem?_map]
  by_cases hi : i < n
  · obtain ⟨seen, hseen⟩ : ∃ seen, ms[i]? = some seen := ⟨_, getElem?_eq_getElem (hm.symm ▸ hi)⟩
    have hiff := h i
    cases seen <;> simp_all
  · rw [getElem?_eq_none (by omega), getElem?_eq_none (by rw [length_range]; omega)]
    rfl

structure IsBreadthFirst (G : SimpleGraph ℕ) (seed : ℕ) (c : List ℕ) : Prop where
  first : c.head? = some seed
  mem_iff : ∀ v, v ∈ c ↔ G.Reachable seed v
  sorted : c.Pairwise fun u v => G.dist seed u ≤ G.dist seed v

def Traversed (n : ℕ) (h : HNSW) (g : List (List ℕ)) (comps : List (List ℕ)) : Prop :=
  ∀ pre c post, comps = pre ++ c :: post → ∃ start seed,
    chooseLowDegreeSeed g (marksOf n pre.flatten) = some (some start)
    ∧ choosePseudoPeripheralSeed g start (marksOf n pre.flatten) = some seed
    ∧ IsBreadthFirst (level0Graph h) seed c

abbrev BetweenComponents (n : ℕ) (s : List Bool × List ℕ) : Prop :=
  Traversal.Inv n s.2 ⟨s.1, [], []⟩

def Wrote (n : ℕ) (h : HNSW) (g : List (List ℕ)) (perm : List ℕ) : Prop :=
  ∃ comps, perm = (comps.map List.reverse).flatten ∧ Traversed n h g comps

lemma mem_flatten_map_reverse {comps : List (List ℕ)} :
    v ∈ (comps.map reverse).flatten ↔ v ∈ comps.flatten := by
  rw [mem_flatten, mem_flatten]
  constructor
  · rintro ⟨l, hl, hv⟩
    obtain ⟨c, hc, rfl⟩ := mem_map.mp hl
    exact ⟨c, hc, mem_reverse.mp hv⟩
  · rintro ⟨c, hc, hv⟩
    exact ⟨c.reverse, mem_map_of_mem hc, mem_reverse.mpr hv⟩

lemma Traversed.mem_of_reachable (ht : Traversed n h g comps) (hv : v ∈ comps.flatten)
    (hreach : (level0Graph h).Reachable v w) : w ∈ comps.flatten := by
  obtain ⟨c, hc, hvc⟩ := mem_flatten.mp hv
  obtain ⟨pre, post, heq⟩ := append_of_mem hc
  obtain ⟨start, seed, -, -, hbf⟩ := ht pre c post heq
  exact mem_flatten.mpr ⟨c, hc, (hbf.mem_iff w).mpr (((hbf.mem_iff v).mp hvc).trans hreach)⟩

lemma Traversed.append (ht : Traversed n h g comps)
    (hstart : chooseLowDegreeSeed g (marksOf n comps.flatten) = some (some start))
    (hseed : choosePseudoPeripheralSeed g start (marksOf n comps.flatten) = some seed)
    (hbf : IsBreadthFirst (level0Graph h) seed c) : Traversed n h g (comps ++ [c]) := by
  intro pre d post heq
  rcases eq_nil_or_concat post with rfl | ⟨post, last, rfl⟩
  · -- the last component
    obtain ⟨rfl, hlast⟩ := append_inj' heq rfl
    cases hlast
    exact ⟨start, seed, hstart, hseed, hbf⟩
  · rw [concat_eq_append, ← cons_append, ← append_assoc] at heq
    exact ht pre d post (append_inj' heq rfl).1

lemma rcmTurn_spec (S : StdSort ℕ) {h : HNSW} (hg : IsGraph n g)
    (hentered : Entered (h.edges 0) g) (hs : BetweenComponents n s) (hwrote : Wrote n h g s.2) :
    Returns (rcmTurn S n g s) (Turn.Meets
      (fun s' => (BetweenComponents n s' ∧ Wrote n h g s'.2) ∧ n - s'.2.length < n - s.2.length)
      (fun perm => IsNumbering perm n ∧ Wrote n h g perm)) := by
  obtain ⟨ms, perm⟩ := s
  show Returns (if _ then _ else _) _
  split
  · next hlen =>
    obtain ⟨comps, hperm, htraversed⟩ := hwrote
    obtain ⟨best, hchoose, hbest⟩ := chooseLowDegreeSeed_spec hg hs.length
    have hmarks : ms = marksOf n comps.flatten := by
      refine eq_marksOf hs.length fun i => ?_
      have hiff := hs.visited_iff i
      simp only [append_nil] at hiff
      dsimp only at hperm
      rw [hiff, hperm, mem_flatten_map_reverse]
    rw [hchoose]
    cases best with
    | none =>
      -- no fresh node is left
      refine .pure ⟨?_, comps, hperm, htraversed⟩
      simpa [IsNumbering] using hs.perm_range rfl hbest
    | some start =>
      obtain ⟨seed, hpick, hseed⟩ := choosePseudoPeripheralSeed_spec hg hs.length hbest
      have hfresh : seed ∉ perm := by
        have hiff := hs.visited_iff seed
        rw [hseed.unmarked] at hiff
        simpa using hiff
      have hbefore : ∀ v ∈ perm, ¬ (level0Graph h).Reachable seed v := by
        intro v hv hreach
        apply hfresh
        dsimp only at hperm
        rw [hperm, mem_flatten_map_reverse] at hv ⊢
        exact htraversed.mem_of_reachable hv hreach.symm
      show Returns (choosePseudoPeripheralSeed g start ms >>= _) _
      rw [hpick]
      show Returns (wr ms seed true >>= _) _
      refine .bind_eq (wr_of_lt (hs.length.symm ▸ hseed.lt) true) ?_
      refine .bind ((Traversal.layered_start (level0Graph h) seed _).run
        (hs.start hseed.lt hseed.unmarked) hbefore
        fun ms node hm hnode => rcmNeighbors_spec S hg hentered hm hnode) ?_
      rintro t ⟨hinv, hlayered, hqueue⟩
      have hout : t.out ++ t.queue = t.out := by rw [hqueue, append_nil]
      have hbf : IsBreadthFirst (level0Graph h) seed t.out :=
        ⟨hout ▸ hlayered.first, fun v => hlayered.mem_out_iff hqueue, hout ▸ hlayered.sorted⟩
      have hpos : 0 < t.out.length :=
        length_pos_of_mem ((hbf.mem_iff seed).mpr (SimpleGraph.Reachable.refl seed))
      refine .pure ⟨⟨⟨hinv.length, ?_, fun i => ?_⟩, comps ++ [t.out], ?_, ?_⟩, ?_⟩
      · have hnd := hinv.nodup
        simp only [hqueue, append_nil] at hnd ⊢
        exact ((reverse_perm t.out).append_left perm).nodup_iff.mpr hnd
      · rw [hinv.visited_iff i]
        simp [hqueue]
      · rw [map_append, flatten_append, ← hperm]
        simp
      · rw [hmarks] at hchoose hpick
        exact htraversed.append hchoose hpick hbf
      · show n - (perm ++ t.out.reverse).length < n - perm.length
        rw [length_append, length_reverse]
        omega
  · next hlen =>
    refine .pure ⟨?_, hwrote⟩
    have hnd : perm.Nodup := by simpa using hs.nodup
    have hlt : ∀ i ∈ perm, i < n := fun i hi => hs.lt_of_mem (by simpa using hi)
    exact IsNumbering.of_length_le hnd hlt (by omega)

lemma rcmLoop_spec (S : StdSort ℕ) (hg : IsGraph n g) (hentered : Entered (h.edges 0) g) :
    Returns (whileLoop (rcmTurn S n g) (n + 1) (replicate n false, []))
      fun perm => IsNumbering perm n ∧ Wrote n h g perm := by
  refine .whileLoop
    (P := fun s => BetweenComponents n s ∧ Wrote n h g s.2) (fun s => n - s.2.length)
    (fun s hs => rcmTurn_spec S hg hentered hs.1 hs.2) ⟨⟨by simp, by simp, fun i => ?_⟩, [], rfl,
      ?_⟩ ?_
  · simp [getElem?_replicate]
  · intro pre c post heq
    exact absurd heq.symm (by simp)
  · omega

lemma generateRCMPermutation_isNumbering (S : StdSort ℕ) (hw : h.WellFormed) :
    Returns (generateRCMPermutation S h h.levels.length) (IsNumbering · h.levels.length) := by
  unfold generateRCMPermutation
  split
  · next hzero =>
    rw [hzero]
    exact .pure (.refl _)
  · refine (buildUndirectedLevel0Graph_entered S hw).bind fun g hgraph => ?_
    exact (rcmLoop_spec S hgraph.1 hgraph.2).mono fun _ hperm => hperm.1

/-- **The reverse Cuthill–McKee layout**: the permutation numbers the nodes and consists of the
connected components, one after the other.  Each is written in reverse; before, it is in the order
of the distances from its seed. -/
theorem generateRCMPermutation_components (S : StdSort ℕ) {h : HNSW} (hw : h.WellFormed) :
    ∃ g perm comps, buildUndirectedLevel0Graph S h h.levels.length = some g
      ∧ generateRCMPermutation S h h.levels.length = some perm
      ∧ IsNumbering perm h.levels.length ∧ perm = (comps.map List.reverse).flatten
      ∧ Traversed h.levels.length h g comps := by
  obtain ⟨g, hgraph, hg, hentered⟩ := buildUndirectedLevel0Graph_entered S hw
  obtain ⟨perm, hperm, hnumbering, comps, heq, htraversed⟩ := rcmLoop_spec S hg hentered
  refine ⟨g, perm, comps, hgraph, ?_, hnumbering, heq, htraversed⟩
  have hpos : h.levels.length ≠ 0 := by
    have hnonneg := hw.entry_nonneg
    have hlt := hw.entry_lt
    omega
  unfold generateRCMPermutation
  rw [if_neg hpos, hgraph]
  exact hperm

theorem generateRCMPermutation_loopAndIsolated : ∃ g perm comps,
    buildUndirectedLevel0Graph StdSort.insertion loopAndIsolated 3 = some g
      ∧ generateRCMPermutation StdSort.insertion loopAndIsolated 3 = some perm
      ∧ IsNumbering perm 3 ∧ perm = (comps.map List.reverse).flatten
      ∧ Traversed 3 loopAndIsolated g comps :=
  generateRCMPermutation_components StdSort.insertion loopAndIsolated_wellFormed

end Rvanns.Faiss
