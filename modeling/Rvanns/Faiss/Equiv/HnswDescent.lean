import Rvanns.Faiss.Equiv.HnswEvaluate

/-!
# The greedy descent

On every level the search moves to a neighbour that is nearer, until there is none.
-/

namespace Rvanns.Faiss.HnswSearcher

open Cpp List

variable {D : Type} [LinearOrder D] {s : HnswSearcher D} {n n' prev : Nearest D} {v level : ℕ}

/-- A node of the graph, with its distance. -/
structure Nearest.Valid (s : HnswSearcher D) (n : Nearest D) : Prop where
  lt_ntotal : n.node < s.ntotal
  distance_eq : n.distance = s.qdis n.node

omit [LinearOrder D] in
lemma distance_eq_some_iff : s.distance v = some dis ↔ v < s.ntotal ∧ s.qdis v = dis := by
  unfold distance
  split_ifs with h <;> simp [h]

/-- What looking at one neighbour does. -/
lemma visitNeighbor_eq_some_iff : s.visitNeighbor n v = some n' ↔
      v < s.ntotal ∧ n' = if s.qdis v < n.distance then ⟨v, s.qdis v⟩ else n := by
  unfold visitNeighbor
  by_cases hv : v < s.ntotal
  · simp [distance_of_lt hv, hv, eq_comm]
  · simp [distance, hv]

lemma visitNeighbor_valid (hn : n.Valid s) (h : s.visitNeighbor n v = some n') : n'.Valid s := by
  obtain ⟨hv, rfl⟩ := visitNeighbor_eq_some_iff.mp h
  split_ifs
  · exact ⟨hv, rfl⟩
  · exact hn

lemma greedyTurn_valid (hprev : prev.Valid s)
    (h : s.greedyTurn level prev = some t) : t.Meets (Nearest.Valid s) (Nearest.Valid s) := by
  obtain ⟨ids, -, h⟩ := Option.bind_eq_some_iff.mp h
  obtain ⟨nearest, hnearest, h⟩ := Option.bind_eq_some_iff.mp h
  have hvalid := foldlM_eq_some (fun _ _ _ hs ht => visitNeighbor_valid hs ht) hprev hnearest
  rw [← Option.some.inj h]
  split_ifs <;> exact hvalid

lemma greedyUpdateNearest_valid (hn : n.Valid s)
    (h : s.greedyUpdateNearest n level = some n') : n'.Valid s :=
  whileLoop_eq_some (fun _ _ hs ht => greedyTurn_valid hs ht) hn h

lemma descend_valid (h : s.descend = some n) : n.Valid s := by
  obtain ⟨entry, -, h⟩ := Option.bind_eq_some_iff.mp h
  obtain ⟨dis, hdis, h⟩ := Option.bind_eq_some_iff.mp h
  obtain ⟨hlt, hdis⟩ := distance_eq_some_iff.mp hdis
  have hstart : Nearest.Valid s ⟨entry, dis⟩ := ⟨hlt, hdis.symm⟩
  exact foldlM_eq_some (fun _ _ _ hs ht => greedyUpdateNearest_valid hs ht) hstart h

/-- A node that is on a level, with its distance. -/
structure Nearest.OnLevel (s : HnswSearcher D) (level : ℕ) (n : Nearest D) : Prop
    extends n.Valid s where
  level_lt : level < s.hnsw.levels.getD n.node 0

omit [LinearOrder D] in
lemma Nearest.OnLevel.mono (h : n.OnLevel s level) (hle : level' ≤ level) : n.OnLevel s level' :=
  ⟨h.toValid, hle.trans_lt h.level_lt⟩

def nearer (s : HnswSearcher D) (n : Nearest D) : ℕ :=
  (List.range s.ntotal).countP (s.qdis · < n.distance)

lemma nearer_le (s : HnswSearcher D) (n : Nearest D) : s.nearer n ≤ s.ntotal := by
  have hle := countP_le_length (p := (s.qdis · < n.distance)) (l := List.range s.ntotal)
  rwa [length_range] at hle

lemma nearer_lt (hn : n.Valid s) (hlt : n.distance < prev.distance) :
    s.nearer n < s.nearer prev := by
  -- `n` itself is nearer than `prev`, but not nearer than `n`
  have hsub : ∀ v, (decide (s.qdis v < n.distance) && decide (s.qdis v < prev.distance))
      = decide (s.qdis v < n.distance) := by
    intro v
    rw [← Bool.decide_and, decide_eq_decide, and_iff_left_iff_imp]
    exact fun hv => hv.trans hlt
  unfold nearer
  rw [countP_eq_length_filter, countP_eq_length_filter, ← filter_congr (fun v _ => hsub v),
    ← filter_filter]
  apply length_filter_lt_length_iff_exists.mpr
  refine ⟨n.node, ?_, ?_⟩
  · simpa [hn.lt_ntotal, ← hn.distance_eq] using hlt
  · simp [← hn.distance_eq]

variable (hw : s.hnsw.WellFormed)

include hw

lemma returns_greedyTurn (hprev : prev.OnLevel s level) : Returns (s.greedyTurn level prev)
      (Turn.Meets (fun n => n.OnLevel s level ∧ s.nearer n < s.nearer prev)
        (Nearest.OnLevel s level)) := by
  obtain ⟨ids, hids, hlt⟩ := hw.graph.neighborIds_spec hprev.lt_ntotal hprev.level_lt
  have hlevel := hw.neighbors_on_level _ level ids hprev.lt_ntotal hprev.level_lt hids
  refine (Returns.of_eq hids rfl).bind fun ids' hids' => ?_
  subst hids'
  have hfold : Returns (ids.foldlM s.visitNeighbor prev) fun n =>
      n.OnLevel s level ∧ (n = prev ∨ n.distance < prev.distance) := by
    refine .foldlM_inv ids (fun v hv n hn => ?_) ⟨hprev, Or.inl rfl⟩
    obtain ⟨hon, hnear⟩ := hn
    refine Returns.of_eq (visitNeighbor_eq_some_iff.mpr ⟨hlt v hv, rfl⟩) ?_
    split_ifs with hless
    · refine ⟨⟨⟨hlt v hv, rfl⟩, hlevel v hv⟩, Or.inr ?_⟩
      rcases hnear with rfl | hnear
      · exact hless
      · exact hless.trans hnear
    · exact ⟨hon, hnear⟩
  refine hfold.bind fun n hn => Returns.pure ?_
  obtain ⟨hon, hnear⟩ := hn
  split_ifs with hsame
  · exact hon
  · refine ⟨hon, nearer_lt hon.toValid ?_⟩
    rcases hnear with rfl | hnear
    · exact absurd rfl hsame
    · exact hnear

lemma returns_greedyUpdateNearest (hn : n.OnLevel s level) :
    Returns (s.greedyUpdateNearest n level) (Nearest.OnLevel s level) :=
  .whileLoop s.nearer (fun _ hs => returns_greedyTurn hw hs) hn
    (Nat.lt_succ_of_le (s.nearer_le n))

lemma returns_levels (hn : n.OnLevel s m) :
    Returns (((List.range m).reverse.map (· + 1)).foldlM s.greedyUpdateNearest n)
      (Nearest.OnLevel s 0) := by
  induction m generalizing n with
  | zero => exact .pure hn
  | succ m ih =>
    rw [range_succ, reverse_concat, map_cons]
    refine (returns_greedyUpdateNearest hw hn).bind fun n' hn' => ?_
    exact ih (hn'.mono (Nat.le_succ m))

/-- **The descent ends** at a node of level 0. -/
lemma returns_descend : Returns s.descend (Nearest.OnLevel s 0) := by
  have hentry := hw.graph.entry_nonneg
  have hlt : s.hnsw.entryPoint.toNat < s.ntotal := by
    have hentry_lt := hw.graph.entry_lt
    unfold ntotal
    omega
  have hpos := hw.graph.level_pos hlt
  have htop : s.hnsw.maxLevel.toNat < s.hnsw.levels.getD s.hnsw.entryPoint.toNat 0 := by
    have hmax := hw.maxLevel_lt
    omega
  have hstart : Nearest.OnLevel s s.hnsw.maxLevel.toNat
      ⟨s.hnsw.entryPoint.toNat, s.qdis s.hnsw.entryPoint.toNat⟩ := ⟨⟨hlt, rfl⟩, htop⟩
  unfold descend
  rw [if_pos hentry]
  simp only [some_bind, distance_of_lt hlt]
  exact returns_levels hw hstart

end Rvanns.Faiss.HnswSearcher
