import Rvanns.Faiss.Equiv.HnswEvaluate
import Rvanns.Faiss.Equiv.Neighbor

/-!
# The search of a level

What holds of the candidates and the marks after every turn of `search_on_a_level`, on any graph.
-/

namespace Rvanns.Faiss.HnswSearcher

open Cpp List NeighborSetDoublePopList NeighborSetPopList

variable {D : Type} [LinearOrder D] {s : HnswSearcher D} {Q : StdPriorityQueue (Neighbor D)}
  {visited : List Bool} {c c' : Candidates D} {n : Neighbor D} {v : ℕ}

/-! ### Adding a candidate -/

def Candidates.pool (c : Candidates D) : List (Neighbor D) :=
  c.retset.entries ++ c.disqualified.getD []

def Candidates.ids (c : Candidates D) : List ℕ := c.pool.map (·.id)

structure Candidates.Adds (c : Candidates D) (n : Neighbor D) (c' : Candidates D) : Prop where
  ordered : c'.retset.Ordered
  capacity : c'.retset.validNs.capacity = c.retset.validNs.capacity ∧
    c'.retset.invalidNs.capacity = c.retset.invalidNs.capacity
  subperm : c'.pool.Subperm (n :: c.pool)
  /-- Nothing is lost if there is a heap. -/
  perm : c.disqualified.isSome → c'.pool.Perm (n :: c.pool)
  isSome : c'.disqualified.isSome = c.disqualified.isSome
  valid : ∀ m ∈ c'.retset.validNs.data,
    m ∈ c.retset.validNs.data ∨ (m = n ∧ n.status = .valid)
  invalid : ∀ m ∈ c'.retset.invalidNs.data,
    m ∈ c.retset.invalidNs.data ∨ (m = n ∧ n.status ≠ .valid)
  pending_le : c'.retset.pending ≤ c.retset.pending + 1
  nonempty : c.retset.validNs.data ≠ [] ∨ n.status = .valid → c'.retset.validNs.data ≠ []

lemma mem_insert_data {l : NeighborSetPopList D} (hl : l.Sorted)
    (hm : m ∈ (l.insert needSave n).1.data) : m = n ∨ m ∈ l.data := by
  have hperm := perm_insert hl needSave n
  exact mem_cons.mp (hperm.mem_iff.mp (mem_append_left _ hm))

lemma insert_capacities (maxDist : D) (l : NeighborSetDoublePopList D) (n : Neighbor D) :
    (l.insert maxDist n).1.validNs.capacity = l.validNs.capacity ∧
      (l.insert maxDist n).1.invalidNs.capacity = l.invalidNs.capacity := by
  rcases insert_cases maxDist l n with ⟨-, h⟩ | ⟨-, -, h⟩ | ⟨-, -, h⟩
  · exact h ▸ ⟨insert_capacity, rfl⟩
  · exact h ▸ ⟨rfl, insert_capacity⟩
  · exact h ▸ ⟨rfl, rfl⟩

lemma adds_addSearchCandidate (hc : c.retset.Ordered) (hn : n.status ≠ .checked) :
    c.Adds n (s.addSearchCandidate Q c n) := by
  have hperm := perm_insert hc s.maxDist n
  have hpool : (s.addSearchCandidate Q c n).pool
      = (c.retset.insert s.maxDist n).1.entries ++ (c.disqualified.map fun heap =>
          Q.pushAll above heap (c.retset.insert s.maxDist n).2.toList).getD [] := rfl
  -- with a heap, what falls out of the lists goes there
  have hkeep : c.disqualified.isSome → (s.addSearchCandidate Q c n).pool.Perm (n :: c.pool) := by
    intro hsome
    obtain ⟨heap, hheap⟩ := Option.isSome_iff_exists.mp hsome
    have hpush := Q.perm_pushAll above heap (c.retset.insert s.maxDist n).2.toList
    rw [hpool, Candidates.pool, hheap, Option.map_some, Option.getD_some]
    have happend := (hpush.append_left (c.retset.insert s.maxDist n).1.entries)
    rw [← append_assoc] at happend
    exact happend.trans (hperm.append_right heap)
  refine ⟨hc.insert s.maxDist hn, insert_capacities s.maxDist c.retset n, ?_, hkeep,
    Option.isSome_map, ?_, ?_, pending_insert_le hc s.maxDist n, ?_⟩
  · cases hdis : c.disqualified with
    | some heap => exact (hkeep (by rw [hdis]; rfl)).subperm
    | none =>
      rw [hpool, Candidates.pool, hdis, Option.map_none, Option.getD_none, append_nil, append_nil]
      exact (sublist_append_left _ _).subperm.trans hperm.subperm
  · intro m hm
    change m ∈ (c.retset.insert s.maxDist n).1.validNs.data at hm
    rcases insert_cases s.maxDist c.retset n with
      ⟨hvalid, h⟩ | ⟨-, -, h⟩ | ⟨-, -, h⟩
    · rw [h] at hm
      exact (mem_insert_data hc.valid hm).symm.imp_right fun heq => ⟨heq, hvalid⟩
    · rw [h] at hm
      exact .inl hm
    · rw [h] at hm
      exact .inl hm
  · intro m hm
    change m ∈ (c.retset.insert s.maxDist n).1.invalidNs.data at hm
    rcases insert_cases s.maxDist c.retset n with
      ⟨-, h⟩ | ⟨hinvalid, -, h⟩ | ⟨-, -, h⟩
    · rw [h] at hm
      exact .inl hm
    · rw [h] at hm
      exact (mem_insert_data hc.invalid hm).symm.imp_right fun heq => ⟨heq, hinvalid⟩
    · rw [h] at hm
      exact .inl hm
  · intro hor
    change (c.retset.insert s.maxDist n).1.validNs.data ≠ []
    rcases insert_cases s.maxDist c.retset n with
      ⟨-, h⟩ | ⟨hinvalid, -, h⟩ | ⟨hinvalid, -, h⟩
    · -- there is room for one at least
      have hlen := length_insert hc.valid true n
      have hpos := c.retset.validNs.capacity.pos
      rw [h]
      apply ne_nil_of_length_pos
      rw [hlen]
      split_ifs <;> omega
    · rw [h]
      exact hor.resolve_right hinvalid
    · rw [h]
      exact hor.resolve_right hinvalid

/-! ### The invariant -/

structure Candidates.Inv (s : HnswSearcher D) (visited : List Bool) (c : Candidates D) : Prop where
  ordered : c.retset.Ordered
  nodup : c.ids.Nodup
  distance : ∀ n ∈ c.pool, n.distance = s.qdis n.id
  marked : ∀ n ∈ c.pool, IsMarked visited n.id
  valid : ∀ n ∈ c.retset.validNs.data, s.isMember n.id = true
  invalid : ∀ n ∈ c.retset.invalidNs.data, s.isMember n.id = false
  unchecked : ∀ n ∈ c.retset.invalidNs.data, n.status ≠ .checked

lemma Candidates.Inv.mono (h : c.Inv s visited)
    (hmono : ∀ u, IsMarked visited u → IsMarked visited' u) : c.Inv s visited' :=
  { h with marked := fun n hn => hmono n.id (h.marked n hn) }

omit [LinearOrder D] in
lemma mem_ids (hn : n ∈ c.pool) : n.id ∈ c.ids := mem_map_of_mem hn

lemma Candidates.Adds.ids_subperm (h : c.Adds n c') : c'.ids.Subperm (n.id :: c.ids) := by
  obtain ⟨l, hperm, hsub⟩ := h.subperm
  exact ⟨l.map (·.id), hperm.map _, hsub.map _⟩

omit [LinearOrder D] in
lemma status_neighbor_ne (s : HnswSearcher D) (v : ℕ) (dis : D) :
    (s.neighbor v dis).status ≠ .checked := by
  unfold neighbor
  split_ifs <;> simp

lemma adds_neighbor (s : HnswSearcher D) (Q : StdPriorityQueue (Neighbor D))
    (hc : c.retset.Ordered) (v : ℕ) :
    c.Adds (s.neighbor v (s.qdis v)) (s.addSearchCandidate Q c (s.neighbor v (s.qdis v))) :=
  adds_addSearchCandidate hc (s.status_neighbor_ne v _)

lemma Candidates.Adds.not_mem_ids {l : List ℕ} (h : c.Adds n c') (hn : n.id ∉ l)
    (hnew : ∀ u ∈ l, u ∉ c.ids) :
    ∀ u ∈ l, u ∉ c'.ids := by
  intro u hu hmem
  rcases mem_cons.mp (h.ids_subperm.subset hmem) with rfl | hmem
  · exact hn hu
  · exact hnew u hu hmem

lemma Candidates.Inv.adds (hc : c.Inv s visited) (hmark : IsMarked visited v)
    (hv : v ∉ c.ids) (h : c.Adds (s.neighbor v (s.qdis v)) c') : c'.Inv s visited where
  ordered := h.ordered
  nodup := by
    have hnodup : (v :: c.ids).Nodup := nodup_cons.mpr ⟨hv, hc.nodup⟩
    obtain ⟨l, hperm, hsub⟩ := h.ids_subperm
    exact hperm.nodup_iff.mp (hnodup.sublist hsub)
  distance m hm := by
    rcases mem_cons.mp (h.subperm.subset hm) with rfl | hm
    · rfl
    · exact hc.distance m hm
  marked m hm := by
    rcases mem_cons.mp (h.subperm.subset hm) with rfl | hm
    · exact hmark
    · exact hc.marked m hm
  valid m hm := by
    rcases h.valid m hm with hm | ⟨rfl, hstatus⟩
    · exact hc.valid m hm
    · unfold neighbor at hstatus ⊢
      by_contra hmember
      simp [hmember] at hstatus
  invalid m hm := by
    rcases h.invalid m hm with hm | ⟨rfl, hstatus⟩
    · exact hc.invalid m hm
    · unfold neighbor at hstatus ⊢
      by_contra hmember
      simp [Bool.eq_true_of_not_eq_false hmember] at hstatus
  unchecked m hm := by
    rcases h.invalid m hm with hm | ⟨rfl, -⟩
    · exact hc.unchecked m hm
    · exact s.status_neighbor_ne v _

lemma Candidates.Inv.handOn (hc : c.Inv s visited) (hl : l.Nodup)
    (hmark : ∀ v ∈ l, IsMarked visited v) (hnew : ∀ v ∈ l, v ∉ c.ids) :
    (s.handOn (s.addSearchCandidate Q) c l).Inv s visited ∧
      (s.handOn (s.addSearchCandidate Q) c l).retset.pending ≤ c.retset.pending + l.length := by
  induction l generalizing c with
  | nil => exact ⟨hc, le_rfl⟩
  | cons v l ih =>
    obtain ⟨hvl, hl⟩ := nodup_cons.mp hl
    obtain ⟨hmark_v, hmark⟩ := forall_mem_cons.mp hmark
    obtain ⟨hv, hnew⟩ := forall_mem_cons.mp hnew
    have hadds := s.adds_neighbor Q hc.ordered v
    obtain ⟨hinv, hpending⟩ := ih (hc.adds hmark_v hv hadds) hl hmark
      (hadds.not_mem_ids hvl hnew)
    refine ⟨hinv, hpending.trans ?_⟩
    have hle := hadds.pending_le
    rw [length_cons]
    omega

omit [LinearOrder D] in
lemma sublist_of_pops (h : c.retset.Pops n retset) :
    (({ c with retset := retset } : Candidates D).pool.map fun n => (n.id, n.distance)).Sublist
      (c.pool.map fun n => (n.id, n.distance)) := by
  unfold Candidates.pool entries
  cases h with
  | valid h =>
    have hmap := map_check (f := fun n => (n.id, n.distance)) rfl h
    simp only [map_append, hmap]
    exact List.Sublist.refl _
  | invalid h =>
    apply List.Sublist.map
    apply List.Sublist.append_right
    apply List.Sublist.append_left
    rw [h]
    exact sublist_cons_self _ _

lemma Candidates.Inv.pops {retset : NeighborSetDoublePopList D} (hc : c.Inv s visited)
    (h : c.retset.Pops n retset) : Candidates.Inv s visited { c with retset := retset } := by
  have hsub := sublist_of_pops h
  -- every neighbour in the new pool was in the old one, up to its mark
  have hold : ∀ m ∈ ({ c with retset := retset } : Candidates D).pool,
      ∃ m' ∈ c.pool, m'.id = m.id ∧ m'.distance = m.distance := by
    intro m hm
    have hmem := hsub.subset (mem_map_of_mem (f := fun n => (n.id, n.distance)) hm)
    obtain ⟨m', hm', heq⟩ := mem_map.mp hmem
    exact ⟨m', hm', congrArg Prod.fst heq, congrArg Prod.snd heq⟩
  refine ⟨h.ordered hc.ordered, ?_, ?_, ?_, ?_, ?_, ?_⟩
  · have hids := hsub.map Prod.fst
    rw [map_map, map_map] at hids
    exact hc.nodup.sublist hids
  · intro m hm
    obtain ⟨m', hm', hid, hdis⟩ := hold m hm
    rw [← hid, ← hdis]
    exact hc.distance m' hm'
  · intro m hm
    obtain ⟨m', hm', hid, -⟩ := hold m hm
    exact hid ▸ hc.marked m' hm'
  · cases h with
    | valid h =>
      intro m hm
      have hmem := mem_map_of_mem (f := (·.id)) hm
      rw [map_check rfl h] at hmem
      obtain ⟨m', hm', hid⟩ := mem_map.mp hmem
      exact hid ▸ hc.valid m' hm'
    | invalid h => exact hc.valid
  · cases h with
    | valid h => exact hc.invalid
    | invalid h => exact fun m hm => hc.invalid m (h ▸ mem_cons_of_mem n hm)
  · cases h with
    | valid h => exact hc.unchecked
    | invalid h => exact fun m hm => hc.unchecked m (h ▸ mem_cons_of_mem n hm)

/-! ### One turn -/

variable {st st' : LevelSearch D} {level : ℕ}

def afterTurn (s : HnswSearcher D) (Q : StdPriorityQueue (Neighbor D)) (st : LevelSearch D)
    (retset : NeighborSetDoublePopList D) (ids : List ℕ) : LevelSearch D where
  visited := (s.discover ids st.visited st.alpha).visited
  alpha := (s.discover ids st.visited st.alpha).alpha
  candidates := s.handOn (s.addSearchCandidate Q) { st.candidates with retset := retset }
    (s.discover ids st.visited st.alpha).fresh

inductive Turns (s : HnswSearcher D) (Q : StdPriorityQueue (Neighbor D)) (level : ℕ)
    (st : LevelSearch D) : Turn (LevelSearch D) (LevelSearch D) → Prop
  | done (hnext : st.candidates.retset.hasNext s.maxDist = false) : Turns s Q level st (.done st)
  | next {n : Neighbor D} {retset : NeighborSetDoublePopList D} {ids : List ℕ}
      (hnext : st.candidates.retset.hasNext s.maxDist = true)
      (hpops : st.candidates.retset.Pops n retset)
      (hids : s.hnsw.neighborIds n.id level = some ids) (hlt : ∀ u ∈ ids, u < s.ntotal) :
      Turns s Q level st (.next (s.afterTurn Q st retset ids))

lemma turns_of_searchTurn
    (hlen : st.visited.length = s.ntotal) (h : s.searchTurn Q level st = some t) :
    s.Turns Q level st t := by
  unfold searchTurn at h
  by_cases hnext : st.candidates.retset.hasNext s.maxDist = true
  · rw [if_pos hnext] at h
    obtain ⟨n, retset, hpop, hpops⟩ := exists_pops hnext
    obtain ⟨r, hr, h⟩ := Option.bind_eq_some_iff.mp h
    obtain rfl := Option.some.inj (hpop.symm.trans hr)
    obtain ⟨r, hr, h⟩ := Option.bind_eq_some_iff.mp h
    obtain ⟨ids, hids, hlt, rfl⟩ := (evaluateSingleNode_eq_some_iff hlen).mp hr
    cases h
    exact .next hnext hpops hids hlt
  · rw [if_neg hnext] at h
    cases h
    exact .done (Bool.eq_false_of_not_eq_true hnext)

lemma searchTurn_isSome (hlen : st.visited.length = s.ntotal)
    (hread : ∀ n ∈ st.candidates.pool, ∃ ids, s.hnsw.neighborIds n.id level = some ids ∧
      ∀ u ∈ ids, u < s.ntotal) : ∃ t, s.searchTurn Q level st = some t := by
  unfold searchTurn
  split_ifs with hnext
  · obtain ⟨n, retset, hpop, hpops⟩ := exists_pops hnext
    obtain ⟨ids, hids, hlt⟩ := hread n (mem_append_left _ hpops.mem)
    have heval : ∃ r, s.evaluateSingleNode (s.addSearchCandidate Q) n.id level st.visited st.alpha
        { st.candidates with retset := retset } = some r :=
      ⟨_, (evaluateSingleNode_eq_some_iff hlen).mpr ⟨ids, hids, hlt, rfl⟩⟩
    obtain ⟨r, hr⟩ := heval
    simp [hpop, hr]
  · exact ⟨_, rfl⟩

structure LevelSearch.Inv (s : HnswSearcher D) (st : LevelSearch D) : Prop where
  length_eq : st.visited.length = s.ntotal
  candidates : st.candidates.Inv s st.visited

def LevelSearch.remaining (st : LevelSearch D) : ℕ :=
  st.candidates.retset.pending + st.visited.count false

lemma LevelSearch.Inv.discovered (h : st.Inv s) (hlt : ∀ u ∈ ids, u < s.ntotal) :
    s.Discovered ids st.visited st.alpha (s.discover ids st.visited st.alpha) :=
  HnswSearcher.discovered ids _ _ (by rw [h.length_eq]; exact hlt)

/-- What is discovered had no mark, and everything in the pool has one. -/
lemma Discovered.not_mem_ids (hd : s.Discovered ids visited alpha d) (hc : c.Inv s visited) :
    ∀ v ∈ d.fresh, v ∉ c.ids := by
  intro v hv hmem
  obtain ⟨m, hm, rfl⟩ := mem_map.mp hmem
  exact (hd.subset _ hv).2 (hc.marked m hm)

lemma LevelSearch.Inv.turn (h : st.Inv s) (ht : s.Turns Q level st t) :
    t.Meets (fun st' => st'.Inv s ∧ st'.remaining < st.remaining) (· = st) := by
  cases ht with
  | done hnext => exact rfl
  | @next n retset ids hnext hpops hids hlt =>
    have hd := h.discovered hlt
    have hpopped := h.candidates.pops hpops
    have hmarked : ∀ v ∈ (s.discover ids st.visited st.alpha).fresh,
        IsMarked (s.discover ids st.visited st.alpha).visited v := fun v hv =>
      (hd.marked_iff v).mpr (.inr (hd.subset v hv).1)
    obtain ⟨hinv, hpending⟩ := (hpopped.mono hd.mono).handOn (Q := Q) hd.nodup hmarked
      (hd.not_mem_ids hpopped)
    refine ⟨⟨hd.length_eq.trans h.length_eq, hinv⟩, ?_⟩
    have hpop := hpops.pending h.candidates.ordered
    have hcount := hd.count_le
    dsimp only at hpending
    simp only [LevelSearch.remaining, afterTurn]
    omega

lemma LevelSearch.Inv.searchOnALevel (h : st.Inv s)
    (hst' : s.searchOnALevel Q level st = some st') :
    st'.Inv s ∧ st'.candidates.retset.hasNext s.maxDist = false := by
  refine whileLoop_eq_some (P := LevelSearch.Inv s)
    (Q := fun st' => st'.Inv s ∧ st'.candidates.retset.hasNext s.maxDist = false)
    (fun st t hst ht => ?_) h hst'
  have hturns := turns_of_searchTurn hst.length_eq ht
  have hmeets := hst.turn hturns
  cases hturns with
  | done hnext => exact ⟨hst, hnext⟩
  | next => exact hmeets.1

lemma returns_searchOnALevel (h : st.Inv s)
    (hread : ∀ v < s.ntotal, ∃ ids, s.hnsw.neighborIds v level = some ids ∧ ∀ u ∈ ids, u < s.ntotal)
    (hfuel : st.remaining < s.ntotal + 2) :
    Returns (s.searchOnALevel Q level st) fun st' =>
      st'.Inv s ∧ st'.candidates.retset.hasNext s.maxDist = false := by
  refine .whileLoop (P := LevelSearch.Inv s) LevelSearch.remaining (fun st hst => ?_) h hfuel
  obtain ⟨t, ht⟩ := searchTurn_isSome (Q := Q) hst.length_eq fun n hn =>
    hread n.id (hst.length_eq ▸ (hst.candidates.marked n hn).lt_length)
  have hturns := turns_of_searchTurn hst.length_eq ht
  have hmeets := hst.turn hturns
  refine ⟨t, ht, ?_⟩
  cases hturns with
  | done hnext => exact ⟨hst, hnext⟩
  | next => exact hmeets

end Rvanns.Faiss.HnswSearcher
