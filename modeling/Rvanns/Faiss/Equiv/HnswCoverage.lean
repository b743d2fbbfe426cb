import Rvanns.Faiss.Equiv.HnswSearcher

/-!
# What a search with a heap covers

A search that hands every node on (`kAlpha` is 1 and `accumulated_alpha` is at least 1), and keeps
on a heap what falls out of its lists, forgets nothing while it runs.
-/

namespace Rvanns.Faiss.HnswSearcher

open Cpp List Option NeighborSetDoublePopList

variable {D : Type} [LinearOrder D] {s : HnswSearcher D} {Q : StdPriorityQueue (Neighbor D)}
  {vis : List Bool} {c c' : Candidates D} {n : Neighbor D} {u v : ℕ} {st : LevelSearch D}

/-! ### Edges of level 0 -/

/-- `v` is a neighbour of `u` on level 0. -/
def Edge (s : HnswSearcher D) (u v : ℕ) : Prop :=
  ∃ ids, s.hnsw.neighborIds u 0 = some ids ∧ v ∈ ids

/-- All neighbours of `u` have a mark. -/
def Expanded (s : HnswSearcher D) (vis : List Bool) (u : ℕ) : Prop :=
  ∀ v, s.Edge u v → IsMarked vis v

omit [LinearOrder D] in
lemma Expanded.mono (h : s.Expanded vis u)
    (hmono : ∀ v, IsMarked vis v → IsMarked visited' v) : s.Expanded visited' u :=
  fun v hv => hmono v (h v hv)

omit [LinearOrder D] in
lemma expanded_of_discovered
    (hd : s.Discovered ids vis alpha d) (hids : s.hnsw.neighborIds u 0 = some ids) :
    s.Expanded d.visited u := by
  rintro v ⟨ids', hids', hv⟩
  obtain rfl := mem_unique hids hids'
  exact (hd.marked_iff v).mpr (.inr hv)

/-! ### The pool with a heap -/

lemma perm_handOn (hc : c.retset.Ordered) (hheap : c.disqualified.isSome) :
    (s.handOn (s.addSearchCandidate Q) c l).disqualified.isSome ∧
      (s.handOn (s.addSearchCandidate Q) c l).pool.Perm
        ((l.map fun v => s.neighbor v (s.qdis v)) ++ c.pool) := by
  induction l generalizing c with
  | nil => exact ⟨hheap, .refl _⟩
  | cons v l ih =>
    have hadds := s.adds_neighbor Q hc v
    obtain ⟨hsome, hperm⟩ := ih hadds.ordered (hadds.isSome ▸ hheap)
    refine ⟨hsome, hperm.trans ?_⟩
    exact ((hadds.perm hheap).append_left _).trans perm_middle

lemma capacity_handOn (hc : c.retset.Ordered) :
    (s.handOn (s.addSearchCandidate Q) c l).retset.validNs.capacity = c.retset.validNs.capacity ∧
      (s.handOn (s.addSearchCandidate Q) c l).retset.invalidNs.capacity
        = c.retset.invalidNs.capacity := by
  induction l generalizing c with
  | nil => exact ⟨rfl, rfl⟩
  | cons v l ih =>
    have hadds := s.adds_neighbor Q hc v
    obtain ⟨hvalid, hinvalid⟩ := ih hadds.ordered
    exact ⟨hvalid.trans hadds.capacity.1, hinvalid.trans hadds.capacity.2⟩

lemma nonempty_handOn (hc : c.retset.Ordered)
    (h : c.retset.validNs.data ≠ [] ∨ ∃ v ∈ l, s.isMember v = true) :
    (s.handOn (s.addSearchCandidate Q) c l).retset.validNs.data ≠ [] := by
  induction l generalizing c with
  | nil => exact h.resolve_right (by simp)
  | cons v l ih =>
    have hadds := s.adds_neighbor Q hc v
    apply ih hadds.ordered
    rcases h with h | ⟨u, hu, hmember⟩
    · exact .inl (hadds.nonempty (.inl h))
    · rcases mem_cons.mp hu with rfl | hu
      · exact .inl (hadds.nonempty (.inr (if_pos hmember)))
      · exact .inr ⟨u, hu, hmember⟩

section Pop

variable {retset : NeighborSetDoublePopList D}

omit [LinearOrder D] in
lemma mem_pool_of_pops (h : c.retset.Pops n retset) (hm : m ∈ c.pool)
    (hne : m ≠ n) : m ∈ ({ c with retset := retset } : Candidates D).pool := by
  unfold Candidates.pool entries at hm ⊢
  cases h with
  | valid h =>
    rw [append_assoc, mem_append] at hm ⊢
    refine hm.imp_left fun hm => ?_
    obtain ⟨i, hi⟩ := mem_iff_getElem?.mp hm
    have hidx : c.retset.validNs.cur ≠ i := by
      rintro rfl
      exact hne (mem_unique hi h)
    apply mem_of_getElem? (i := i)
    show (c.retset.validNs.data.set _ _)[i]? = some m
    rw [getElem?_set_ne hidx]
    exact hi
  | invalid h =>
    simp only [mem_append, h, mem_cons, hne, false_or] at hm ⊢
    exact hm

omit [LinearOrder D] in
lemma mem_ids_of_pops (h : c.retset.Pops n retset)
    (hinvalid : ∀ m ∈ c.retset.invalidNs.data, s.isMember m.id = false)
    (hu : u ∈ c.ids) (hmember : s.isMember u = true) :
    u ∈ ({ c with retset := retset } : Candidates D).ids := by
  cases h with
  | valid h =>
    have hmap := NeighborSetPopList.map_check (f := fun m => m.id) rfl h
    unfold Candidates.ids Candidates.pool entries at hu ⊢
    simp only [map_append, hmap] at hu ⊢
    exact hu
  | invalid h =>
    obtain ⟨m, hm, rfl⟩ := mem_map.mp hu
    refine mem_ids (mem_pool_of_pops (.invalid h) hm ?_)
    rintro rfl
    rw [hinvalid m (h ▸ mem_cons_self)] at hmember
    cases hmember

omit [LinearOrder D] in
lemma capacity_of_pops (h : c.retset.Pops n retset) :
    retset.validNs.capacity = c.retset.validNs.capacity ∧
      retset.invalidNs.capacity = c.retset.invalidNs.capacity := by
  cases h <;> exact ⟨rfl, rfl⟩

omit [LinearOrder D] in
lemma nonempty_of_pops (h : c.retset.Pops n retset) (hne : c.retset.validNs.data ≠ []) :
    retset.validNs.data ≠ [] := by
  cases h with
  | valid h => simpa [NeighborSetPopList.check] using hne
  | invalid h => exact hne

omit [LinearOrder D] in
/-- What waits after a candidate has been taken waited before, and it is another node. -/
lemma mem_pool_of_pops_of_ne (h : c.retset.Pops n retset) (hnodup : c.ids.Nodup)
    (hm : m ∈ ({ c with retset := retset } : Candidates D).pool) (hstatus : m.status ≠ .checked) :
    m ∈ c.pool ∧ m.id ≠ n.id := by
  cases h with
  | valid h =>
    have hget : c.pool[c.retset.validNs.cur]? = some n := by
      unfold Candidates.pool entries
      rw [append_assoc, getElem?_append_left (lt_length h), h]
    have hset : ({ c with retset := { c.retset with validNs := c.retset.validNs.check n } } :
        Candidates D).pool = c.pool.set c.retset.validNs.cur { n with status := .checked } := by
      unfold Candidates.pool entries
      rw [append_assoc, append_assoc, set_append_left _ _ (lt_length h)]
      rfl
    rw [hset] at hm
    obtain ⟨i, hi⟩ := mem_iff_getElem?.mp hm
    by_cases hcur : c.retset.validNs.cur = i
    · rw [← hcur, getElem?_set_self (lt_length hget)] at hi
      exact absurd (some.inj hi ▸ rfl) hstatus
    · rw [getElem?_set_ne hcur] at hi
      refine ⟨mem_of_getElem? hi, fun hid => hcur ?_⟩
      have hids : c.ids[c.retset.validNs.cur]? = c.ids[i]? := by
        unfold Candidates.ids
        rw [getElem?_map, getElem?_map, hget, hi, map_some, map_some, hid]
      have hlt : c.retset.validNs.cur < c.ids.length := by
        unfold Candidates.ids
        rw [length_map]
        exact lt_length hget
      exact (getElem?_inj hlt hnodup).mp hids
  | @invalid rest h =>
    have hperm : c.pool.Perm (n :: ({ c with retset :=
        { c.retset with invalidNs := { c.retset.invalidNs with data := rest } } } :
          Candidates D).pool) := by
      unfold Candidates.pool entries
      rw [h, append_assoc, append_assoc]
      exact perm_middle
    refine ⟨hperm.mem_iff.mpr (mem_cons_of_mem n hm), fun hid => ?_⟩
    have hcons := (hperm.map Neighbor.id).nodup_iff.mp hnodup
    exact (nodup_cons.mp hcons).1 (mem_map.mpr ⟨m, hm, hid⟩)

end Pop

/-! ### The invariant -/

/-- Node `u` is a candidate that has not been expanded. -/
def LevelSearch.Waits (st : LevelSearch D) (u : ℕ) : Prop :=
  ∃ n ∈ st.candidates.pool, n.id = u ∧ n.status ≠ .checked

/-- A marked node is expanded or waits, and one that passes the filter is kept. -/
structure Covers (s : HnswSearcher D) (st : LevelSearch D) : Prop where
  heap : st.candidates.disqualified.isSome
  alpha : 1 ≤ st.alpha
  expanded_or : ∀ u, IsMarked st.visited u → s.Expanded st.visited u ∨ st.Waits u
  kept : ∀ u, IsMarked st.visited u → s.isMember u = true → u ∈ st.candidates.ids
  nonempty : ∀ u, IsMarked st.visited u → s.isMember u = true →
    st.candidates.retset.validNs.data ≠ []

/-- A turn that takes up every node it marks: a marked node is expanded or waits in the pool, and
one that passes the filter stays there. -/
lemma pool_turn (hpops : st.candidates.retset.Pops n retset)
    (hids : s.hnsw.neighborIds n.id 0 = some ids) (hinv : st.Inv s)
    (hd : s.Discovered ids st.visited st.alpha d)
    (hall : ∀ v ∈ ids, ¬ IsMarked st.visited v → v ∈ d.fresh)
    (hperm : c.pool.Perm ((d.fresh.map fun v => s.neighbor v (s.qdis v)) ++
      ({ st.candidates with retset := retset } : Candidates D).pool))
    (hu : IsMarked d.visited u) :
    ((IsMarked st.visited u → s.Expanded st.visited u ∨
        ∃ m ∈ st.candidates.pool, m.id = u ∧ m.status ≠ .checked) →
      s.Expanded d.visited u ∨ ∃ m ∈ c.pool, m.id = u ∧ m.status ≠ .checked) ∧
    (s.isMember u = true → (IsMarked st.visited u → u ∈ st.candidates.ids) → u ∈ c.ids) := by
  by_cases hold : IsMarked st.visited u
  · refine ⟨fun h => ?_, fun hmember h => ?_⟩
    · rcases h hold with hexp | ⟨m, hm, rfl, hstatus⟩
      · exact .inl (hexp.mono hd.mono)
      · by_cases hmn : m = n
        · exact .inl (hmn ▸ expanded_of_discovered hd hids)
        · exact .inr ⟨m, hperm.mem_iff.mpr
            (mem_append_right _ (mem_pool_of_pops hpops hm hmn)), rfl, hstatus⟩
    · have hmem := mem_ids_of_pops hpops hinv.candidates.invalid (h hold) hmember
      obtain ⟨m, hm, rfl⟩ := mem_map.mp hmem
      exact mem_ids (hperm.mem_iff.mpr (mem_append_right _ hm))
  · have hfresh := hall u (((hd.marked_iff u).mp hu).resolve_left hold) hold
    have hmem := hperm.mem_iff.mpr (mem_append_left _ (mem_map_of_mem hfresh))
    exact ⟨fun _ => .inr ⟨_, hmem, rfl, s.status_neighbor_ne u _⟩, fun _ _ => mem_ids hmem⟩

lemma Covers.turn (h : s.Covers st) (hinv : st.Inv s) (hk : s.kAlpha = 1)
    (hpops : st.candidates.retset.Pops n retset) (hids : s.hnsw.neighborIds n.id 0 = some ids)
    (hlt : ∀ u ∈ ids, u < s.ntotal) :
    s.Covers (s.afterTurn Q st retset ids) ∧
      s.Expanded (s.afterTurn Q st retset ids).visited n.id := by
  have hd := hinv.discovered hlt
  obtain ⟨halpha, hall⟩ := hd.all hk h.alpha
  have hordered := hpops.ordered hinv.candidates.ordered
  obtain ⟨hheap, hperm⟩ := perm_handOn (s := s) (Q := Q)
    (c := { st.candidates with retset := retset })
    (l := (s.discover ids st.visited st.alpha).fresh) hordered h.heap
  refine ⟨⟨hheap, h.alpha.trans_eq halpha.symm, fun u hu => ?_, fun u hu hmember => ?_, ?_⟩,
    expanded_of_discovered hd hids⟩
  · exact (pool_turn hpops hids hinv hd hall hperm hu).1 (h.expanded_or u)
  · exact (pool_turn hpops hids hinv hd hall hperm hu).2 hmember fun hold => h.kept u hold hmember
  · intro u hu hmember
    apply nonempty_handOn hordered
    by_cases hold : IsMarked st.visited u
    · exact .inl (nonempty_of_pops hpops (h.nonempty u hold hmember))
    · exact .inr ⟨u, hall u (((hd.marked_iff u).mp hu).resolve_left hold) hold, hmember⟩

lemma insert_new (cap : ℕ+) (hn : n.status = .valid ∨ n.distance < s.maxDist) :
    ((new D cap).insert s.maxDist n).1 =
      if n.status = .valid then
        { validNs := { capacity := cap, data := [n] }, invalidNs := { capacity := cap } }
      else
        { validNs := { capacity := cap },
          invalidNs := { capacity := cap, data := [n] } } := by
  have hroom : (0 : ℕ) < cap := cap.pos
  by_cases hvalid : n.status = .valid
  · simp [NeighborSetDoublePopList.insert, NeighborSetDoublePopList.new, hvalid,
      NeighborSetPopList.insert, NeighborSetPopList.insertHelper, hroom]
  · simp [NeighborSetDoublePopList.insert, NeighborSetDoublePopList.new, hvalid,
      hn.resolve_left hvalid, NeighborSetPopList.insert, NeighborSetPopList.insertHelper, hroom,
      NeighborSetPopList.atSearchBackDist]

section Run

variable {near : Nearest D} {cap : ℕ+} {alpha : ℚ}

omit [LinearOrder D] in
lemma status_neighbor_eq_valid (s : HnswSearcher D) (v : ℕ) (dis : D) :
    (s.neighbor v dis).status = .valid ↔ s.isMember v = true := by
  unfold neighbor
  split_ifs with h <;> simp [h]

/-- The first candidate: the node at which the descent ends, if the filter lets it through or its
distance is below the largest number. -/
lemma start_entries (cap : ℕ+) (vis : List Bool) (alpha : ℚ)
    (heap : Option (List (Neighbor D))) (hn : near.Valid s)
    (hin : s.isMember near.node = true ∨ s.qdis near.node < s.maxDist) :
    (s.start near cap vis alpha heap).candidates.retset.entries
        = [s.neighbor near.node near.distance] ∧
      (s.isMember near.node = true →
        (s.start near cap vis alpha heap).candidates.retset.validNs.data ≠ []) := by
  have hnew := insert_new (s := s) (n := s.neighbor near.node near.distance) cap
    (hin.imp (s.status_neighbor_eq_valid _ _).mpr fun hlt => hn.distance_eq.trans_lt hlt)
  simp only [start, hnew, status_neighbor_eq_valid]
  by_cases hmember : s.isMember near.node = true
  · simp [hmember, entries]
  · simp [hmember, entries]

/-- Without a first candidate the search ends before it begins. -/
lemma valid_eq_nil_of_searchFrom (hn : near.Valid s) (hlen : vis.length = s.ntotal)
    (hin : ¬ (s.isMember near.node = true ∨ s.qdis near.node < s.maxDist))
    (hst : s.searchFrom Q near cap vis alpha heap = some st) :
    st.candidates.retset.validNs.data = [] := by
  obtain ⟨hmember, hfar⟩ := not_or.mp hin
  have hstatus := (s.status_neighbor_eq_valid near.node near.distance).not.mpr hmember
  have hback : ¬ (s.neighbor near.node near.distance).distance < s.maxDist := by
    rw [show (s.neighbor near.node near.distance).distance = s.qdis near.node from
      hn.distance_eq]
    exact hfar
  have hnone : ((new D cap).insert s.maxDist
      (s.neighbor near.node near.distance)).1 = new D cap := by
    simp [NeighborSetDoublePopList.insert, hstatus, NeighborSetDoublePopList.new,
      NeighborSetPopList.atSearchBackDist, hback]
  rw [searchFrom_eq (hlen ▸ hn.lt_ntotal), searchOnALevel, whileLoop, searchTurn, start, hnone,
    if_neg (by simp [hasNext, NeighborSetDoublePopList.new, NeighborSetPopList.hasNext,
      NeighborSetPopList.front])] at hst
  rw [← some.inj hst]
  rfl

/-- Reachability on level 0. -/
def Reaches (s : HnswSearcher D) : ℕ → ℕ → Prop := Relation.ReflTransGen s.Edge

omit [LinearOrder D] in
lemma lt_of_reaches (hw : s.hnsw.WellFormed) (hfirst : first < s.ntotal)
    (hv : s.Reaches first v) : v < s.ntotal := by
  induction hv with
  | refl => exact hfirst
  | tail _ hedge ih =>
    obtain ⟨ids, hids, hmem⟩ := hedge
    obtain ⟨ids', hids', hlt⟩ := read_level_zero hw ih
    obtain rfl := mem_unique hids hids'
    exact hlt _ hmem

omit [LinearOrder D] in
lemma finite_reaches (hw : s.hnsw.WellFormed) (hfirst : first < s.ntotal) :
    {v | s.Reaches first v}.Finite :=
  (Set.finite_lt_nat s.ntotal).subset fun _ hv => lt_of_reaches hw hfirst hv

/-- The state of a search that began at node `first`.  Every marked node has been found from there
along nodes that have been expanded. -/
structure Explores (s : HnswSearcher D) (first : ℕ) (st : LevelSearch D) : Prop where
  inv : st.Inv s
  covers : s.Covers st
  marked : IsMarked st.visited first
  traced : ∀ u, IsMarked st.visited u → Relation.ReflTransGen
    (fun a b => s.Edge a b ∧ IsMarked st.visited a ∧ ¬ st.Waits a) first u

lemma start_explores (hn : near.Valid s)
    (hin : s.isMember near.node = true ∨ s.qdis near.node < s.maxDist)
    (hlen : vis.length = s.ntotal) (hvisited : ∀ u, ¬ IsMarked vis u) (halpha : 1 ≤ alpha) :
    s.Explores near.node (s.start near cap vis alpha (some [])) := by
  obtain ⟨hinv, -⟩ := start_inv cap alpha (some []) hn hlen rfl
  obtain ⟨hentries, hvalid⟩ := start_entries cap vis alpha (some []) hn hin
  have hlt : near.node < vis.length := hlen ▸ hn.lt_ntotal
  have hpool : (s.start near cap vis alpha (some [])).candidates.pool
      = [s.neighbor near.node near.distance] := by
    unfold Candidates.pool
    rw [hentries]
    rfl
  have honly : ∀ u, IsMarked (vis.set near.node true) u → u = near.node := fun u hu =>
    ((isMarked_set hlt).mp hu).resolve_right (hvisited u)
  refine ⟨hinv, ⟨rfl, halpha, ?_, ?_, ?_⟩, (isMarked_set hlt).mpr (.inl rfl), ?_⟩
  · intro u hu
    rw [LevelSearch.Waits, hpool, honly u hu]
    exact .inr ⟨_, mem_cons_self, rfl, s.status_neighbor_ne _ _⟩
  · intro u hu _
    unfold Candidates.ids
    rw [hpool, honly u hu]
    exact mem_cons_self
  · intro u hu hmember
    exact hvalid (honly u hu ▸ hmember)
  · intro u hu
    obtain rfl := honly u hu
    exact .refl

lemma Explores.turn (h : s.Explores first st) (hk : s.kAlpha = 1)
    (hpops : st.candidates.retset.Pops n retset) (hids : s.hnsw.neighborIds n.id 0 = some ids)
    (hlt : ∀ u ∈ ids, u < s.ntotal) (hinv' : (s.afterTurn Q st retset ids).Inv s) :
    s.Explores first (s.afterTurn Q st retset ids) := by
  have hd := h.inv.discovered hlt
  obtain ⟨hcovers, -⟩ := h.covers.turn (Q := Q) h.inv hk hpops hids hlt
  have hmarked := h.inv.candidates.marked n (mem_append_left _ hpops.mem)
  -- a node that waits after the turn has been found in it, or waited before and was not taken
  have hperm := (perm_handOn (s := s) (Q := Q) (c := { st.candidates with retset := retset })
    (l := (s.discover ids st.visited st.alpha).fresh) (hpops.ordered h.inv.candidates.ordered)
    h.covers.heap).2
  have hwaits : ∀ u, IsMarked st.visited u → (s.afterTurn Q st retset ids).Waits u →
      st.Waits u ∧ u ≠ n.id := by
    rintro u hu ⟨m, hm, rfl, hstatus⟩
    rcases mem_append.mp (hperm.mem_iff.mp hm) with hm | hm
    · obtain ⟨v, hv, rfl⟩ := mem_map.mp hm
      exact absurd hu (hd.subset v hv).2
    · obtain ⟨hm, hne⟩ := mem_pool_of_pops_of_ne hpops h.inv.candidates.nodup hm hstatus
      exact ⟨⟨m, hm, rfl, hstatus⟩, hne⟩
  have htraced : ∀ u, IsMarked st.visited u → Relation.ReflTransGen
      (fun a b => s.Edge a b ∧ IsMarked (s.afterTurn Q st retset ids).visited a ∧
        ¬ (s.afterTurn Q st retset ids).Waits a) first u := fun u hu =>
    (h.traced u hu).lift id fun a b hab =>
      ⟨hab.1, hd.mono a hab.2.1, fun hwait => hab.2.2 (hwaits a hab.2.1 hwait).1⟩
  refine ⟨hinv', hcovers, hd.mono _ h.marked, fun u hu => ?_⟩
  rcases (hd.marked_iff u).mp hu with hu | hu
  · exact htraced u hu
  · exact (htraced n.id hmarked).tail ⟨⟨ids, hids, hu⟩, hd.mono _ hmarked,
      fun hwait => (hwaits n.id hmarked hwait).2 rfl⟩

lemma Explores.searchFrom (hk : s.kAlpha = 1) (hn : near.Valid s)
    (hin : s.isMember near.node = true ∨ s.qdis near.node < s.maxDist)
    (hlen : vis.length = s.ntotal) (hvisited : ∀ u, ¬ IsMarked vis u) (halpha : 1 ≤ alpha)
    (hst : s.searchFrom Q near cap vis alpha (some []) = some st) :
    s.Explores near.node st := by
  rw [searchFrom_eq (hlen ▸ hn.lt_ntotal)] at hst
  refine whileLoop_eq_some (P := s.Explores near.node) (Q := s.Explores near.node)
    (fun st t hexp ht => ?_) (start_explores hn hin hlen hvisited halpha) hst
  have hturns := turns_of_searchTurn hexp.inv.length_eq ht
  have hmeets := hexp.inv.turn hturns
  cases hturns with
  | done hdone => exact hexp
  | @next n retset ids _ hpops hids hlt => exact hexp.turn hk hpops hids hlt hmeets.1

end Run

/-! ### The end of a search -/

lemma Covers.expanded_or_left (h : s.Covers st) (hinv : st.Inv s)
    (hdone : st.candidates.retset.hasNext s.maxDist = false) (hu : IsMarked st.visited u) :
    s.Expanded st.visited u ∨ u ∈ st.candidates.retset.invalidNs.data.map (·.id) ∨
      u ∈ (st.candidates.disqualified.getD []).map (·.id) := by
  have hvalid := (Bool.or_eq_false_iff.mp hdone).1
  rcases h.expanded_or u hu with hexp | ⟨n, hn, rfl, hstatus⟩
  · exact .inl hexp
  · rcases mem_append.mp hn with hn | hn
    · rcases mem_append.mp hn with hn | hn
      · exact absurd (hinv.candidates.ordered.cursor.checked_of_not_hasNext hvalid n hn) hstatus
      · exact .inr (.inl (mem_map_of_mem hn))
    · exact .inr (.inr (mem_map_of_mem hn))

omit [LinearOrder D] in
lemma length_le_ncard {l : List ℕ} {S : Set ℕ} (hS : S.Finite) (hl : l.Nodup)
    (hmem : ∀ v ∈ l, v ∈ S) : l.length ≤ S.ncard := by
  rw [← toFinset_card_of_nodup hl, ← Set.ncard_coe_finset]
  exact Set.ncard_le_ncard (fun v hv => hmem v (mem_toFinset.mp hv)) hS

end Rvanns.Faiss.HnswSearcher
