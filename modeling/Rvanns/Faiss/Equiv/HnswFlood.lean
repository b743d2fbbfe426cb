import Rvanns.Cpp.Traversal
import Rvanns.Faiss.Equiv.HnswCoverage

/-!
# What a range search reports

A range search floods a part of level 0.
-/

namespace Rvanns.Faiss.HnswSearcher

open Cpp List

variable {D : Type} [LinearOrder D] {s : HnswSearcher D} {Q : StdPriorityQueue (Neighbor D)}
  {r : D} {seeds popped : List ℕ} {f : Flood D} {u v : ℕ}

/-! ### The part of level 0 that is flooded -/

def InRadius (s : HnswSearcher D) (r : D) (v : ℕ) : Prop :=
  s.isMember v = true ∧ s.qdis v < r

structure RadiusEdge (s : HnswSearcher D) (r : D) (u v : ℕ) : Prop where
  edge : s.Edge u v
  left : s.InRadius r u
  right : s.InRadius r v

def Floods (s : HnswSearcher D) (r : D) (seeds : List ℕ) (v : ℕ) : Prop :=
  ∃ c ∈ seeds, s.InRadius r c ∧ Relation.ReflTransGen (s.RadiusEdge r) c v

lemma Floods.inRadius (h : s.Floods r seeds v) : s.InRadius r v := by
  obtain ⟨c, -, hc, hpath⟩ := h
  cases hpath with
  | refl => exact hc
  | tail _ hedge => exact hedge.right

lemma Floods.tail (h : s.Floods r seeds u) (hedge : s.Edge u v)
    (hv : s.InRadius r v) : s.Floods r seeds v := by
  have hu := h.inRadius
  obtain ⟨c, hmem, hc, hpath⟩ := h
  exact ⟨c, hmem, hc, hpath.tail ⟨hedge, hu, hv⟩⟩

/-! ### The invariant -/

def reported (s : HnswSearcher D) (r : D) (l : List ℕ) : RangeHandler D where
  threshold := r
  results := l.map fun v => (s.qdis v, (v : ℤ))

structure Flooded (s : HnswSearcher D) (r : D) (seeds popped l : List ℕ) (f : Flood D) :
    Prop where
  length_eq : f.visited.length = s.ntotal
  rres_eq : f.rres = s.reported r l
  queue_eq : popped ++ f.queue.map Prod.snd = l
  nodup : l.Nodup
  marked : ∀ v ∈ l, IsMarked f.visited v
  mem_of_marked : ∀ v, IsMarked f.visited v → s.InRadius r v → v ∈ l
  floods : ∀ v ∈ l, s.Floods r seeds v

variable {l : List ℕ}

variable (h : Flooded s r seeds popped l f)

include h in
lemma Flooded.report (hv : v < s.ntotal)
    (hnot : ¬ IsMarked f.visited v) (hfloods : s.Floods r seeds v) :
    Flooded s r seeds popped (l ++ [v])
      (Flood.report { f with visited := f.visited.set v true } (s.qdis v) v) := by
  have hlt : v < f.visited.length := h.length_eq.symm ▸ hv
  have hnew : v ∉ l := fun hmem => hnot (h.marked v hmem)
  refine ⟨?_, ?_, ?_, ?_, ?_, ?_, ?_⟩
  · show (f.visited.set v true).length = s.ntotal
    rw [length_set, h.length_eq]
  · show f.rres.addResult (s.qdis v) v = _
    have hadd : s.qdis v < (s.reported r l).threshold := hfloods.inRadius.2
    rw [h.rres_eq, RangeHandler.addResult, if_pos hadd]
    simp [reported]
  · show popped ++ (f.queue ++ [(s.qdis v, v)]).map Prod.snd = l ++ [v]
    rw [map_append, ← append_assoc, h.queue_eq]
    rfl
  · exact nodup_append_comm.mp (nodup_cons.mpr ⟨hnew, h.nodup⟩)
  · exact forall_mem_concat.mpr ⟨fun u hu => (isMarked_set hlt).mpr (.inr (h.marked u hu)),
      (isMarked_set hlt).mpr (.inl rfl)⟩
  · intro u hu hin
    rcases (isMarked_set hlt).mp hu with rfl | hu
    · exact mem_append_right _ mem_cons_self
    · exact mem_append_left _ (h.mem_of_marked u hu hin)
  · exact forall_mem_concat.mpr ⟨h.floods, hfloods⟩

include h in
lemma Flooded.mark (hv : v < s.ntotal) (hout : ¬ s.InRadius r v) :
    Flooded s r seeds popped l { f with visited := f.visited.set v true } := by
  have hlt : v < f.visited.length := h.length_eq.symm ▸ hv
  refine ⟨by rw [length_set, h.length_eq], h.rres_eq, h.queue_eq, h.nodup, ?_, ?_, h.floods⟩
  · exact fun u hu => (isMarked_set hlt).mpr (.inr (h.marked u hu))
  · intro u hu hin
    rcases (isMarked_set hlt).mp hu with rfl | hu
    · exact absurd hin hout
    · exact h.mem_of_marked u hu hin

/-! ### The candidates -/

omit [LinearOrder D] in
lemma not_isMarked_replicate (n v : ℕ) : ¬ IsMarked (replicate n false) v := by
  intro hv
  have hmem : true ∈ replicate n false := mem_of_getElem? hv
  exact absurd (eq_of_mem_replicate hmem) (by decide)

include h in
lemma Flooded.pickCandidate (hdist : n.distance = s.qdis n.id)
    (hlt : n.id < s.ntotal) (hmember : s.isMember n.id = true) (hseed : n.id ∈ seeds)
    (hnew : n.id ∉ l) :
    Returns (pickCandidate r f n) fun f' => ∃ l', Flooded s r seeds popped l' f' ∧
      (∀ v, v ∈ l' ↔ v ∈ l ∨ (v = n.id ∧ s.InRadius r v)) := by
  unfold HnswSearcher.pickCandidate
  rw [hdist]
  split_ifs with hradius
  · have hin : s.InRadius r n.id := ⟨hmember, hradius⟩
    have hnot : ¬ IsMarked f.visited n.id := fun hmark => hnew (h.mem_of_marked _ hmark hin)
    rw [wr_of_lt (h.length_eq.symm ▸ hlt)]
    refine .pure ⟨l ++ [n.id], h.report hlt hnot ⟨n.id, hseed, hin, .refl⟩, fun v => ?_⟩
    rw [mem_append, mem_singleton]
    refine or_congr_right ⟨?_, And.left⟩
    rintro rfl
    exact ⟨rfl, hin⟩
  · refine .pure ⟨l, h, fun v => ⟨.inl, ?_⟩⟩
    rintro (hv | ⟨rfl, hin⟩)
    · exact hv
    · exact absurd hin.2 hradius

lemma flooded_candidates {cands : List (Neighbor D)} (hnodup : (cands.map (·.id)).Nodup)
    (hdist : ∀ n ∈ cands, n.distance = s.qdis n.id)
    (hnode : ∀ n ∈ cands, n.id < s.ntotal ∧ s.isMember n.id = true) :
    Returns (cands.reverse.foldlM (pickCandidate r)
        { visited := replicate s.ntotal false, rres := { threshold := r } })
      fun f => ∃ l, Flooded s r (cands.map (·.id)) [] l f ∧
        ∀ c ∈ cands.map (·.id), s.InRadius r c → c ∈ l := by
  have hloop : Returns (cands.reverse.foldlM (pickCandidate r)
        { visited := replicate s.ntotal false, rres := { threshold := r } })
      fun f => ∃ l, Flooded s r (cands.map (·.id)) [] l f ∧
        ∀ v, v ∈ l ↔ v ∈ cands.reverse.map (·.id) ∧ s.InRadius r v := by
    refine .foldlM (P := fun (pre : List (Neighbor D)) f => ∃ l,
      Flooded s r (cands.map (·.id)) [] l f ∧
        ∀ v, v ∈ l ↔ v ∈ pre.map (·.id) ∧ s.InRadius r v) _ ?_ ?_
    · rintro pre n post hsplit f ⟨l, hf, hl⟩
      have hn : n ∈ cands := mem_reverse.mp (by rw [hsplit]; simp)
      -- the candidates are different nodes
      have hnew : n.id ∉ l := by
        intro hmem
        have hrev : (cands.reverse.map (·.id)).Nodup := by
          rw [map_reverse]
          exact nodup_reverse.mpr hnodup
        rw [hsplit, map_append] at hrev
        exact (nodup_append.mp hrev).2.2 n.id ((hl _).mp hmem).1 n.id mem_cons_self rfl
      refine (hf.pickCandidate (hdist n hn) (hnode n hn).1 (hnode n hn).2
        (mem_map_of_mem hn) hnew).mono ?_
      rintro f' ⟨l', hf', hl'⟩
      refine ⟨l', hf', fun v => ?_⟩
      rw [hl', hl, map_append, mem_append, map_singleton, mem_singleton]
      tauto
    · refine ⟨[], ⟨length_replicate, rfl, rfl, nodup_nil, by simp, ?_, by simp⟩, by simp⟩
      exact fun v hv => absurd hv (not_isMarked_replicate _ v)
  refine hloop.mono ?_
  rintro f ⟨l, hf, hl⟩
  refine ⟨l, hf, fun c hc hin => (hl c).mpr ⟨?_, hin⟩⟩
  rw [map_reverse, mem_reverse]
  exact hc

/-! ### The neighbours of a node -/

include h in
lemma Flooded.floodNeighbor (hv : v < s.ntotal) (hedge : s.Edge u v) (hu : s.Floods r seeds u) :
    Returns (s.floodNeighbor r f (v : ℤ)) fun f' =>
      ∃ new, Flooded s r seeds popped (l ++ new) f' ∧
        (s.InRadius r v → v ∈ l ++ new) := by
  unfold HnswSearcher.floodNeighbor
  rw [Int.toNat_natCast]
  have hlt : v < f.visited.length := h.length_eq.symm ▸ hv
  refine (Returns.getElem? hlt).bind fun seen hseen => ?_
  cases seen with
  | true =>
    refine Returns.pure ⟨[], ?_, fun hin => ?_⟩
    · rw [append_nil]
      exact h
    · exact mem_append_left _ (h.mem_of_marked v hseen hin)
  | false =>
    have hnot : ¬ IsMarked f.visited v := by
      intro hmark
      exact absurd (hseen.symm.trans hmark) (by simp)
    by_cases hin : s.InRadius r v
    · have hreport := h.report hv hnot (hu.tail hedge hin)
      rw [if_pos hin.1, distance_of_lt hv]
      show Returns (some _) _
      rw [if_pos hin.2]
      exact Returns.pure ⟨[v], hreport, fun _ => mem_append_right _ mem_cons_self⟩
    · -- a node that is not reported is marked all the same
      refine Returns.of_eq (a := { f with visited := f.visited.set v true }) ?_
        ⟨[], by rw [append_nil]; exact h.mark hv hin, fun hin' => absurd hin' hin⟩
      by_cases hmember : s.isMember v = true
      · have hradius : ¬ s.qdis v < r := fun hradius => hin ⟨hmember, hradius⟩
        rw [if_pos hmember, distance_of_lt hv]
        show some _ = _
        rw [if_neg hradius]
      · rw [if_neg hmember]
        rfl

include h in
lemma Flooded.floodNeighbors
    (hids : s.hnsw.neighborIds u 0 = some ids) (hlt : ∀ v ∈ ids, v < s.ntotal)
    (hu : s.Floods r seeds u) :
    Returns ((ids.map Nat.cast).foldlM (s.floodNeighbor r) f) fun f' =>
      ∃ new, Flooded s r seeds popped (l ++ new) f' ∧
        ∀ v ∈ ids, s.InRadius r v → v ∈ l ++ new := by
  rw [foldlM_map]
  refine .foldlM (P := fun pre f' => ∃ new, Flooded s r seeds popped (l ++ new) f' ∧
    ∀ v ∈ pre, s.InRadius r v → v ∈ l ++ new) ids ?_ ?_
  · rintro pre v post hsplit f ⟨new, hf, hpre⟩
    have hv : v ∈ ids := by
      rw [hsplit]
      simp
    refine (hf.floodNeighbor (hlt v hv) ⟨ids, hids, hv⟩ hu).mono ?_
    rintro f' ⟨new', hf', hmem⟩
    rw [append_assoc] at hf' hmem
    refine ⟨new ++ new', hf', forall_mem_concat.mpr ⟨fun w hw hin => ?_, hmem⟩⟩
    rw [← append_assoc]
    exact mem_append_left _ (hpre w hw hin)
  · refine ⟨[], ?_, by simp⟩
    rw [append_nil]
    exact h

/-! ### The run -/

def Padded (s : HnswSearcher D) : Prop := ∀ v ∈ s.hnsw.neighbors, -1 ≤ v

omit [LinearOrder D] in
lemma takeWhile_slots (hpad : ∀ v ∈ slots, -1 ≤ v) :
    slots.takeWhile (· ≠ -1) = (HNSW.validIds slots).map Nat.cast := by
  induction slots with
  | nil => rfl
  | cons v slots ih =>
    obtain ⟨hv, hpad⟩ := forall_mem_cons.mp hpad
    by_cases hend : v = -1
    · simp [hend, HNSW.validIds]
    · have hnonneg : 0 ≤ v := by omega
      have hids : HNSW.validIds (v :: slots) = v.toNat :: HNSW.validIds slots := by
        simp [HNSW.validIds, hnonneg]
      rw [hids, map_cons, Int.toNat_of_nonneg hnonneg, ← ih hpad]
      simp [hend]

omit [LinearOrder D] in
lemma read_slots (hw : s.hnsw.WellFormed) (hpad : s.Padded) (hu : u < s.ntotal) :
    ∃ slots ids, s.hnsw.neighborSlots u 0 = some slots ∧ s.hnsw.neighborIds u 0 = some ids ∧
      slots.takeWhile (· ≠ -1) = ids.map Nat.cast ∧ ∀ v ∈ ids, v < s.ntotal := by
  obtain ⟨rows, hb⟩ := hw.graph.hasBlocks
  have hslots := hb.neighborSlots_eq hw.graph hu (hw.graph.level_pos hu)
  obtain ⟨ids, hids, hlt⟩ := read_level_zero hw hu
  have hsame : HNSW.validIds (s.hnsw.levelSlots 0 (rows.getD u [])) = ids := by
    rw [hb.neighborIds_eq hw.graph hu (hw.graph.level_pos hu)] at hids
    exact Option.some.inj hids
  refine ⟨_, ids, hslots, hids, ?_, hlt⟩
  rw [← hsame]
  exact takeWhile_slots fun v hv =>
    hpad v (hb.mem_neighbors hu (HNSW.levelSlots_subset s.hnsw.toHNSW 0 _ hv))

structure FloodInv (s : HnswSearcher D) (r : D) (seeds popped l : List ℕ) (f : Flood D) : Prop
    extends Flooded s r seeds popped l f where
  seeded : ∀ c ∈ seeds, s.InRadius r c → c ∈ l
  closed : ∀ u ∈ popped, ∀ v, s.Edge u v → s.InRadius r v → v ∈ l

include h in
lemma Flooded.lt_of_mem (hv : v ∈ l) : v < s.ntotal := h.length_eq ▸ (h.marked v hv).lt_length

include h in
lemma Flooded.pop (hq : f.queue = current :: rest) :
    Flooded s r seeds (popped ++ [current.2]) l { f with queue := rest } := by
  refine { h with queue_eq := ?_ }
  rw [← h.queue_eq, hq, append_assoc]
  rfl

lemma FloodInv.turn (h : FloodInv s r seeds popped l f) (hw : s.hnsw.WellFormed) (hpad : s.Padded)
    (hq : f.queue = current :: rest) :
    Returns (s.floodTurn r f) fun t => ∃ f' new, t = .next f' ∧
      FloodInv s r seeds (popped ++ [current.2]) (l ++ new) f' := by
  have hmem : current.2 ∈ l := by
    rw [← h.queue_eq, hq]
    simp
  obtain ⟨slots, ids, hslots, hids, htake, hlt⟩ := read_slots hw hpad (h.lt_of_mem hmem)
  unfold floodTurn
  rw [hq]
  show Returns (s.hnsw.neighborSlots current.2 0 >>= _) _
  rw [hslots]
  show Returns ((slots.takeWhile (· ≠ -1)).foldlM _ _ >>= _) _
  rw [htake]
  refine ((h.pop hq).floodNeighbors hids hlt (h.floods _ hmem)).bind ?_
  rintro f' ⟨new, hf', hall⟩
  refine .pure ⟨f', new, rfl, { hf' with seeded := ?_, closed := ?_ }⟩
  · exact fun c hc hin => mem_append_left _ (h.seeded c hc hin)
  · refine forall_mem_concat.mpr
      ⟨fun u hu v hedge hin => mem_append_left _ (h.closed u hu v hedge hin), ?_⟩
    rintro v ⟨ids', hids', hv⟩ hin
    obtain rfl := Option.some.inj (hids.symm.trans hids')
    exact hall v hv hin

lemma FloodInv.run (h : FloodInv s r seeds popped l f) (hw : s.hnsw.WellFormed) (hpad : s.Padded) :
    Returns (whileLoop (s.floodTurn r) (s.ntotal + 1) f) fun f' =>
      ∃ l', FloodInv s r seeds l' l' f' := by
  -- every turn takes a node off the queue, and no node is there twice
  refine .whileLoop (P := fun f => ∃ popped l, FloodInv s r seeds popped l f)
    (fun f => s.ntotal - (f.rres.results.length - f.queue.length)) ?_ ⟨popped, l, h⟩ (by omega)
  rintro f ⟨popped, l, h⟩
  have hpopped : ∀ {popped l : List ℕ} {f : Flood D}, FloodInv s r seeds popped l f →
      f.rres.results.length - f.queue.length = popped.length := by
    intro popped l f h
    have hlen := congrArg length h.queue_eq
    rw [length_append, length_map] at hlen
    rw [h.rres_eq]
    simp only [reported, length_map]
    omega
  cases hq : f.queue with
  | nil =>
    have hall : popped = l := by
      rw [← h.queue_eq, hq]
      simp
    unfold floodTurn
    rw [hq]
    exact .pure ⟨l, hall ▸ h⟩
  | cons current rest =>
    refine (h.turn hw hpad hq).mono ?_
    rintro t ⟨f', new, rfl, h'⟩
    refine ⟨⟨_, _, h'⟩, ?_⟩
    have hle := length_le_of_nodup_of_lt h.nodup fun v hv => h.lt_of_mem hv
    have hlen := congrArg length h.queue_eq
    rw [length_append, length_map, hq, length_cons] at hlen
    have hbefore := hpopped h
    rw [hq] at hbefore
    have hafter := hpopped h'
    rw [length_append, length_singleton] at hafter
    omega

lemma FloodInv.mem_iff (h : FloodInv s r seeds l l f) : v ∈ l ↔ s.Floods r seeds v := by
  refine ⟨h.floods v, ?_⟩
  rintro ⟨c, hc, hin, hpath⟩
  induction hpath with
  | refl => exact h.seeded c hc hin
  | tail _ hedge ih => exact h.closed _ ih _ hedge.edge hedge.right

/-! ### The whole search -/

lemma returns_flood {cands : List (Neighbor D)} (r : D) (hw : s.hnsw.WellFormed)
    (hpad : s.Padded) (hnodup : (cands.map (·.id)).Nodup)
    (hdist : ∀ n ∈ cands, n.distance = s.qdis n.id)
    (hnode : ∀ n ∈ cands, n.id < s.ntotal ∧ s.isMember n.id = true) :
    Returns (s.flood r cands { threshold := r }) fun f =>
      ∃ l, FloodInv s r (cands.map (·.id)) l l f := by
  refine (flooded_candidates hnodup hdist hnode).bind ?_
  rintro f ⟨l, hf, hseeded⟩
  exact FloodInv.run { hf with seeded := hseeded, closed := nofun }
    hw hpad

lemma returns_initialList (hw : s.hnsw.WellFormed) (hef : 0 < s.ef) (hlen : vis.length = s.ntotal) :
    Returns (s.initialList Q vis) fun cands => (cands.map (·.id)).Nodup ∧
      (∀ n ∈ cands, n.distance = s.qdis n.id) ∧
      ∀ n ∈ cands, n.id < s.ntotal ∧ s.isMember n.id = true := by
  unfold initialList
  have hentry : s.hnsw.entryPoint ≠ -1 := by
    have hnonneg := hw.graph.entry_nonneg
    omega
  rw [if_neg hentry]
  refine (returns_descend hw).bind fun nearest hnearest => ?_
  rw [nRangeCandidates, dif_pos hef]
  refine (returns_searchFrom ⟨s.ef, hef⟩ 1 hw hnearest.toValid hlen rfl).bind fun st hst => ?_
  exact .pure ⟨hst.1.nodup_listed, hst.1.distance_listed, fun n hn =>
    hst.1.mem_listed (mem_map_of_mem hn)⟩

/-- **A range search reports what is connected to its candidates**, each node once.  The candidates
are those that the search of level 0 lists, and the connection is along edges between nodes that
pass the filter and are within the radius.  In an empty graph there are no candidates, and nothing
is reported. -/
theorem rangeSearch_floods {vis : List Bool} (hw : s.hnsw.WellFormed ∨ s.hnsw.Empty)
    (hpad : s.Padded) (hbeam : s.hnsw.upperBeam = 1) (hef : 0 < s.ef)
    (hlen : vis.length = s.ntotal) (r : D) :
    ∃ cands l, s.initialList Q vis = some cands ∧
      s.rangeSearch Q r vis { threshold := r } = .ok (s.reported r l) ∧
      l.Nodup ∧ (∀ v ∈ l, s.isMember v = true ∧ s.qdis v < r) ∧
      ∀ v, v ∈ l ↔ s.Floods r (cands.map (·.id)) v := by
  rcases hw with hw | hempty
  · have hentry : s.hnsw.entryPoint ≠ -1 := by
      have hnonneg := hw.graph.entry_nonneg
      omega
    obtain ⟨cands, hinitial, hnodup, hdist, hnode⟩ := returns_initialList (Q := Q) hw hef hlen
    obtain ⟨f, hflood, l, hf⟩ := returns_flood r hw hpad hnodup hdist hnode
    refine ⟨cands, l, hinitial, ?_, hf.nodup, fun v hv => (hf.floods v hv).inRadius,
      fun v => hf.mem_iff⟩
    unfold rangeSearch
    rw [if_neg hentry, if_neg (not_not.mpr hbeam), hinitial, defined_bind_some, hflood,
      defined_bind_some, hf.rres_eq]
    rfl
  · refine ⟨[], [], ?_, ?_, nodup_nil, by simp, fun v => ?_⟩
    · rw [initialList, if_pos hempty.entryPoint_eq]
    · rw [rangeSearch, if_pos hempty.entryPoint_eq]
      rfl
    · simp [Floods]

/-- A chain whose last node does not pass, and a candidate list for one node. -/
def chainOfFour : HnswSearcher ℕ where
  hnsw := oneLevel 2 [[1, -1], [0, 2], [1, 3], [2, -1]] 0
  qdis v := v + 3
  isMember v := v ≠ 3
  kAlpha := 0
  efSearch := some 1
  maxDist := 100

/-- Node 2 is not among the candidates; the search comes to it through node 1. -/
theorem rangeSearch_chainOfFour :
    ∃ cands l, chainOfFour.initialList .sorting (replicate 4 false) = some cands ∧
      cands.map (·.id) = [0] ∧
      chainOfFour.rangeSearch .sorting 10 (replicate 4 false) { threshold := 10 }
        = .ok (chainOfFour.reported 10 l) ∧
      2 ∈ l ∧ ∀ v, v ∈ l ↔ chainOfFour.Floods 10 (cands.map (·.id)) v := by
  obtain ⟨cands, l, hinitial, hsearch, -, -, hfloods⟩ := rangeSearch_floods (s := chainOfFour)
    (Q := .sorting) (.inl (oneLevel_wellFormed (by decide) (by decide)))
    (by unfold Padded; decide) rfl (by decide) (show (replicate 4 false).length = _ from rfl) 10
  have hcands : (chainOfFour.initialList .sorting (replicate 4 false)).map (·.map (·.id))
      = some [0] := by decide
  have hresults : (chainOfFour.rangeSearch .sorting 10 (replicate 4 false)
      { threshold := 10 }).toOption.map (·.results) = some [(3, 0), (4, 1), (5, 2)] := by decide
  rw [hinitial] at hcands
  rw [hsearch] at hresults
  have hmem : ((5, 2) : ℕ × ℤ) ∈ (chainOfFour.reported 10 l).results := by
    have : (chainOfFour.reported 10 l).results = [(3, 0), (4, 1), (5, 2)] :=
      Option.some_inj.mp hresults
    simp [this]
  obtain ⟨v, hv, heq⟩ := mem_map.mp hmem
  obtain rfl : v = 2 := by exact_mod_cast (Prod.mk.inj heq).2
  exact ⟨cands, l, hinitial, Option.some_inj.mp hcands, hsearch, hv, hfloods⟩

end Rvanns.Faiss.HnswSearcher
