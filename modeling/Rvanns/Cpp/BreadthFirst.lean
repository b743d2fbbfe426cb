import Rvanns.Cpp.Traversal

/-!
# Breadth-first order

A traversal that looks at all neighbours of a node which have no mark writes the nodes of the
component it begins in (`Layered.mem_out_iff`), and writes them in the order of their distances from
the node it begins with (`Layered.sorted`).
-/

namespace Rvanns.Cpp

open List

section Distances

variable {V : Type*} {G : SimpleGraph V} {r v w : V}

lemma dist_le_of_adj (hr : G.Reachable r w) (hadj : G.Adj w v) : G.dist r v ≤ G.dist r w + 1 := by
  obtain ⟨p, hp⟩ := hr.exists_walk_length_eq_dist
  rw [← hp, ← SimpleGraph.Walk.length_concat p hadj]
  exact SimpleGraph.dist_le _

lemma exists_adj_of_dist_eq_succ (hv : G.dist r v = d + 1) :
    ∃ w, G.Adj w v ∧ G.Reachable r w ∧ G.dist r w = d := by
  have hr : G.Reachable r v := SimpleGraph.Reachable.of_dist_ne_zero (by omega)
  obtain ⟨p, hp⟩ := hr.exists_walk_length_eq_dist
  rw [hv, ← SimpleGraph.Walk.length_reverse] at hp
  cases hq : p.reverse with
  | nil =>
    rw [hq] at hp
    simp at hp
  | @cons _ w _ hadj q =>
    rw [hq, SimpleGraph.Walk.length_cons] at hp
    have hle : G.dist r w ≤ d := by
      have hlen := SimpleGraph.dist_le q.reverse
      rw [SimpleGraph.Walk.length_reverse] at hlen
      omega
    have hge := dist_le_of_adj q.reverse.reachable hadj.symm
    exact ⟨w, hadj.symm, q.reverse.reachable, by omega⟩

end Distances

namespace Traversal

variable {n : ℕ} {before : List ℕ} {s : Traversal} {G : SimpleGraph ℕ} {seed : ℕ}
  {neighbours : List Bool → ℕ → Option (List ℕ)}

lemma Inv.discover_append (h : s.Inv n before) (hu : u < n) :
    Returns (s.discover u) fun s' => s'.Inv n before ∧ s'.out = s.out
      ∧ ∃ new, s'.queue = s.queue ++ new ∧ (∀ w ∈ new, w = u)
        ∧ u ∈ before ++ (s.out ++ (s.queue ++ new)) := by
  obtain ⟨s', hs', hinv, hout, -⟩ := h.discover hu
  refine .of_eq hs' ⟨hinv, hout, ?_⟩
  obtain ⟨seen, hseen⟩ : ∃ seen, s.visited[u]? = some seen :=
    ⟨_, getElem?_eq_getElem (h.length.symm ▸ hu)⟩
  unfold Traversal.discover at hs'
  rw [hseen] at hs'
  cases seen with
  | true =>
    cases hs'
    refine ⟨[], by simp, by simp, ?_⟩
    rw [append_nil]
    exact (h.visited_iff u).mp hseen
  | false =>
    cases hs'
    exact ⟨[u], rfl, by simp, by simp⟩

lemma Inv.discoverAll_append (h : s.Inv n before) {l : List ℕ} (hl : ∀ u ∈ l, u < n) :
    Returns (l.foldlM Traversal.discover s) fun s' => s'.Inv n before ∧ s'.out = s.out
      ∧ ∃ new, s'.queue = s.queue ++ new ∧ (∀ u ∈ new, u ∈ l)
        ∧ ∀ u ∈ l, u ∈ before ++ (s.out ++ (s.queue ++ new)) := by
  induction l generalizing s with
  | nil => exact .pure ⟨h, rfl, [], by simp, by simp, by simp⟩
  | cons u l ih =>
    refine (h.discover_append (hl u mem_cons_self)).bind ?_
    rintro s₁ ⟨hinv, hout, first, hqueue, hfirst, hmem⟩
    refine (ih hinv fun w hw => hl w (mem_cons_of_mem u hw)).mono ?_
    rintro s' ⟨hinv', hout', new, hqueue', hnew, hall⟩
    rw [hqueue, append_assoc] at hqueue'
    rw [hout, hqueue, append_assoc] at hall
    refine ⟨hinv', hout'.trans hout, first ++ new, hqueue', fun w hw => ?_, fun w hw => ?_⟩
    · rcases mem_append.mp hw with hw | hw
      · exact hfirst w hw ▸ mem_cons_self
      · exact mem_cons_of_mem u (hnew w hw)
    · rcases mem_cons.mp hw with rfl | hw
      · simp only [mem_append] at hmem ⊢
        tauto
      · exact hall w hw

/-- What has been met, from `seed` on: the nodes are in the order of their distances, those in the
queue are on at most two layers, and the neighbours of the nodes written have been met. -/
structure Layered (G : SimpleGraph ℕ) (seed : ℕ) (s : Traversal) : Prop where
  first : (s.out ++ s.queue).head? = some seed
  reachable : ∀ v ∈ s.out ++ s.queue, G.Reachable seed v
  sorted : (s.out ++ s.queue).Pairwise fun u v => G.dist seed u ≤ G.dist seed v
  near : ∀ q ∈ s.queue.head?, ∀ v ∈ s.queue, G.dist seed v ≤ G.dist seed q + 1
  closed : ∀ u ∈ s.out, ∀ v, G.Adj u v → v ∈ s.out ++ s.queue

lemma layered_start (G : SimpleGraph ℕ) (seed : ℕ) (marks : List Bool) :
    Layered G seed ⟨marks, [seed], []⟩ where
  first := rfl
  reachable v hv := by rw [mem_singleton.mp hv]
  sorted := pairwise_singleton _ _
  near q hq v hv := by
    obtain rfl : seed = q := Option.some.inj hq
    rw [mem_singleton.mp hv]
    omega
  closed u hu := absurd hu not_mem_nil

lemma Layered.seed_mem (h : Layered G seed s) : seed ∈ s.out ++ s.queue :=
  mem_of_mem_head? h.first

lemma Layered.mem_of_dist_le (h : Layered G seed s)
    (hq : s.queue = node :: rest) (d : ℕ) {v : ℕ} (hv : G.Reachable seed v)
    (hd : G.dist seed v = d) (hle : d ≤ G.dist seed node) : v ∈ s.out ++ s.queue := by
  induction d generalizing v with
  | zero =>
    rw [← hv.dist_eq_zero_iff.mp hd]
    exact h.seed_mem
  | succ d ih =>
    obtain ⟨w, hadj, hreach, hw⟩ := exists_adj_of_dist_eq_succ hd
    have hmem := ih hreach hw (by omega)
    -- the queue only holds nodes that are farther away than `w`
    rcases mem_append.mp hmem with hout | hqueue
    · exact h.closed w hout v hadj
    · have hpair := (pairwise_append.mp h.sorted).2.1
      rw [hq] at hqueue hpair
      rcases mem_cons.mp hqueue with rfl | hrest
      · omega
      · have := (pairwise_cons.mp hpair).1 w hrest
        omega

lemma Layered.dist_eq (h : Layered G seed s)
    (hq : s.queue = node :: rest) (hadj : G.Adj node v) (hnew : v ∉ s.out ++ s.queue) :
    G.Reachable seed v ∧ G.dist seed v = G.dist seed node + 1 := by
  have hnode : G.Reachable seed node := h.reachable node (by simp [hq])
  have hv : G.Reachable seed v := hnode.trans hadj.reachable
  have hle := dist_le_of_adj hnode hadj
  refine ⟨hv, ?_⟩
  by_contra hne
  exact hnew (h.mem_of_dist_le hq _ hv rfl (by omega))

structure Looks (G : SimpleGraph ℕ) (marks : List Bool) (node : ℕ) (l : List ℕ) : Prop where
  lt : ∀ u ∈ l, u < marks.length
  adj : ∀ u ∈ l, G.Adj node u
  all : ∀ u, G.Adj node u → marks[u]? = some true ∨ u ∈ l

section

variable (h : Layered G seed s) (hinv : s.Inv n before)
  (hbefore : ∀ v ∈ before, ¬ G.Reachable seed v)

include h hinv hbefore

lemma Layered.turn {rest l : List ℕ} (hq : s.queue = node :: rest) (hl : Looks G s.visited node l) :
    Returns (l.foldlM Traversal.discover { s with queue := rest, out := s.out ++ [node] })
      fun s' => s'.Inv n before ∧ Layered G seed s' ∧ s'.out = s.out ++ [node] := by
  have hsame : s.out ++ [node] ++ rest = s.out ++ s.queue := by rw [hq]; simp
  have hreach : G.Reachable seed node := h.reachable node (by simp [hq])
  refine ((hinv.pop hq).discoverAll_append fun u hu => hinv.length ▸ hl.lt u hu).mono ?_
  rintro s' ⟨hinv', hout, new, hqueue, hnew, hall⟩
  have hwhole : s'.out ++ s'.queue = s.out ++ s.queue ++ new := by
    rw [hout, hqueue, ← append_assoc, hsame]
  have hlayer : ∀ u ∈ new, G.Reachable seed u ∧ G.dist seed u = G.dist seed node + 1 := by
    intro u hu
    have hnd := hinv'.nodup
    rw [hwhole, ← append_assoc] at hnd
    have hfresh : u ∉ before ++ (s.out ++ s.queue) := fun hmem =>
      (nodup_append.mp hnd).2.2 u hmem u hu rfl
    exact h.dist_eq hq (hl.adj u (hnew u hu)) fun hmem => hfresh (mem_append_right _ hmem)
  have hpair : (node :: rest).Pairwise fun u v => G.dist seed u ≤ G.dist seed v := by
    rw [← hq]
    exact (pairwise_append.mp h.sorted).2.1
  have hnear : ∀ v ∈ s.out ++ s.queue, G.dist seed v ≤ G.dist seed node + 1 := by
    intro v hv
    rcases mem_append.mp hv with hv | hv
    · have hle := (pairwise_append.mp h.sorted).2.2 v hv node (by simp [hq])
      omega
    · exact h.near node (by rw [hq]; rfl) v hv
  refine ⟨hinv', ⟨?_, ?_, ?_, ?_, ?_⟩, hout⟩
  · rw [hwhole, head?_append, h.first]
    rfl
  · intro v hv
    rw [hwhole] at hv
    rcases mem_append.mp hv with hv | hv
    · exact h.reachable v hv
    · exact (hlayer v hv).1
  · rw [hwhole]
    refine pairwise_append.mpr ⟨h.sorted, ?_, fun u hu v hv => ?_⟩
    · refine List.Pairwise.imp_of_mem (fun hu hv _ => ?_) (pairwise_of_forall fun _ _ => trivial)
      rw [(hlayer _ hu).2, (hlayer _ hv).2]
    · rw [(hlayer v hv).2]
      exact hnear u hu
  · intro q hqhead v hv
    -- the new front is on the layer of `node` or on the next one
    have hge : ∀ w ∈ s'.queue, G.dist seed node ≤ G.dist seed w := by
      intro w hw
      rw [hqueue] at hw
      rcases mem_append.mp hw with hw | hw
      · exact (pairwise_cons.mp hpair).1 w hw
      · rw [(hlayer w hw).2]
        omega
    have hle : G.dist seed v ≤ G.dist seed node + 1 := by
      rw [hqueue] at hv
      rcases mem_append.mp hv with hv | hv
      · exact hnear v (by simp [hq, hv])
      · exact (hlayer v hv).2.le
    have := hge q (mem_of_mem_head? hqhead)
    omega
  · intro u hu v hadj
    rw [hout] at hu
    rw [hwhole]
    rcases mem_append.mp hu with hu | hu
    · exact mem_append_left _ (h.closed u hu v hadj)
    · obtain rfl := mem_singleton.mp hu
      have hv : v ∈ before ++ (s.out ++ s.queue ++ new) := by
        rcases hl.all v hadj with hmark | hmem
        · have hmet := (hinv.visited_iff v).mp hmark
          rw [← append_assoc]
          exact mem_append_left _ hmet
        · have hmet := hall v hmem
          rwa [← append_assoc (s.out ++ [u]), hsame] at hmet
      rcases mem_append.mp hv with hold | hmet
      · exact absurd (hreach.trans hadj.reachable) (hbefore v hold)
      · exact hmet

lemma Layered.run (hnext : ∀ marks node, marks.length = n → marks[node]? = some true →
      Returns (neighbours marks node) (Looks G marks node)) :
    Returns (s.run neighbours) fun s' =>
      s'.Inv n before ∧ Layered G seed s' ∧ s'.queue = [] := by
  refine .whileLoop (P := fun t : Traversal => t.Inv n before ∧ Layered G seed t)
    (fun t => n - t.out.length) ?_ ⟨hinv, h⟩ (by rw [hinv.length]; omega)
  rintro t ⟨ht, hlayers⟩
  rw [Traversal.turn]
  cases hq : t.queue with
  | nil => exact .pure ⟨ht, hlayers, hq⟩
  | cons node rest =>
    have hmark : t.visited[node]? = some true := (ht.visited_iff node).mpr (by simp [hq])
    have hroom := ht.length_out_lt (by simp [hq])
    refine (hnext t.visited node ht.length hmark).bind fun l hl => ?_
    refine (hlayers.turn ht hbefore hq hl).bind fun t' ht' => .pure ?_
    obtain ⟨hinv', hlayers', hout⟩ := ht'
    refine ⟨⟨hinv', hlayers'⟩, ?_⟩
    rw [hout, length_append, length_singleton]
    omega

end

lemma Layered.mem_out_iff (h : Layered G seed s) (hq : s.queue = []) :
    v ∈ s.out ↔ G.Reachable seed v := by
  have hwhole : s.out ++ s.queue = s.out := by rw [hq, append_nil]
  refine ⟨fun hv => h.reachable v (by rwa [hwhole]), fun hv => ?_⟩
  obtain ⟨p⟩ := hv
  have hstep : ∀ {u w : ℕ} (p : G.Walk u w), u ∈ s.out → w ∈ s.out := by
    intro u w p
    induction p with
    | nil => exact id
    | cons hadj _ ih => exact fun hu => ih (hwhole ▸ h.closed _ hu _ hadj)
  exact hstep p (hwhole ▸ h.seed_mem)

end Traversal

end Rvanns.Cpp
