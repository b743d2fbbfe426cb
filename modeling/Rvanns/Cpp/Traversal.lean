import Rvanns.Cpp.Returns

/-!
# Traversing a graph with a queue

Nodes are numbered from `0`; `visited` has a mark for each of them.
-/

namespace Rvanns.Cpp

open List

lemma length_le_of_nodup_of_lt {l : List ℕ} (hnd : l.Nodup) (hlt : ∀ i ∈ l, i < n) :
    l.length ≤ n := by
  have hsub : l ⊆ List.range n := fun i hi => mem_range.mpr (hlt i hi)
  simpa using (List.Nodup.subperm hnd hsub).length_le

/-- The state of a traversal. -/
structure Traversal where
  visited : List Bool
  queue : List ℕ
  out : List ℕ

namespace Traversal

def discover (s : Traversal) (next : ℕ) : Option Traversal := do
  let seen ← s.visited[next]?
  return if seen then s
    else { s with visited := s.visited.set next true, queue := s.queue ++ [next] }

/-- Takes one node off the queue. -/
def turn (neighbours : List Bool → ℕ → Option (List ℕ)) (s : Traversal) :
    Option (Turn Traversal Traversal) :=
  match s.queue with
  | [] => some (.done s)
  | node :: rest => do
    let candidates ← neighbours s.visited node
    let s' ← candidates.foldlM discover { s with queue := rest, out := s.out ++ [node] }
    return .next s'

/-- `while (!queue.empty())`. -/
def run (neighbours : List Bool → ℕ → Option (List ℕ)) (s : Traversal) : Option Traversal :=
  whileLoop (turn neighbours) (s.visited.length + 1) s

structure Inv (n : ℕ) (before : List ℕ) (s : Traversal) : Prop where
  length : s.visited.length = n
  nodup : (before ++ (s.out ++ s.queue)).Nodup
  visited_iff : ∀ i, s.visited[i]? = some true ↔ i ∈ before ++ (s.out ++ s.queue)

variable {n : ℕ} {before : List ℕ} {s : Traversal}
  {neighbours : List Bool → ℕ → Option (List ℕ)}

lemma Inv.lt_of_mem (h : s.Inv n before) (hi : i ∈ before ++ (s.out ++ s.queue)) : i < n := by
  have hlt := lt_length ((h.visited_iff i).mpr hi)
  rwa [h.length] at hlt

lemma Inv.discover (h : s.Inv n before) (hu : u < n) :
    Returns (s.discover u) fun s' => s'.Inv n before ∧ s'.out = s.out ∧ s.queue ⊆ s'.queue := by
  have hu' : u < s.visited.length := h.length.symm ▸ hu
  refine (Returns.getElem? hu').bind fun seen hseen => Returns.pure ?_
  cases seen with
  | true => exact ⟨h, rfl, List.Subset.refl _⟩
  | false =>
    have hnew : u ∉ before ++ (s.out ++ s.queue) := by
      rw [← h.visited_iff, hseen]
      simp
    rw [if_neg Bool.false_ne_true]
    refine ⟨⟨?_, ?_, fun i => ?_⟩, rfl, subset_append_left _ _⟩
    · simpa using h.length
    · rw [show before ++ (s.out ++ (s.queue ++ [u])) = before ++ (s.out ++ s.queue) ++ [u] by simp]
      exact nodup_append.mpr ⟨h.nodup, by simp, by rintro a ha b hb rfl; simp_all⟩
    · rw [show before ++ (s.out ++ (s.queue ++ [u])) = before ++ (s.out ++ s.queue) ++ [u] by simp,
        mem_append, ← h.visited_iff]
      by_cases hiu : u = i
      · subst hiu
        simp [hu']
      · rw [getElem?_set_ne hiu]
        simp [Ne.symm hiu]

/-- Discovering the neighbours of a node. -/
lemma Inv.discoverAll (h : s.Inv n before) {l : List ℕ} (hl : ∀ u ∈ l, u < n) :
    Returns (l.foldlM Traversal.discover s) fun s' =>
      s'.Inv n before ∧ s'.out = s.out ∧ s.queue ⊆ s'.queue := by
  refine .foldlM_inv l (fun u hu t ht => ?_) ⟨h, rfl, List.Subset.refl _⟩
  refine (ht.1.discover (hl u hu)).mono fun t' ht' => ⟨ht'.1, ht'.2.1.trans ht.2.1, ?_⟩
  exact fun i hi => ht'.2.2 (ht.2.2 hi)

/-- Beginning a traversal at a node without a mark. -/
lemma Inv.start {marks : List Bool} {out : List ℕ} (h : Inv n before ⟨marks, [], out⟩) {u : ℕ}
    (hu : u < n) (hseen : marks[u]? = some false) : Inv n before ⟨marks.set u true, [u], out⟩ := by
  obtain ⟨s', hs', hinv, -⟩ := h.discover hu
  have hnew : Traversal.discover ⟨marks, [], out⟩ u = some ⟨marks.set u true, [u], out⟩ := by
    simp [Traversal.discover, hseen]
  exact Option.some.inj (hs'.symm.trans hnew) ▸ hinv

lemma Inv.pop (h : s.Inv n before) (hq : s.queue = node :: rest) :
    Inv n before { s with queue := rest, out := s.out ++ [node] } := by
  have heq : s.out ++ [node] ++ rest = s.out ++ s.queue := by simp [hq]
  exact ⟨h.length, by rw [heq]; exact h.nodup, fun i => by rw [heq]; exact h.visited_iff i⟩

lemma Inv.length_out_lt (h : s.Inv n before) (hq : s.queue ≠ []) : s.out.length < n := by
  have hle := length_le_of_nodup_of_lt h.nodup fun i => h.lt_of_mem
  have hpos := length_pos_iff.mpr hq
  simp only [length_append] at hle
  omega

lemma Inv.run (hnext : ∀ marks node, marks.length = n → node < n →
      Returns (neighbours marks node) fun l => ∀ u ∈ l, u < n) (h : s.Inv n before) :
    Returns (s.run neighbours) fun s' =>
      s'.Inv n before ∧ s'.queue = [] ∧ s.out ++ s.queue ⊆ s'.out := by
  -- the output grows in every turn, and cannot outgrow the nodes
  refine .whileLoop
    (P := fun t : Traversal => t.Inv n before ∧ s.out ++ s.queue ⊆ t.out ++ t.queue)
    (fun t => n - t.out.length) ?_ ⟨h, List.Subset.refl _⟩ (by rw [h.length]; omega)
  rintro t ⟨ht, hsub⟩
  rw [turn]
  cases hq : t.queue with
  | nil =>
    refine .pure ⟨ht, hq, ?_⟩
    simpa [hq] using hsub
  | cons node rest =>
    have hnode : node < n := ht.lt_of_mem (by simp [hq])
    have hroom := ht.length_out_lt (by simp [hq])
    refine (hnext t.visited node ht.length hnode).bind fun candidates hlt => ?_
    refine ((ht.pop hq).discoverAll hlt).bind fun t' ht' => .pure ?_
    obtain ⟨hinv, hout, hqueue⟩ := ht'
    refine ⟨⟨hinv, fun i hi => ?_⟩, ?_⟩
    · have hmem := hsub hi
      rw [hq] at hmem
      rw [hout]
      simp only [mem_append, mem_cons, not_mem_nil, or_false] at hmem ⊢
      rcases hmem with hmem | rfl | hmem
      · exact .inl (.inl hmem)
      · exact .inl (.inr rfl)
      · exact .inr (hqueue hmem)
    · rw [hout, length_append, length_singleton]
      omega

lemma Inv.perm_range (h : s.Inv n before) (hq : s.queue = [])
    (hall : ∀ i < n, s.visited[i]? = some true) : (before ++ s.out).Perm (List.range n) := by
  have hnd := h.nodup
  rw [hq, append_nil] at hnd
  refine (perm_ext_iff_of_nodup hnd nodup_range).mpr fun i => ?_
  rw [mem_range]
  constructor
  · intro hi
    exact h.lt_of_mem (by rwa [hq, append_nil])
  · intro hi
    simpa [hq] using (h.visited_iff i).mp (hall i hi)

end Traversal

end Rvanns.Cpp
