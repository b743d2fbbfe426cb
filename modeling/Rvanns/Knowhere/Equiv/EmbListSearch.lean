import Rvanns.Knowhere.EmbListSearch
import Rvanns.Knowhere.Equiv.PrecomputedDistanceIterator

/-!
# When the rows of an embedding-list search are best first

The heap of a search leaves its entries from the best to the worst, and the padding comes behind
them, whatever it is worth.
-/

namespace Rvanns.Knowhere.EmbListSearch

open Cpp List

variable {F : Type} [LinearOrder F] {Q : StdPriorityQueue (DistId F)} {limits : FloatLimits F}
  {larger : Bool} {k : ℕ+}

variable (larger) in
/-- No slot is further than a later one. -/
def BestFirst (row : List (DistId F)) : Prop :=
  row.Pairwise fun a b => ¬ Better larger b.val a.val

lemma not_better_top (h : Q.pop (above larger) heap = some (top, rest)) :
    ∀ p ∈ heap, ¬ Better larger top.val p.val := fun p hp hbetter =>
  Q.top (sortsBefore_strictWeak larger).swap h p hp (sortsBefore_of_better hbetter)

variable (Q larger) in
lemma drain_spec (n : ℕ) (hn : heap.length = n) : (drain Q larger n heap).Perm heap ∧
      BestFirst larger (drain Q larger n heap) := by
  induction n generalizing heap with
  | zero =>
    obtain rfl := length_eq_zero_iff.mp hn
    exact ⟨.refl [], .nil⟩
  | succ n ih =>
    obtain ⟨top, rest, hpop⟩ := Q.exists_pop (above larger) (ne_nil_of_length_eq_add_one hn)
    have hperm := Q.perm_pop hpop
    have hlen : rest.length = n := by
      have := StdPriorityQueue.length_pop hpop
      omega
    obtain ⟨hrest, hsorted⟩ := ih hlen
    rw [drain, hpop]
    refine ⟨(hrest.append_right [top]).trans (perm_append_comm.trans hperm), ?_⟩
    refine pairwise_concat.mpr ⟨hsorted, fun p hp => ?_⟩
    exact not_better_top hpop p (hperm.mem_iff.mp (mem_cons_of_mem top (hrest.mem_iff.mp hp)))

lemma length_offer (heap : List (DistId F)) (entry : DistId F) (hle : heap.length ≤ k) :
    (offer Q larger k heap entry).length = min (k : ℕ) (heap.length + 1) := by
  unfold offer
  split_ifs with hlt
  · rw [Q.length_push]
    omega
  · split
    · next top rest hpop =>
      have := StdPriorityQueue.length_pop hpop
      split_ifs
      · rw [Q.length_push]
        omega
      · omega
    · omega

lemma length_foldl_offer (es : List (DistId F)) (heap : List (DistId F))
    (hle : heap.length ≤ k) : (es.foldl (offer Q larger k) heap).length =
      min (k : ℕ) (heap.length + es.length) := by
  induction es generalizing heap with
  | nil =>
    exact (min_eq_right hle).symm
  | cons entry es ih =>
    have hstep : (offer Q larger k heap entry).length = min (k : ℕ) (heap.length + 1) :=
      length_offer heap entry hle
    rw [foldl_cons, ih _ (by omega), hstep, length_cons]
    omega

lemma perm_foldl_offer (es : List (DistId F)) (heap : List (DistId F))
    (hle : heap.length + es.length ≤ k) :
    (es.foldl (offer Q larger k) heap).Perm (heap ++ es) := by
  induction es generalizing heap with
  | nil =>
    rw [append_nil]
    exact .refl heap
  | cons entry es ih =>
    rw [length_cons] at hle
    rw [foldl_cons, offer, if_pos (by omega)]
    refine (ih _ (by rw [Q.length_push]; omega)).trans ?_
    exact ((Q.perm_push _ heap entry).append_right es).trans perm_middle.symm

variable (limits) in
lemma bestFirst_row (es : List (DistId F)) :
    BestFirst larger (row Q limits larger k es) ↔ (k : ℕ) ≤ es.length ∨
      ∀ p ∈ es, ¬ Better larger (filler limits larger).val p.val := by
  have hlen : (es.foldl (offer Q larger k) []).length = min (k : ℕ) (0 + _) :=
    length_foldl_offer es [] (Nat.zero_le _)
  rw [Nat.zero_add] at hlen
  obtain ⟨hperm, hsorted⟩ := drain_spec Q larger _
    (rfl : (es.foldl (offer Q larger k) []).length = _)
  have hsame : ¬ Better larger (filler limits larger).val
      (filler limits larger).val := by
    cases larger <;> exact lt_irrefl _
  unfold row BestFirst
  rw [pairwise_append]
  rcases Nat.lt_or_ge es.length k with hlt | hge
  · have hall : (es.foldl (offer Q larger k) []).Perm es :=
      perm_foldl_offer es [] (by rw [length_nil]; omega)
    constructor
    · rintro ⟨-, -, hcross⟩
      refine .inr fun p hp => hcross p ((hperm.trans hall).mem_iff.mpr hp) _ ?_
      exact mem_replicate.mpr ⟨by omega, rfl⟩
    · rintro (hge | h)
      · omega
      · refine ⟨hsorted, pairwise_replicate.mpr (.inr hsame), fun p hp b hb => ?_⟩
        rw [(mem_replicate.mp hb).2]
        exact h p ((hperm.trans hall).mem_iff.mp hp)
  · refine iff_of_true ⟨hsorted, pairwise_replicate.mpr (.inr hsame), fun p _ b hb => ?_⟩
      (.inl hge)
    have := (mem_replicate.mp hb).1
    omega

/-- **The rows of both searches** are best first over all `k` slots exactly if there are `k` lists
or more, or no list's score is further than the padding. -/
theorem bestFirst_iff (Q : StdPriorityQueue (DistId F)) (limits : FloatLimits F)
    (larger : Bool) (k : ℕ+) (els : List ℕ) (score : ℕ → F) (xbIdOffset : ℤ) :
    (BestFirst larger (searchEmbList Q limits larger k els score) ↔
      (k : ℕ) ≤ els.length ∨ ∀ el ∈ els,
        ¬ Better larger (filler limits larger).val (score el)) ∧
    (BestFirst larger (searchWithBuf Q limits larger k xbIdOffset els score) ↔
      (k : ℕ) ≤ els.length ∨ ∀ el ∈ els,
        ¬ Better larger (filler limits larger).val (score el)) := by
  unfold searchEmbList searchWithBuf
  rw [bestFirst_row, bestFirst_row, length_map, length_map, forall_mem_map, forall_mem_map]
  exact ⟨Iff.rfl, Iff.rfl⟩

/-- Two slots and one list with the inner product -1: the padding is closer. -/
theorem searchEmbList_negativeScore :
    searchEmbList .sorting (⟨1, 1000⟩ : FloatLimits ℤ) true ⟨2, Nat.succ_pos 1⟩ [0]
        (fun _ => -1) = [⟨0, -1⟩, ⟨-1, 1⟩] ∧
      ¬ BestFirst true [(⟨0, -1⟩ : DistId ℤ), ⟨-1, 1⟩] := by
  refine ⟨rfl, fun h => ?_⟩
  exact rel_of_pairwise_cons h (mem_singleton.mpr rfl) (show (-1 : ℤ) < 1 by decide)

end Rvanns.Knowhere.EmbListSearch
