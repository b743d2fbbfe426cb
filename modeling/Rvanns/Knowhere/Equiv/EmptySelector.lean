import Rvanns.Knowhere.EmptySelector

/-!
# When the selector of an empty bitset means no filter

Three of the four methods take it for no filter.
-/

namespace Rvanns.Knowhere

open Cpp Faiss List

variable {F : Type} [LinearOrder F]

structure MeansNoFilter [Zero F] [Neg F] (limits : NumericLimits F) (index : Index F) (n : ℕ)
    (x : ℕ → F) (radius : F) (Q : StdPriorityQueue (Neighbor F)) (queries : List (HnswSearcher F))
    (bitset : BitsetView) : Prop where
  search : ∀ k out, IndexBruteForceWrapper.search limits index n x k
    (some (.bitsetView bitset)) out =
    IndexBruteForceWrapper.search limits index n x k none out
  rangeSearch : IndexBruteForceWrapper.rangeSearch limits index n x radius
      (some (.bitsetView bitset)) =
    IndexBruteForceWrapper.rangeSearch limits index n x radius none
  hnswSearch : ∀ similarity k slots,
    IndexHNSWWrapper.search Q queries similarity k (some (.bitsetView bitset)) slots =
      IndexHNSWWrapper.search Q queries similarity k none slots
  hnswRangeSearch : ∀ similarity,
    IndexHNSWWrapper.rangeSearch Q queries similarity radius (some (.bitsetView bitset)) =
      IndexHNSWWrapper.rangeSearch Q queries similarity radius none

lemma BitsetView.test_of_empty {bitset : BitsetView} (h : bitset.empty = true) (id : ℕ) :
    bitset.test id = true := by
  have hbits : bitset.numBits = 0 := eq_of_beq h
  unfold BitsetView.test BitsetView.testBit
  cases bitset.outIds <;> simp [hbits]

lemma filterOf_of_empty (h : bitset.empty = true) :
    IndexBruteForceWrapper.filterOf (some (.bitsetView bitset)) =
      IndexBruteForceWrapper.filterOf none := by
  funext id
  simp [IndexBruteForceWrapper.filterOf, h]

lemma bruteForceRangeSearchImpl_eq (C : Cmp F) (ntotal : ℕ) (qdis : ℕ → F) (isMember : ℕ → Bool)
    (threshold : F) :
    bruteForceRangeSearchImpl C ntotal qdis isMember threshold =
      ((range ntotal).filter fun idx => isMember idx && C.cmp threshold (qdis idx)).map
        fun idx => (qdis idx, idx) := by
  unfold bruteForceRangeSearchImpl
  induction ntotal with
  | zero => rfl
  | succ n ih =>
    rw [range_succ, foldl_append, ih, filter_append, map_append]
    cases hm : isMember n <;> cases hc : C.cmp threshold (qdis n) <;> simp [hm, hc]

variable [Zero F] [Neg F]

/-- **An empty view means no filter** in all four methods exactly if no row is within the radius of
a query: the range search of the brute-force wrapper asks the selector, which takes every id for one
beyond the end of the view. -/
theorem meansNoFilter_iff (limits : NumericLimits F) (index : Index F) (n : ℕ) (x : ℕ → F)
    (radius : F) (Q : StdPriorityQueue (Neighbor F)) (queries : List (HnswSearcher F)) :
    (∀ bitset : BitsetView, bitset.empty = true →
      MeansNoFilter limits index n x radius Q queries bitset) ↔
      ∀ i < n, ∀ idx < index.ntotal, (IndexBruteForceWrapper.cmpOf limits index).cmp radius
        (index.distance (IndexBruteForceWrapper.queryAt index x i) idx) = false := by
  have hrange : ∀ bitset : BitsetView, bitset.empty = true →
      (IndexBruteForceWrapper.rangeSearch limits index n x radius (some (.bitsetView bitset)) =
        IndexBruteForceWrapper.rangeSearch limits index n x radius none ↔
      ∀ i < n, ∀ idx < index.ntotal, (IndexBruteForceWrapper.cmpOf limits index).cmp radius
        (index.distance (IndexBruteForceWrapper.queryAt index x i) idx) = false) := by
    intro bitset hempty
    unfold IndexBruteForceWrapper.rangeSearch
    rw [map_inj_left]
    simp only [mem_range, bruteForceRangeSearchImpl_eq]
    refine forall₂_congr fun i _ => ?_
    simp [IDSelector.isMember, BitsetView.test_of_empty hempty, filter_eq_nil_iff]
  constructor
  · intro h
    exact (hrange ⟨fun _ => 0, 0, 0, 0, none, 0, 0⟩ rfl).mp (h _ rfl).rangeSearch
  · intro h bitset hempty
    have hfilter := filterOf_of_empty hempty
    refine ⟨fun k out => ?_, (hrange bitset hempty).mpr h, fun similarity k slots => ?_,
      fun similarity => ?_⟩
    · unfold IndexBruteForceWrapper.search IndexBruteForceWrapper.searchStep
      rw [hfilter]
    · unfold IndexHNSWWrapper.search
      rw [hfilter]
    · unfold IndexHNSWWrapper.rangeSearch
      rw [hfilter]

/-- One row at distance 0 and the radius 1: it is found without a selector, and not with the
selector of an empty view. -/
theorem rangeSearch_emptyView :
    IndexBruteForceWrapper.rangeSearch (F := ℤ) ⟨-1000, 1000⟩ ⟨1, 1, .l2, fun _ i => i⟩ 1
        (fun _ => 0) 1 none = [[(0, 0)]] ∧
      IndexBruteForceWrapper.rangeSearch (F := ℤ) ⟨-1000, 1000⟩ ⟨1, 1, .l2, fun _ i => i⟩ 1
        (fun _ => 0) 1 (some (.bitsetView ⟨fun _ => 0, 0, 0, 0, none, 0, 0⟩)) = [[]] := by
  decide

end Rvanns.Knowhere
