import Rvanns.Faiss.BruteForce
import Rvanns.Faiss.MetricType
import Rvanns.Knowhere.BitsetView

/-!
# The brute-force wrapper of an HNSW index

`IndexBruteForceWrapper::search` runs the brute-force scan once for each of `n` queries.
-/

namespace Rvanns.Knowhere

open Cpp Faiss List

structure Index (F : Type*) where
  d : ℕ
  ntotal : ℕ
  metricType : MetricType
  /-- `get_distance_computer()`: the distance of a query to a stored row. -/
  distance : List F → ℕ → F

inductive IDSelector
  | bitsetView (bitset : BitsetView)
  | other (isMember : ℕ → Bool)

variable {F : Type*} [LinearOrder F] [Zero F]

namespace IndexBruteForceWrapper

def filterOf (sel : Option IDSelector) (id : ℕ) : Bool :=
  match sel with
  | some (.bitsetView bitset) => if !bitset.empty then !bitset.test id else true
  | _ => true

variable (limits : NumericLimits F)

def cmpOf (index : Index F) : Cmp F :=
  if index.metricType.isSimilarityMetric then CMin limits else CMax limits

def queryAt (index : Index F) (x : ℕ → F) (i : ℕ) : List F :=
  (range index.d).map fun j => x (i * index.d + j)

def searchStep (index : Index F) (x : ℕ → F) (k : ℕ)
    (sel : Option IDSelector) (out : SearchOut F) (i : ℕ) : SearchOut F :=
  bruteForceSearchImpl (cmpOf limits index) index.ntotal (index.distance (queryAt index x i))
    (filterOf sel) k (i * index.d) out

def search (index : Index F) (n : ℕ) (x : ℕ → F) (k : ℕ)
    (sel : Option IDSelector) (out : SearchOut F) : Except String (SearchOut F) :=
  if 0 < k then .ok ((range n).foldl (searchStep limits index x k sel) out)
  else .error "k > 0"

def resultsOf (index : Index F) (x : ℕ → F) (k : ℕ)
    (sel : Option IDSelector) (i : ℕ) : List (F × ℤ) :=
  bruteForceResults (cmpOf limits index) index.ntotal (index.distance (queryAt index x i))
    (filterOf sel) k

/-- A search that starts from untouched buffers leaves the `k` results of each of the `n` queries
in that query's slots, and touches nothing else.  A refused call writes nothing. -/
def WritesOwnSlots (index : Index F) (n : ℕ) (x : ℕ → F) (k : ℕ) (sel : Option IDSelector) : Prop :=
  ∀ out, search limits index n x k sel SearchOut.untouched = .ok out →
    HoldsBlocks out.labels k (fun i => (resultsOf limits index x k sel i).map Prod.snd) n ∧
    HoldsBlocks out.distances k (fun i => (resultsOf limits index x k sel i).map Prod.fst) n

lemma searchStep_eq (index : Index F) (x : ℕ → F) (k : ℕ)
    (sel : Option IDSelector) (out : SearchOut F) (i : ℕ) :
    searchStep limits index x k sel out i =
      out.writeResults (i * index.d) (resultsOf limits index x k sel i) :=
  bruteForceSearchImpl_eq _ _ _ _ _ _ _

lemma foldl_searchStep (index : Index F) (x : ℕ → F) (k : ℕ) (sel : Option IDSelector) (n : ℕ) :
    (range n).foldl (searchStep limits index x k sel) SearchOut.untouched =
      { distances := writeBlocks (fun _ => none) index.d
          (fun i => (resultsOf limits index x k sel i).map Prod.fst) n
        labels := writeBlocks (fun _ => none) index.d
          (fun i => (resultsOf limits index x k sel i).map Prod.snd) n } := by
  induction n with
  | zero => rfl
  | succ n ih =>
    rw [range_succ, foldl_append, ih, foldl_cons, searchStep_eq]
    rfl

/-- **The slots a search writes**: every query's results end up in that query's slots exactly when
the call is refused, has at most one query, or asks for as many results as a query has
dimensions. -/
theorem writesOwnSlots_iff (limits : NumericLimits F) (index : Index F) (n : ℕ) (x : ℕ → F)
    (k : ℕ) (sel : Option IDSelector) :
    WritesOwnSlots limits index n x k sel ↔ k = 0 ∨ n ≤ 1 ∨ index.d = k := by
  have hlen : ∀ i, (resultsOf limits index x k sel i).length = k := fun i =>
    bruteForceResults_length _ _ _ _ _
  have hsnd : ∀ i, ((resultsOf limits index x k sel i).map Prod.snd).length = k := fun i => by
    rw [length_map, hlen]
  have hfst : ∀ i, ((resultsOf limits index x k sel i).map Prod.fst).length = k := fun i => by
    rw [length_map, hlen]
  unfold WritesOwnSlots search
  rcases Nat.eq_zero_or_pos k with hk | hk
  · simp [hk]
  · rw [if_pos hk, foldl_searchStep]
    simp only [Except.ok.injEq, forall_eq']
    rw [writeBlocks_holdsBlocks_iff hk hsnd, writeBlocks_holdsBlocks_iff hk hfst, and_self]
    constructor
    · exact .inr
    · rintro (h | h)
      · omega
      · exact h

/-- Two queries of dimension 3 that ask for two results each: the second query's results go to the
slots 3 and 4 instead of 2 and 3, one past the end of the buffers. -/
theorem not_writesOwnSlots_two_queries :
    ¬ WritesOwnSlots (F := ℤ) ⟨-1000, 1000⟩ ⟨3, 2, .l2, fun _ i => i⟩ 2 (fun _ => 0) 2 none := by
  intro h
  have hslot := (h _ rfl).1 4
  exact absurd hslot (by decide)

end IndexBruteForceWrapper

end Rvanns.Knowhere
