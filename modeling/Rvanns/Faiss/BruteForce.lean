import Rvanns.Cpp.Block
import Rvanns.Faiss.Heap

/-!
# The brute-force scan

`brute_force_search_impl` of `cppcontrib/knowhere/impl/Bruteforce.h`.
-/

namespace Rvanns.Faiss

open Cpp List

variable {F : Type*}

structure SearchOut (F : Type*) where
  distances : ℕ → Option F
  labels : ℕ → Option ℤ

namespace SearchOut

def untouched : SearchOut F := ⟨fun _ => none, fun _ => none⟩

def set (out : SearchOut F) (slot : ℕ) (distance : F) (label : ℤ) : SearchOut F where
  distances := Function.update out.distances slot (some distance)
  labels := Function.update out.labels slot (some label)

def writeResults (out : SearchOut F) (p : ℕ) (results : List (F × ℤ)) : SearchOut F where
  distances := writeBlock out.distances p (results.map Prod.fst)
  labels := writeBlock out.labels p (results.map Prod.snd)

lemma set_writeResults_succ (out : SearchOut F) (p : ℕ) (results : List (F × ℤ))
    (r : F × ℤ) : (out.writeResults (p + 1) results).set p r.1 r.2 =
      out.writeResults p (r :: results) := by
  simp only [set, writeResults, update_writeBlock_pred, map_cons]

lemma set_writeResults_end (out : SearchOut F) (p : ℕ) (results : List (F × ℤ))
    (r : F × ℤ) : (out.writeResults p results).set (p + results.length) r.1 r.2 =
      out.writeResults p (results ++ [r]) := by
  have hfst := update_writeBlock out.distances p (results.map Prod.fst) r.1
  have hsnd := update_writeBlock out.labels p (results.map Prod.snd) r.2
  rw [length_map] at hfst hsnd
  simp only [set, writeResults, hfst, hsnd, map_append, map_cons, map_nil]

@[simp] lemma writeResults_nil (out : SearchOut F) (p : ℕ) : out.writeResults p [] = out := by
  simp [writeResults]

end SearchOut

variable [LinearOrder F]

def scanStep (C : Cmp F) (qdis : ℕ → F) (isMember : ℕ → Bool) (k : ℕ)
    (s : ℕ × (ℕ → F × ℤ)) (idx : ℕ) : ℕ × (ℕ → F × ℤ) :=
  if isMember idx then
    let distance := qdis idx
    if s.1 < k then (s.1 + 1, heapPush C (s.1 + 1) s.2 distance idx)
    else if C.cmp (s.2 1).1 distance then (s.1, heapReplaceTop C k s.2 distance idx)
    else s
  else s

def scan [Zero F] (C : Cmp F) (ntotal : ℕ) (qdis : ℕ → F) (isMember : ℕ → Bool)
    (k : ℕ) : ℕ × (ℕ → F × ℤ) :=
  (range ntotal).foldl (scanStep C qdis isMember k) (0, fun _ => (0, 0))

def drainStep (C : Cmp F) (p len : ℕ) (s : SearchOut F × (ℕ → F × ℤ)) (i : ℕ) :
    SearchOut F × (ℕ → F × ℤ) :=
  (s.1.set (p + (len - i - 1)) (s.2 1).1 (s.2 1).2, heapPop C (len - i) s.2)

def bruteForceSearchImpl [Zero F] (C : Cmp F) (ntotal : ℕ) (qdis : ℕ → F) (isMember : ℕ → Bool)
    (k p : ℕ) (out : SearchOut F) : SearchOut F :=
  let (nAdded, maxHeap) := scan C ntotal qdis isMember k
  let len := min nAdded k
  let (out, _) := (range len).foldl (drainStep C p len) (out, maxHeap)
  -- fill leftovers
  (range' len (k - len)).foldl (fun out idx => out.set (p + idx) C.neutral (-1)) out

def drain (C : Cmp F) : ℕ → (ℕ → F × ℤ) → List (F × ℤ)
  | 0, _ => []
  | n + 1, bh => bh 1 :: drain C n (heapPop C (n + 1) bh)

def bruteForceResults [Zero F] (C : Cmp F) (ntotal : ℕ) (qdis : ℕ → F) (isMember : ℕ → Bool)
    (k : ℕ) :
    List (F × ℤ) :=
  let (nAdded, maxHeap) := scan C ntotal qdis isMember k
  let len := min nAdded k
  (drain C len maxHeap).reverse ++ replicate (k - len) (C.neutral, -1)

@[simp] lemma drain_length (C : Cmp F) (n : ℕ) : ∀ bh : ℕ → F × ℤ, (drain C n bh).length = n := by
  induction n with
  | zero => intro bh; rfl
  | succ n ih => intro bh; rw [drain, length_cons, ih]

lemma bruteForceResults_length [Zero F] (C : Cmp F) (ntotal : ℕ) (qdis : ℕ → F)
    (isMember : ℕ → Bool) (k : ℕ) : (bruteForceResults C ntotal qdis isMember k).length = k := by
  simp only [bruteForceResults, length_append, length_reverse, drain_length, length_replicate]
  omega

lemma foldl_drainStep (C : Cmp F) (p len : ℕ) (out : SearchOut F) (n : ℕ) (bh : ℕ → F × ℤ)
    (done : List (F × ℤ)) (hn : n ≤ len) :
    ((range' (len - n) n).foldl (drainStep C p len) (out.writeResults (p + n) done, bh)).1 =
      out.writeResults p ((drain C n bh).reverse ++ done) := by
  induction n generalizing bh done with
  | zero => rfl
  | succ n ih =>
    have hpop : len - (len - (n + 1)) = n + 1 := by omega
    have hnext : len - (n + 1) + 1 = len - n := by omega
    rw [range'_succ, foldl_cons, hnext, drain, reverse_cons, append_assoc]
    have hset := SearchOut.set_writeResults_succ out (p + n) done (bh 1)
    simp only [drainStep, hpop, Nat.add_sub_cancel]
    rw [show p + (n + 1) = p + n + 1 by omega, hset]
    exact ih _ (bh 1 :: done) (by omega)

omit [LinearOrder F] in
lemma foldl_fill (C : Cmp F) (p : ℕ) (out : SearchOut F) (m : ℕ) (results : List (F × ℤ)) :
    (range' results.length m).foldl (fun out idx => out.set (p + idx) C.neutral (-1))
      (out.writeResults p results) =
      out.writeResults p (results ++ replicate m (C.neutral, -1)) := by
  induction m generalizing results with
  | zero => simp
  | succ m ih =>
    have hset := SearchOut.set_writeResults_end out p results (C.neutral, -1)
    have hih := ih (results ++ [(C.neutral, -1)])
    rw [length_append, length_singleton] at hih
    rw [range'_succ, foldl_cons, hset, hih, append_assoc, replicate_succ, singleton_append]

/-- **The scan's output**: exactly the `k` slots from `p` on are written, with the scan's results,
which depend neither on `p` nor on the buffers. -/
theorem bruteForceSearchImpl_eq [Zero F] (C : Cmp F) (ntotal : ℕ) (qdis : ℕ → F)
    (isMember : ℕ → Bool) (k p : ℕ) (out : SearchOut F) :
    bruteForceSearchImpl C ntotal qdis isMember k p out =
      out.writeResults p (bruteForceResults C ntotal qdis isMember k) := by
  unfold bruteForceSearchImpl bruteForceResults
  obtain ⟨nAdded, maxHeap⟩ := scan C ntotal qdis isMember k
  have hdrain := foldl_drainStep C p (min nAdded k) out (min nAdded k) maxHeap [] le_rfl
  rw [Nat.sub_self, ← range_eq_range', SearchOut.writeResults_nil, append_nil] at hdrain
  have hfill := foldl_fill C p out (k - min nAdded k) (drain C (min nAdded k) maxHeap).reverse
  rw [length_reverse, drain_length] at hfill
  simp only [hdrain, hfill]

end Rvanns.Faiss
