import Rvanns.Faiss.HnswSearcher
import Rvanns.Knowhere.IndexBruteForceWrapper

/-!
# Selectors of empty bitsets

`range_search` of `IndexBruteForceWrapper` and of `IndexHNSWWrapper`, beside their `search`.
-/

namespace Rvanns.Knowhere

open Cpp Faiss List

variable {F : Type} [LinearOrder F]

/-- `is_member`, which asks also an empty bitset. -/
def IDSelector.isMember : IDSelector → ℕ → Bool
  | .bitsetView bitset, id => !bitset.test id
  | .other isMember, id => isMember id

/-- `brute_force_range_search_impl`. -/
def bruteForceRangeSearchImpl (C : Cmp F) (ntotal : ℕ) (qdis : ℕ → F) (isMember : ℕ → Bool)
    (threshold : F) : List (F × ℕ) :=
  (range ntotal).foldl
    (fun qr idx =>
      if isMember idx then if C.cmp threshold (qdis idx) then qr ++ [(qdis idx, idx)] else qr
      else qr) []

def IndexBruteForceWrapper.rangeSearch (limits : NumericLimits F) (index : Index F) (n : ℕ)
    (x : ℕ → F) (radius : F) (sel : Option IDSelector) : List (List (F × ℕ)) :=
  (range n).map fun i =>
    bruteForceRangeSearchImpl (cmpOf limits index) index.ntotal
      (index.distance (queryAt index x i)) (fun id => sel.all (·.isMember id)) radius

namespace IndexHNSWWrapper

open IndexBruteForceWrapper (filterOf)

variable (Q : StdPriorityQueue (Neighbor F)) (queries : List (HnswSearcher F))

/-- The distances of a similarity metric are searched negated. -/
def rangeSearch (similarity : Bool) [Neg F] (radiusIn : F) (sel : Option IDSelector) :
    Except Fault (List (List (F × ℤ))) :=
  let radius := if similarity then -radiusIn else radiusIn
  queries.mapM fun s => do
    let rres ← HnswSearcher.rangeSearch { s with isMember := filterOf sel } Q radius
      (replicate s.ntotal false) { threshold := radius }
    return if similarity then rres.results.map fun r => (-r.1, r.2) else rres.results

def search (similarity : Bool) [Neg F] (k : ℕ+) (sel : Option IDSelector) (slots : List (F × ℤ)) :
    Except Fault (List (List (F × ℤ))) :=
  queries.mapM fun s =>
    -- an empty graph fills the slots, and is left before distances get their sign back
    if s.hnsw.entryPoint = -1 then return replicate k (s.maxDist, -1)
    else do
      let found ← HnswSearcher.search { s with isMember := filterOf sel } Q k
        (replicate s.ntotal false) slots
      return if similarity then found.map fun r => (-r.1, r.2) else found

end IndexHNSWWrapper

end Rvanns.Knowhere
