import Rvanns.Knowhere.DataViewRefiner

/-!
# How an embedding-list search is left

The checks of `IndexNode::SearchEmbList` in their order, and what it does when a function that it
calls fails.
-/

namespace Rvanns.Knowhere.EmbListSearch

inductive ElMetric where
  | maxSim
  | dtw

inductive SubMetric where
  | cosine
  | ip
  | l2
  | hamming
  | jaccard
deriving DecidableEq

/-- How `SearchEmbList` is left before its end: with an error result, by an exception, or by what
the language does not define. -/
inductive Exit where
  | err (what : String)
  | thrown (what : String)
  | undefined

/-- `MAX_SIM_IP` is `some (.maxSim, some .ip)` and `DTW` is `some (.dtw, none)`; `nqs` are the
lengths of the query lists, if the dataset has offsets. -/
structure Request where
  metricType : Option (ElMetric × Option SubMetric)
  nqs : Option (List ℕ)
  k : ℕ
  retrievalAnnRatio : ℚ

abbrev AggFunc (D : Type) := List D → ℕ → ℕ → Bool → Option D

/-- The node: its offsets, unless `emb_list_offset_` is null, and what the functions that
`SearchEmbList` calls return; `none` is an error. -/
structure Callees (D : Type) where
  embListOffset : Option (List ℕ)
  /-- The ids that stage 1 has found for the vectors of a query list. -/
  search : Option (ℕ → List ℤ)
  /-- An index that does not override it throws. -/
  getQueryCodeSize : Except String (Option ℕ)
  /-- The order in which an `unordered_set` of lists is traversed. -/
  traversed : List ℕ → List ℕ
  mem_traversed : ∀ els el, el ∈ traversed els ↔ el ∈ els
  calcDistByIds : ℕ → ℕ → Option (List D)
  getSumMaxSim : AggFunc D

variable {D : Type}

/-- For DTW an optional that holds an empty function. -/
def getEmbListAggFunc (c : Callees D) : ElMetric → Option (Option (AggFunc D))
  | .maxSim => some (some c.getSumMaxSim)
  | .dtw => some none

def vecTopk (round : ℚ → ℚ) (r : Request) : Option ℤ :=
  (intOfFloat (scaledK round r.k r.retrievalAnnRatio)).map (max · 1)

/-- `upper_bound`, less one. -/
def getElId (offset : List ℕ) (vid : ℕ) : ℕ := (offset.findIdx (vid < ·) + 2 ^ 64 - 1) % 2 ^ 64

/-- The number of vectors of a list, if its id is valid. -/
def elLen (offset : List ℕ) (el : ℕ) : Option ℕ :=
  if el + 1 < offset.length then some (offset.getD (el + 1) 0 - offset.getD el 0) else none

def exitOfScore (c : Callees D) (offset : List ℕ) (aggFunc : Option (AggFunc D))
    (largerIsCloser : Bool) (q : ℕ × ℕ) (el : ℕ) : Option Exit :=
  match elLen offset el, c.calcDistByIds q.2 el, aggFunc with
  | none, _, _ => some (.err "invalid emb_list id")
  | some _, none, _ => some (.err "bf search error")
  | some _, some _, none => some (.thrown "bad_function_call")
  | some elLen, some dists, some aggFunc =>
    if (aggFunc dists q.1 elLen largerIsCloser).isNone then some (.err "get_sum_max_sim failed")
    else none

/-- The lists with the vectors that stage 1 has found. -/
def elIdsSet (c : Callees D) (offset : List ℕ) (ids : List ℤ) : List ℕ :=
  c.traversed ((ids.filter (0 ≤ ·)).map fun id => getElId offset id.toNat)

/-- One query list, the `q.2`-th with `q.1` vectors. -/
def exitOfList (c : Callees D) (stage1Ids : ℕ → List ℤ) (aggFunc : Option (AggFunc D))
    (largerIsCloser : Bool) (q : ℕ × ℕ) : Option Exit :=
  match c.embListOffset with
  | none => if (stage1Ids q.2).all (· < 0) then none else some .undefined
  | some offset =>
    (elIdsSet c offset (stage1Ids q.2)).findSome? (exitOfScore c offset aggFunc largerIsCloser q)

/-- How the search is left, if it does not come to its rows. -/
def exitOfSearch (round : ℚ → ℚ) (r : Request) (c : Callees D) : Option Exit :=
  match r.nqs, r.metricType with
  | none, _ => some (.err "missing emb_list offset, could not search")
  | some _, none => some (.err "invalid metric type")
  | some nqs, some (elMetric, sub) =>
    match getEmbListAggFunc c elMetric, vecTopk round r, c.search, c.getQueryCodeSize with
    | none, _, _, _ => some (.err "invalid emb list aggeration function for metric type: ")
    | some _, none, _, _ => some .undefined
    -- `value()` of what `Search` returns
    | some _, some _, none, _ => some (.thrown "bad_optional_access")
    | some _, some _, some _, .error what => some (.thrown what)
    | some _, some _, some _, .ok none => some (.err "could not get query code size")
    | some aggFunc, some _, some stage1Ids, .ok (some _) =>
      nqs.zipIdx.findSome?
        (exitOfList c stage1Ids aggFunc (sub.getD .cosine ∈ [SubMetric.cosine, .ip]))

end Rvanns.Knowhere.EmbListSearch
