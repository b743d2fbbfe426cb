import Rvanns.Cpp.Sort
import Rvanns.Cpp.Vector

/-!
# Flat data view indexes

`Add`, `GetDataNorm`, `Search` and `RangeSearch` of `DataViewIndexFlat`, without quantized data.
-/

namespace Rvanns.Knowhere

open Cpp List

/-- An index with the rows that its view serves, and what `Add` has stored of their norms. -/
structure DataViewFlat (V F : Type) where
  isCosine : Bool
  rows : List V := []
  norms : List F := []

namespace DataViewFlat

variable {Q V F : Type}

/-! ### Norms -/

section Norms

variable (norm : V → F)

/-- The arguments of `Add`: norms that are given are those of the rows. -/
structure AddCall where
  x : List V
  inNorms : Option (List F)
  given : ∀ l ∈ inNorms, l = x.map norm

def add (s : DataViewFlat V F) (call : AddCall norm) : DataViewFlat V F :=
  { s with
    rows := s.rows ++ call.x
    norms := if s.isCosine then s.norms ++ call.inNorms.getD (call.x.map norm) else s.norms }

def getDataNorm (s : DataViewFlat V F) (id : ℕ) : Option F :=
  if s.norms.length < id then s.rows[id]?.map norm else s.norms[id]?

end Norms

/-! ### Searches -/

/-- How the tasks of a call with `n` queries run: the order in which they end, and what task `j`
sees of the loop's variable, which it holds by reference, when it reads its query and when it begins
its result. -/
structure Schedule (n : ℕ) where
  order : List ℕ
  perm : order.Perm (range n)
  query : ℕ → ℕ
  result : ℕ → ℕ
  seen : ∀ j < n, j ≤ query j ∧ query j ≤ result j ∧ result j ≤ n

section Search

variable [Div F] (s : DataViewFlat V F) (computer : Q → V → F) (selects : ℕ → Bool)

def exhaustiveSearch (ny : ℕ) (x : Q) : Option (List (F × ℕ)) :=
  ((range ny).filter selects).mapM fun j => do
    let row ← s.rows[j]?
    let dis := computer x row
    if s.isCosine then
      let norm ← s.norms[j]?
      return (dis / norm, j)
    else return (dis, j)

variable (collect : List (F × ℕ) → List (F × ℕ)) (inRadius inFilter : F → Bool) (queries : List Q)

/-- Task `j` of `Search`, whose result handler makes `collect found` of the distances. -/
def searchTask (sched : Schedule queries.length) (out : ℕ → Option (List (F × ℕ))) (j : ℕ) :
    Option (ℕ → Option (List (F × ℕ))) := do
  let x ← queries[sched.query j]?
  if sched.result j < queries.length then
    -- as many rows as there are queries
    let found ← s.exhaustiveSearch computer selects queries.length x
    return Function.update out (sched.result j) (some (collect found))
  else none

def search (sched : Schedule queries.length) : Option (ℕ → Option (List (F × ℕ))) :=
  sched.order.foldlM (s.searchTask computer selects collect queries sched) fun _ => none

/-- What `RangeSearch` returns for query `i`.  The handler keeps what is within the radius, and the
range filter is applied to what the query has got. -/
def rangeSearch (i : ℕ) : Option (List (F × ℕ)) := do
  -- the offset `code_size_ * i` counts floats
  let x ← queries[4 * i]?
  let found ← s.exhaustiveSearch computer selects queries.length x
  let near := found.filter fun r => inRadius r.1
  -- `lims` has two entries; the handler fills them when it is destroyed, after they have been read
  if i = 0 ∨ i = 1 ∧ near = [] then return ([] : List (F × ℕ)).filter fun r => inFilter r.1
  else none

end Search

end DataViewFlat

end Rvanns.Knowhere
