import Rvanns.Knowhere.Status

/-!
# The rows that the concurrent sparse node keeps

`Train`, `Add` and `GetVectorByIds` of `sparse_index_node.cc` with metric IP.
-/

namespace Rvanns.Knowhere.SparseNodeRows

open List

variable {ρ : Type}

/-- A call, and whether the index can be made or takes the rows. -/
inductive Call (ρ : Type) where
  | train (created : Bool)
  | add (rows : List ρ) (taken : Bool)

/-- The number of rows of the index, if there is one, and `raw_data_`. -/
structure Node (ρ : Type) where
  index : Option ℕ := none
  rawData : List ρ := []

/-- `Train` leaves `raw_data_` as it is. -/
def train (created : Bool) (node : Node ρ) : Status × Node ρ :=
  if created then (.success, { node with index := some 0 }) else (.invalidArgs, node)

def addToIndex (rows : List ρ) (taken : Bool) (node : Node ρ) : Status × Node ρ :=
  match node.index with
  | none => (.emptyIndex, node)
  | some n =>
    if taken then (.success, { node with index := some (n + rows.length) })
    else (.sparseInnerError, node)

/-- `Add` keeps the rows also if the index did not take them. -/
def add (rows : List ρ) (taken : Bool) (node : Node ρ) : Status × Node ρ :=
  let (res, node) := addToIndex rows taken node
  (res, { node with rawData := node.rawData ++ rows })

def getVectorByIds (dim : ρ → ℤ) (node : Node ρ) (ids : List ℤ) : Except Failure (List ρ × ℤ) :=
  if node.rawData.isEmpty then
    .error (.status .invalidArgs "GetVectorByIds failed: raw data is empty")
  else do
    let data ← orUndefined (ids.mapM fun id => if 0 ≤ id then node.rawData[id.toNat]? else none)
    return (data, data.foldl (fun d row => max d (dim row)) 0)

def call (node : Node ρ) : Call ρ → Node ρ
  | .train created => (train created node).2
  | .add rows taken => (add rows taken node).2

def run (calls : List (Call ρ)) : Node ρ := calls.foldl call {}

end Rvanns.Knowhere.SparseNodeRows
