import Rvanns.Cpp.Scan

/-!
# Candidate lists of the HNSW search

`NeighborSetPopList` and `NeighborSetDoublePopList` of `Neighbor.h`.
-/

namespace Rvanns.Faiss

open Cpp

inductive NeighborStatus where
  | checked
  | valid
  | invalid
deriving DecidableEq, Repr

structure Neighbor (D : Type) where
  id : ℕ
  distance : D
  status : NeighborStatus
deriving DecidableEq, Repr

structure NeighborSetPopList (D : Type) where
  capacity : ℕ+
  cur : ℕ := 0
  data : List (Neighbor D) := []
deriving DecidableEq, Repr

namespace NeighborSetPopList

variable {D : Type} [LinearOrder D]

def insertHelper (s : NeighborSetPopList D) (nbr : Neighbor D) (pos : ℕ) : NeighborSetPopList D :=
  let size := if s.data.length < s.capacity then s.data.length + 1 else s.data.length
  { s with data := (s.data.insertIdx pos nbr).take size }

def insert (needSave : Bool) (s : NeighborSetPopList D) (nbr : Neighbor D) :
    NeighborSetPopList D × Option (Neighbor D) :=
  let pos := upperBound (·.distance) s.data nbr.distance
  if s.capacity ≤ pos then (s, some nbr)
  else
    let disqualified := if s.data.length = s.capacity then s.data.getLast? else none
    let s' := s.insertHelper nbr pos
    (if needSave && pos < s.cur then { s' with cur := pos } else s', disqualified)

def skipChecked (data : List (Neighbor D)) (cur : ℕ) : ℕ :=
  skipWhile (·.status = .checked) data cur

/-- The method `pop`. -/
def pop (needSave : Bool) (s : NeighborSetPopList D) : Option (Neighbor D × NeighborSetPopList D) :=
  if needSave then
    s.data[s.cur]?.map fun ret =>
      let data := s.data.set s.cur { ret with status := .checked }
      (ret, { s with data := data, cur := skipChecked data (s.cur + 1) })
  else
    match s.data with
    | [] => none
    | ret :: rest => some (ret, { s with data := rest })

def hasNext (needSave : Bool) (s : NeighborSetPopList D) : Bool :=
  if needSave then s.cur < s.data.length else 0 < s.data.length

def front (needSave : Bool) (s : NeighborSetPopList D) : Option (Neighbor D) :=
  if needSave then s.data[s.cur]? else s.data.head?

def atSearchBackDist (maxDist : D) (s : NeighborSetPopList D) : D :=
  if s.data.length < s.capacity then maxDist
  else (s.data[(s.capacity : ℕ) - 1]?.map (·.distance)).getD maxDist

end NeighborSetPopList

/-- The neighbours that pass the filter, and the others. -/
structure NeighborSetDoublePopList (D : Type) where
  validNs : NeighborSetPopList D
  invalidNs : NeighborSetPopList D
deriving DecidableEq, Repr

namespace NeighborSetDoublePopList

variable {D : Type} [LinearOrder D] (maxDist : D)

/-- The constructor. -/
def new (D : Type) (capacity : ℕ+) : NeighborSetDoublePopList D :=
  { validNs := { capacity := capacity }, invalidNs := { capacity := capacity } }

variable (s : NeighborSetDoublePopList D)

def insert (nbr : Neighbor D) : NeighborSetDoublePopList D × Option (Neighbor D) :=
  if nbr.status = .valid then
    let (validNs, disqualified) := s.validNs.insert true nbr
    ({ s with validNs := validNs }, disqualified)
  else if nbr.distance < s.validNs.atSearchBackDist maxDist then
    let (invalidNs, disqualified) := s.invalidNs.insert false nbr
    ({ s with invalidNs := invalidNs }, disqualified)
  else (s, some nbr)

def hasNext : Bool :=
  s.validNs.hasNext true ||
    (s.invalidNs.front false).any fun cur => cur.distance < s.validNs.atSearchBackDist maxDist

def popValid : Option (Neighbor D × NeighborSetDoublePopList D) :=
  (s.validNs.pop true).map fun p => (p.1, { s with validNs := p.2 })

def popInvalid : Option (Neighbor D × NeighborSetDoublePopList D) :=
  (s.invalidNs.pop false).map fun p => (p.1, { s with invalidNs := p.2 })

/-- The method `pop_based_on_distance`. -/
def pop : Option (Neighbor D × NeighborSetDoublePopList D) :=
  match s.invalidNs.front false, s.validNs.front true with
  | some cand, some res => if cand.distance < res.distance then s.popInvalid else s.popValid
  | some _, none => s.popInvalid
  | none, some _ => s.popValid
  | none, none => none

end NeighborSetDoublePopList

end Rvanns.Faiss
