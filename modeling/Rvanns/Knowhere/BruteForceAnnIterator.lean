import Rvanns.Faiss.Heap
import Rvanns.Knowhere.BitsetView
import Rvanns.Knowhere.Equiv.PrecomputedDistanceIterator

/-!
# The brute-force iterator

`BruteForce::AnnIterator` of `brute_force.cc` gives each query an iterator over the distances to all
base rows.
-/

namespace Rvanns.Knowhere.BruteForce

open Cpp Faiss

variable {F : Type*} [LinearOrder F]

inductive DataType
  | fp32
  | lowPrecision
  | bin1
  deriving DecidableEq, Repr

inductive Metric
  | l2
  | ip
  | cosine
  | hamming
  | jaccard
  deriving DecidableEq, Repr

structure FloatConstants (F : Type*) extends NumericLimits F where
  infinity : F
  /-- `std::numeric_limits<int>::max()` as a distance. -/
  intMax : F

structure Input (F : Type*) where
  dataType : DataType
  metric : Metric
  /-- The number of base rows. -/
  nb : ℕ
  /-- `GetTensorBeginId()` -/
  beginId : ℕ
  /-- The distance of the query to a base row. -/
  distance : ℕ → F
  bitset : BitsetView

namespace Input

def shiftedBitset (inp : Input F) : BitsetView := inp.bitset.setIdOffset inp.beginId

def idSelector (inp : Input F) : Option (ℕ → Bool) :=
  if inp.shiftedBitset.empty then none else some fun j => !inp.shiftedBitset.test j

def filtered (inp : Input F) (j : ℕ) : Bool :=
  !inp.bitset.empty && inp.shiftedBitset.test j

def largerIsCloser (inp : Input F) : Bool :=
  inp.metric == .ip || inp.metric == .cosine

end Input

variable (sel : Option (ℕ → Bool))

def isSelected (j : ℕ) : Bool :=
  match sel with
  | none => true
  | some isMember => isMember j

def collectAll (distance : ℕ → F) (ny : ℕ) (output : List (DistId F)) : List (DistId F) :=
  (List.range ny).foldl
    (fun output j => if isSelected sel j then output.set j ⟨j, distance j⟩ else output) output

def allL2sqr (distance : ℕ → F) (ny : ℕ) (output : List (DistId F)) : List (DistId F) :=
  collectAll sel distance ny output

def allInnerProduct (distance : ℕ → F) (ny : ℕ) (output : List (DistId F)) : List (DistId F) :=
  collectAll sel distance ny output

def allCosine (distance : ℕ → F) (ny : ℕ) (output : List (DistId F)) : List (DistId F) :=
  collectAll sel distance ny output

def allBinaryDistances (large : F) (sel : Option (ℕ → Bool)) (distance : ℕ → F) (ny : ℕ) : List F :=
  (List.range ny).map fun j => if isSelected sel j then distance j else large

variable (constants : FloatConstants F)

def allHammingDistances (sel : Option (ℕ → Bool)) (distance : ℕ → F) (ny : ℕ) : List F :=
  allBinaryDistances constants.intMax sel distance ny

def allJaccardDistances (sel : Option (ℕ → Bool)) (distance : ℕ → F) (ny : ℕ) : List F :=
  allBinaryDistances constants.infinity sel distance ny

def labelAll (distances : List F) : List (DistId F) :=
  distances.mapIdx fun j distance => ⟨j, distance⟩

def rowEntries (inp : Input F) : Except String (List (DistId F)) :=
  let maxDis := if inp.largerIsCloser then constants.lowest else constants.max
  let output := List.replicate inp.nb ⟨-1, maxDis⟩
  match inp.metric, inp.dataType with
  | .l2, .bin1 => .error "Metric L2 not supported for current vector type"
  | .l2, _ => .ok (allL2sqr inp.idSelector inp.distance inp.nb output)
  | .cosine, .bin1 => .error "Metric COSINE not supported for current vector type"
  | .cosine, _ => .ok (allCosine inp.idSelector inp.distance inp.nb output)
  | .ip, .bin1 => .error "Metric IP not supported for current vector type"
  | .ip, _ => .ok (allInnerProduct inp.idSelector inp.distance inp.nb output)
  | .hamming, .bin1 =>
    .ok (labelAll (allHammingDistances constants inp.idSelector inp.distance inp.nb))
  | .hamming, _ => .error "Metric HAMMING not supported for current vector type"
  | .jaccard, .bin1 =>
    .ok (labelAll (allJaccardDistances constants inp.idSelector inp.distance inp.nb))
  | .jaccard, _ => .error "Metric JACCARD not supported for current vector type"

def shiftIds (beginId : ℕ) (entries : List (DistId F)) : List (DistId F) :=
  if beginId ≠ 0 then
    entries.map fun e => { e with id := if e.id = -1 then -1 else e.id + beginId }
  else entries

def computeDist (inp : Input F) : Except String (List (DistId F)) :=
  (rowEntries constants inp).map (shiftIds inp.beginId)

def NeverReturnsFiltered (inp : Input F) : Prop :=
  ∀ entries, computeDist constants inp = .ok entries →
    ∀ (P : StdPartialSort (DistId F)) (calls : List PrecomputedDistanceIterator.Call) returned,
      PrecomputedDistanceIterator.runCalls P inp.largerIsCloser entries calls {} =
        some returned →
      ∀ r ∈ returned, ∀ j < inp.nb, r.id = inp.beginId + j → ¬ inp.filtered j

end Rvanns.Knowhere.BruteForce
