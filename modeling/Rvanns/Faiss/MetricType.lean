import Mathlib

/-!
# Metric types
-/

namespace Rvanns.Faiss

/-- `enum MetricType`. -/
inductive MetricType where
  | innerProduct
  | l2
  | l1
  | linf
  | lp
  | jaccard
  | hamming
  | substructure
  | superstructure
  | canberra
  | brayCurtis
  | jensenShannon
  | naNEuclidean
  | absInnerProduct
  | minHashJaccard
deriving DecidableEq, Repr

namespace MetricType

/-- The value of the enumerator. -/
def code : MetricType → ℕ
  | innerProduct => 0
  | l2 => 1
  | l1 => 2
  | linf => 3
  | lp => 4
  | jaccard => 5
  | hamming => 7
  | substructure => 8
  | superstructure => 9
  | canberra => 20
  | brayCurtis => 21
  | jensenShannon => 22
  | naNEuclidean => 24
  | absInnerProduct => 25
  | minHashJaccard => 26

def isSimilarityMetric (m : MetricType) : Bool := m == innerProduct

end MetricType

end Rvanns.Faiss
