import Rvanns.Cpp.Sort
import Rvanns.Cpp.Table
import Rvanns.Knowhere.BitsetView
import Rvanns.Simd.Hook

/-!
# MinHash LSH search

The searches of `minhash_util.cc` for vectors that agree with a query on a whole band.
-/

namespace Rvanns.Knowhere.MinHash

open Cpp List Simd

/-- The sizes a search is called with. -/
structure LshParams where
  sizeInBytes : ℕ
  elementSizeInBytes : ℕ
  band : ℕ
  r : ℕ

namespace LshParams

def truncatedSize (p : LshParams) : ℕ := p.band * p.r * p.elementSizeInBytes

/-- The bytes of one band. -/
def bandSize (p : LshParams) : ℕ := p.truncatedSize / p.band

def bandBytes (p : LshParams) (data : ℕ → UInt8) (row b : ℕ) : List UInt8 :=
  (range p.bandSize).map fun t => data (p.sizeInBytes * row + p.bandSize * b + t)

end LshParams

variable (hash : List UInt8 → UInt64) (p : LshParams)

def getHashKey (data : ℕ → UInt8) (row b : ℕ) : UInt64 := hash (p.bandBytes data row b)

structure KVPair where
  key : UInt64
  value : ℤ
  deriving DecidableEq

def genHashKV (data : ℕ → UInt8) (rows : ℕ) : List KVPair :=
  tableOf rows fun j => (range p.band).map fun b => ⟨getHashKey hash p data j b, j⟩

def genTransposedHashKV (data : ℕ → UInt8) (rows : ℕ) : List KVPair :=
  tableOf p.band fun b => (range rows).map fun j => ⟨getHashKey hash p data j b, j⟩

def keyLt (a b : KVPair) : Bool := decide (a.key < b.key)

def sortHashKV (S : StdSort KVPair) (kvCode : List KVPair) (rows band : ℕ) : List KVPair :=
  tableOf band fun idx => S.run keyLt ((kvCode.drop (rows * idx)).take rows)

/-- `MinHashLSHResultHandler` -/
structure ResultHandler where
  idsList : List ℤ
  disList : List ℚ
  topk : ℕ
  counter : ℕ := 0
  deriving DecidableEq

namespace ResultHandler

def new (topk : ℕ) : ResultHandler where
  idsList := replicate topk (-1)
  disList := replicate topk 0
  topk := topk

def find (res : ResultHandler) (id : ℤ) : Bool := id != -1 && id ∈ res.idsList

def full (res : ResultHandler) : Bool := res.topk == res.counter

def push (res : ResultHandler) (id : ℤ) (dis : ℚ) : ResultHandler :=
  if res.full then res
  else if id = -1 ∨ dis < 1 / 1000000 then res
  else if 1 < res.topk ∧ res.find id then res
  else
    { res with
      idsList := res.idsList.set res.counter id
      disList := res.disList.set res.counter dis
      counter := res.counter + 1 }

end ResultHandler

def pushWhileEqual (baseHashK : List UInt64) (baseHashV : List ℤ) (band i : ℕ)
    (queryKey : UInt64) : ℕ → ResultHandler → ℤ → Option ResultHandler
  | 0, res, _ => some res
  | fuel + 1, res, hitId =>
    if !res.full && decide (hitId < band) then do
      let key ← rd baseHashK (i * band + hitId)
      if key = queryKey then do
        let v ← rd baseHashV hitId
        pushWhileEqual baseHashK baseHashV band i queryKey fuel (res.push v 1) (hitId + 1)
      else some res
    else some res

variable (simd : SimdType)

/-- The loop over the bands for one query. -/
def searchBands (baseHashK : List UInt64) (baseHashV : List ℤ) (queryKeys : List UInt64)
    (ny : ℕ) : List ℕ → ResultHandler → Option ResultHandler
  | [], res => some res
  | i :: bands, res => do
    let queryKey ← rd queryKeys i
    let hitId := u64BinarySearchEq simd (fun s => (baseHashK[i * ny + s]?).getD 0) ny queryKey
    if hitId ≠ -1 then do
      let v ← rd baseHashV hitId
      let res ← pushWhileEqual baseHashK baseHashV p.band i queryKey p.band (res.push v 1) hitId
      if res.full then some res else searchBands baseHashK baseHashV queryKeys ny bands res
    else searchBands baseHashK baseHashV queryKeys ny bands res

def minhashLshHitWithTopk1OptSearch (S : StdSort KVPair) (x y : ℕ → UInt8) (nx ny topk : ℕ) :
    Option (List ResultHandler) :=
  let baseKV := sortHashKV S (genTransposedHashKV hash p y ny) ny p.band
  let queryHashK := (genHashKV hash p x nx).map KVPair.key
  (range nx).mapM fun queryId =>
    searchBands p simd (baseKV.map KVPair.key) (baseKV.map KVPair.value)
      ((queryHashK.drop (p.band * queryId)).take p.band) ny (range p.band)
      (ResultHandler.new topk)

def minhashLshHit (x y : ℕ → UInt8) (queryId row : ℕ) : ℚ :=
  if (range p.band).any fun b => p.bandBytes x queryId b == p.bandBytes y row b then 1 else 0

def scanRows (x y : ℕ → UInt8) (bitset : BitsetView) (queryId : ℕ) :
    List ℕ → ResultHandler → ResultHandler
  | [], res => res
  | i :: rows, res =>
    if bitset.empty || !bitset.test i then
      let res := res.push i (minhashLshHit p x y queryId i)
      if res.full then res else scanRows x y bitset queryId rows res
    else scanRows x y bitset queryId rows res

def minHashLSHHitByNy (x y : ℕ → UInt8) (ny topk : ℕ) (bitset : BitsetView) (queryId : ℕ) :
    ResultHandler :=
  scanRows p x y bitset queryId (range ny) (ResultHandler.new topk)

def minHashVecSearch (S : StdSort KVPair) (x y : ℕ → UInt8) (nx ny topk : ℕ)
    (bitset : BitsetView) : Option (List ResultHandler) :=
  if topk = 1 then minhashLshHitWithTopk1OptSearch hash p simd S x y nx ny topk
  else some ((range nx).map fun queryId => minHashLSHHitByNy p x y ny topk bitset queryId)

end Rvanns.Knowhere.MinHash
