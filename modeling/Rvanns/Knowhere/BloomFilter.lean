import Rvanns.Cpp.Wire

/-!
# The Bloom filter

`BloomFilter` of `comp/bloomfilter.h`.
-/

namespace Rvanns.Knowhere

open Cpp List

structure BloomArith where
  /-- The numbers of bits and probes as the constructor first computes them from the expected number
  of elements and the false positive probability; `none` if a conversion to an integer is
  undefined, as for probability 0. -/
  rawSizes : ℕ → ℚ → Option (ℕ × ℤ)
  /-- `static_cast<size_t>` of a `char`, which is signed on some platforms only. -/
  castChar : UInt8 → UInt64

structure BloomFilter where
  bits : List Bool
  n : ℕ
  p : ℚ
  m : ℕ
  k : ℤ
  m_pos : 0 < m
  length_bits : bits.length = m

namespace BloomFilter

variable (A : BloomArith)

def new (expectedElements : ℕ) (falsePositiveProb : ℚ) : Option BloomFilter := do
  let (m, k) ← A.rawSizes expectedElements falsePositiveProb
  if expectedElements = 0 then none
  else
    some
      { bits := replicate (max m 1) false
        n := expectedElements
        p := falsePositiveProb
        m := max m 1
        k := max k 1
        m_pos := Nat.lt_of_lt_of_le Nat.one_pos (Nat.le_max_right m 1)
        length_bits := length_replicate }

def hash (bloom : BloomFilter) (element : UInt64) : ℕ :=
  ((leBytes 8 element.toNat).foldl (fun result b => result * 31 + A.castChar b) 0).toNat % bloom.m

def positions (bloom : BloomFilter) (element : UInt64) : List ℕ :=
  (range bloom.k.toNat).map fun i => (bloom.hash A element + i) % bloom.m

def setBits (ps : List ℕ) (bits : List Bool) : List Bool :=
  ps.foldl (fun bits pos => bits.set pos true) bits

@[simp] lemma length_setBits (ps : List ℕ) (bits : List Bool) :
    (setBits ps bits).length = bits.length := by
  induction ps generalizing bits with
  | nil => rfl
  | cons p ps ih => exact (ih _).trans length_set

def add (bloom : BloomFilter) (element : UInt64) : BloomFilter :=
  { bloom with
    bits := setBits (bloom.positions A element) bloom.bits
    length_bits := (length_setBits _ _).trans bloom.length_bits }

def contains (bloom : BloomFilter) (element : UInt64) : Bool :=
  (bloom.positions A element).all fun pos => (bloom.bits[pos]?).getD false

def addAll (bloom : BloomFilter) (elements : List UInt64) : BloomFilter :=
  elements.foldl (add A) bloom

structure Loaded where
  bits : List Bool
  n : ℕ
  p : ℚ
  m : ℕ
  k : ℤ

def header : Wire (ℕ × ℤ × ℕ × ℕ) :=
  (Wire.uint 8).prod ((Wire.sint 4).prod ((Wire.uint 8).prod (Wire.uint 8)))

def packBits (bits : List Bool) : List UInt8 :=
  bits.zipIdx.foldl
    (fun buffer b =>
      if b.1 then buffer.modify (b.2 / 8) (· ||| 1 <<< UInt8.ofNat (b.2 % 8)) else buffer)
    (replicate ((bits.length + 7) / 8) 0)

def save (pattern : ℚ → ℕ) (bloom : BloomFilter) : Option (List UInt8) := do
  let numbers ← header.write (bloom.m, bloom.k, bloom.n, pattern bloom.p)
  return numbers ++ packBits bloom.bits

def load (ofPattern : ℕ → ℚ) (bytes : List UInt8) : Except ReadError Loaded := do
  let ((m, k, n, p), buffer) ← header.read bytes
  if buffer.length < (m + 7) / 8 then .error .endOfInput
  else
    let read := (range m).map fun i =>
      (buffer.getD (i / 8) 0 >>> UInt8.ofNat (i % 8)) &&& 1 == 1
    return { bits := replicate m false ++ read, n := n, p := ofPattern p, m := m, k := k }

def Loaded.contains (A : BloomArith) (s : Loaded) (element : UInt64) : Bool :=
  let hash :=
    ((leBytes 8 element.toNat).foldl (fun result b => result * 31 + A.castChar b) 0).toNat % s.m
  (range s.k.toNat).all fun i => (s.bits[(hash + i) % s.m]?).getD false

end BloomFilter

end Rvanns.Knowhere
