import Rvanns.Cpp.Wire
import Rvanns.Faiss.IndexHNSWSQ

/-!
# Index files

`write_index` and `read_index` for the indexes of an HNSW-SQ node.
-/

namespace Rvanns.Faiss

open Cpp

/-- `fourcc`. -/
def fourcc (s : String) : ℕ := leValue (s.toList.map fun c => UInt8.ofNat c.toNat)

/-- `WRITEVECTOR` and `READVECTOR`. -/
def vectorWire {α : Type} (w : Wire α) : Wire (List α) := .vector 8 (2 ^ 40) w

def MetricType.ofCode : ℕ → Option MetricType
  | 0 => some .innerProduct
  | 1 => some .l2
  | 2 => some .l1
  | 3 => some .linf
  | 4 => some .lp
  | 5 => some .jaccard
  | 7 => some .hamming
  | 8 => some .substructure
  | 9 => some .superstructure
  | 20 => some .canberra
  | 21 => some .brayCurtis
  | 22 => some .jensenShannon
  | 24 => some .naNEuclidean
  | 25 => some .absInnerProduct
  | 26 => some .minHashJaccard
  | _ => none

def QuantizerType.code : QuantizerType → ℕ
  | .qt8bit => 0
  | .qt4bit => 1
  | .qt8bitUniform => 2
  | .qt4bitUniform => 3
  | .qtFp16 => 4
  | .qt8bitDirect => 5
  | .qt6bit => 6
  | .qtBf16 => 7
  | .qt8bitDirectSigned => 8
  | .qt1bitDirect => 9
  | .qtHybridFp8Fp16Fp32 => 10

def QuantizerType.ofCode : ℕ → Option QuantizerType
  | 0 => some .qt8bit
  | 1 => some .qt4bit
  | 2 => some .qt8bitUniform
  | 3 => some .qt4bitUniform
  | 4 => some .qtFp16
  | 5 => some .qt8bitDirect
  | 6 => some .qt6bit
  | 7 => some .qtBf16
  | 8 => some .qt8bitDirectSigned
  | 9 => some .qt1bitDirect
  | 10 => some .qtHybridFp8Fp16Fp32
  | _ => none

def RangeStat.code : RangeStat → ℕ
  | .minmax => 0
  | .meanstd => 1
  | .quantiles => 2
  | .optim => 3

def RangeStat.ofCode : ℕ → Option RangeStat
  | 0 => some .minmax
  | 1 => some .meanstd
  | 2 => some .quantiles
  | 3 => some .optim
  | _ => none

def metricWire : Wire MetricType :=
  ((Wire.enum 4 MetricType.code MetricType.ofCode (by intro m; cases m <;> rfl)
    .unknownValue).followedBy fun m =>
    .skip (if 1 < m.code then [0, 0, 0, 0] else []))

def infoWire : Wire IndexInfo :=
  ((Wire.uint 4).prod <| (Wire.uint 8).prod <| Wire.bool.prod <|
    (Wire.skip (List.replicate 15 0)).prod <| Wire.bool.prod metricWire).map
    (fun (d, ntotal, isCosine, _, isTrained, metricType) =>
      ⟨d, ntotal, isCosine, isTrained, metricType⟩)
    (fun i => (i.d, i.ntotal, i.isCosine, (), i.isTrained, i.metricType))
    (fun _ => rfl)

structure Formats (V D R : Type) where
  float : Wire V
  double : Wire D
  refineIndex : Wire R

variable {V D R : Type} (B : Backend V D R) (W : Formats V D R)

def scalarQuantizerWire : Wire (ScalarQuantizer V) :=
  ((Wire.enum 4 QuantizerType.code QuantizerType.ofCode (by intro m; cases m <;> rfl)
      .unknownValue).prod <|
    (Wire.enum 4 RangeStat.code RangeStat.ofCode (by intro m; cases m <;> rfl)
      .unknownValue).prod <|
    W.float.prod <| (Wire.uint 8).prod <| (Wire.uint 8).prod <| vectorWire W.float).map
    (fun (qtype, rangestat, rangestatArg, d, _, trained) =>
      ⟨qtype, rangestat, rangestatArg, d, trained⟩)
    (fun sq => (sq.qtype, sq.rangestat, sq.rangestatArg, sq.d, sq.codeSize B.hybridCodeSize,
      sq.trained))
    (fun _ => rfl)

/-- `write_HNSW` and `read_HNSW`. -/
def hnswWire : Wire (HNSW × HNSWParams D) :=
  ((vectorWire W.double).prod <| (vectorWire (Wire.uint 4)).prod <|
    (vectorWire (Wire.uint 4)).prod <| (vectorWire (Wire.uint 8)).prod <|
    (vectorWire (Wire.sint 4)).prod <| (Wire.sint 4).prod <| (Wire.sint 4).prod <|
    (Wire.sint 4).prod <| (Wire.sint 4).prod (Wire.sint 4)).map
    (fun (assignProbas, cum, levels, offsets, neighbors, entryPoint, maxLevel, efConstruction,
        efSearch, upperBeam) =>
      (⟨cum, levels, offsets, neighbors, entryPoint⟩,
        ⟨assignProbas, maxLevel, efConstruction, efSearch, upperBeam⟩))
    (fun (h, p) => (p.assignProbas, h.cumNneighborPerLevel, h.levels, h.offsets, h.neighbors,
      h.entryPoint, p.maxLevel, p.efConstruction, p.efSearch, p.upperBeam))
    (fun _ => rfl)

def storageTag : Bool → ℕ
  | true => fourcc "IxS8"
  | false => fourcc "IxSQ"

def storageOfTag (t : ℕ) : Option Bool :=
  if t = fourcc "IxS8" then some true else if t = fourcc "IxSQ" then some false else none

/-- What follows the code. -/
abbrev StorageFile (V : Type) : Bool → Type
  | true => IndexInfo × ScalarQuantizer V × List UInt8 × List V
  | false => IndexInfo × ScalarQuantizer V × List UInt8

/-- A byte of a code. -/
def byteWire : Wire UInt8 :=
  .enum 1 UInt8.toNat (fun c => some (UInt8.ofNat c)) (by intro b; simp) .unknownValue

def storageFileWire : (cosine : Bool) → Wire (StorageFile V cosine)
  | true => infoWire.prod <| (scalarQuantizerWire B W).prod <|
      (vectorWire byteWire).prod (vectorWire W.float)
  | false => infoWire.prod <| (scalarQuantizerWire B W).prod <|
      vectorWire byteWire

def storageWire : Wire (SqStorage V) :=
  (Wire.choice 4 storageTag storageOfTag (by decide)
    (storageFileWire B W)).map
    (fun
      | ⟨true, info, sq, codes, norms⟩ => ⟨info, sq, codes, some norms⟩
      | ⟨false, info, sq, codes⟩ => ⟨info, sq, codes, none⟩)
    (fun st => match st.inverseL2Norms with
      | some norms => ⟨true, st.info, st.sq, st.codes, norms⟩
      | none => ⟨false, st.info, st.sq, st.codes⟩)
    (by rintro ⟨info, sq, codes, _ | norms⟩ <;> rfl)

/-- The classes of an index file. -/
inductive IndexClass where
  | hnswSq
  | hnswSqCosine
  | refine
deriving DecidableEq

def IndexClass.tag : IndexClass → ℕ
  | .hnswSq => fourcc "IHNs"
  | .hnswSqCosine => fourcc "IHN8"
  | .refine => fourcc "IxRF"

def IndexClass.ofTag (t : ℕ) : Option IndexClass :=
  if t = fourcc "IHNs" then some .hnswSq
  else if t = fourcc "IHN8" then some .hnswSqCosine
  else if t = fourcc "IxRF" then some .refine
  else none

/-- What follows the code of an HNSW index. -/
abbrev HnswFile (V D : Type) := IndexInfo × (HNSW × HNSWParams D) × SqStorage V

def hnswFileWire : Wire (HnswFile V D) :=
  infoWire.prod <| (hnswWire W).prod (storageWire B W)

def coreWire : Wire (HnswSqCore V D) :=
  (Wire.choice 4 (fun cosine => (if cosine then IndexClass.hnswSqCosine else .hnswSq).tag)
    (fun t => if t = fourcc "IHN8" then some true else if t = fourcc "IHNs" then some false
      else none) (by decide)
    (fun _ : Bool => hnswFileWire B W)).map
    (fun ⟨cosine, info, (hnsw, params), storage⟩ => ⟨cosine, info, hnsw, params, storage⟩)
    (fun x => ⟨x.cosineClass, x.info, (x.hnsw, x.params), x.storage⟩)
    (fun _ => rfl)

/-- What a file holds. -/
inductive SqFile (V D R : Type) where
  | hnsw (core : HnswSqCore V D)
  | refine (info : IndexInfo) (base : HnswSqCore V D) (refineIndex : R) (kFactor : V)

abbrev ClassFile (V D R : Type) : IndexClass → Type
  | .hnswSq => HnswFile V D
  | .hnswSqCosine => HnswFile V D
  | .refine => IndexInfo × HnswSqCore V D × R × V

def classFileWire : (c : IndexClass) → Wire (ClassFile V D R c)
  | .hnswSq => hnswFileWire B W
  | .hnswSqCosine => hnswFileWire B W
  | .refine => infoWire.prod <| (coreWire B W).prod <|
      W.refineIndex.prod W.float

def indexWire : Wire (SqFile V D R) :=
  (Wire.choice 4 IndexClass.tag IndexClass.ofTag (by intro c; cases c <;> decide)
    (classFileWire B W)).map
    (fun
      | ⟨.hnswSq, info, (hnsw, params), storage⟩ => .hnsw ⟨false, info, hnsw, params, storage⟩
      | ⟨.hnswSqCosine, info, (hnsw, params), storage⟩ => .hnsw ⟨true, info, hnsw, params, storage⟩
      | ⟨.refine, info, base, refineIndex, kFactor⟩ => .refine info base refineIndex kFactor)
    (fun
      | .hnsw x => if x.cosineClass then ⟨.hnswSqCosine, x.info, (x.hnsw, x.params), x.storage⟩
        else ⟨.hnswSq, x.info, (x.hnsw, x.params), x.storage⟩
      | .refine info base refineIndex kFactor => ⟨.refine, info, base, refineIndex, kFactor⟩)
    (by rintro (⟨_ | _, _⟩ | _) <;> rfl)

/-- What is written of an index. -/
def SqIndex.toFile : SqIndex V D R → SqFile V D R
  | .hnsw x => .hnsw x.toHnswSqCore
  | .refine info base refineIndex kFactor => .refine info base.toHnswSqCore refineIndex kFactor

def SqFile.toIndex : SqFile V D R → SqIndex V D R
  | .hnsw core => .hnsw ⟨core, []⟩
  | .refine info base refineIndex kFactor => .refine info ⟨base, []⟩ refineIndex kFactor

def writeIndex (index : SqIndex V D R) : Option (List UInt8) :=
  (indexWire B W).write index.toFile

def readIndex (bs : List UInt8) : Except ReadError (SqIndex V D R × List UInt8) :=
  ((indexWire B W).read bs).map fun p =>
    (p.1.toIndex, p.2)

end Rvanns.Faiss
