import Rvanns.Faiss.IndexHNSW
import Rvanns.Faiss.MetricType

/-!
# HNSW indexes over scalar-quantised vectors

`IndexHNSWSQ` and `IndexHNSWSQCosine`.
-/

namespace Rvanns.Faiss

open Cpp

inductive QuantizerType where
  | qt8bit
  | qt4bit
  | qt8bitUniform
  | qt4bitUniform
  | qtFp16
  | qt8bitDirect
  | qt6bit
  | qtBf16
  | qt8bitDirectSigned
  | qt1bitDirect
  | qtHybridFp8Fp16Fp32
deriving DecidableEq, Repr

inductive RangeStat where
  | minmax
  | meanstd
  | quantiles
  | optim
deriving DecidableEq, Repr

structure ScalarQuantizer (V : Type) where
  qtype : QuantizerType
  rangestat : RangeStat
  rangestatArg : V
  d : ℕ
  trained : List V

/-- `set_derived_sizes`: `code_size` is never set in any other way.  How the hybrid quantiser finds
its size in the trained values is left to `hybridCodeSize`. -/
def ScalarQuantizer.codeSize {V : Type} (hybridCodeSize : ℕ → List V → ℕ)
    (sq : ScalarQuantizer V) : ℕ :=
  match sq.qtype with
  | .qt8bit | .qt8bitUniform | .qt8bitDirect | .qt8bitDirectSigned => sq.d
  | .qt4bit | .qt4bitUniform => (sq.d + 1) / 2
  | .qt6bit => (sq.d * 6 + 7) / 8
  | .qtFp16 | .qtBf16 => sq.d * 2
  | .qt1bitDirect => (sq.d + 7) / 8
  | .qtHybridFp8Fp16Fp32 => if sq.trained.isEmpty then 0 else hybridCodeSize sq.d sq.trained

def QuantizerType.trainedFromStart : QuantizerType → Bool
  | .qtFp16 | .qt8bitDirect | .qtBf16 | .qt8bitDirectSigned | .qt1bitDirect => true
  | _ => false

structure IndexInfo where
  d : ℕ
  ntotal : ℕ
  isCosine : Bool
  isTrained : Bool
  metricType : MetricType
deriving DecidableEq, Repr

structure SqStorage (V : Type) where
  info : IndexInfo
  sq : ScalarQuantizer V
  codes : List UInt8
  inverseL2Norms : Option (List V)

structure HNSWParams (D : Type) where
  assignProbas : List D
  maxLevel : ℤ
  efConstruction : ℤ
  efSearch : ℤ
  upperBeam : ℤ

structure HnswSqCore (V D : Type) where
  cosineClass : Bool
  info : IndexInfo
  hnsw : HNSW
  params : HNSWParams D
  storage : SqStorage V

structure HnswSqIndex (V D : Type) extends HnswSqCore V D where
  reorderPerm : List ℕ

inductive SqIndex (V D R : Type) where
  | hnsw (index : HnswSqIndex V D)
  | refine (info : IndexInfo) (base : HnswSqIndex V D) (refineIndex : R) (kFactor : V)

def SqIndex.info {V D R : Type} : SqIndex V D R → IndexInfo
  | .hnsw index => index.info
  | .refine info _ _ _ => info

def SqIndex.base {V D R : Type} : SqIndex V D R → HnswSqIndex V D
  | .hnsw index => index
  | .refine _ base _ _ => base

def GraphOk (h : HNSW) (n : ℕ) : Prop := h.levels.length = n ∧ (0 < n → h.WellFormed)

structure Backend (V D R : Type) where
  hybridCodeSize : ℕ → List V → ℕ
  /-- The values that `ScalarQuantizer::train` leaves in `trained`. -/
  trainSq : QuantizerType → ℕ → List (List V) → Except Fault (List V)
  /-- `encode_vector`. -/
  encode : ScalarQuantizer V → List V → List UInt8
  encode_length : ∀ sq x, (encode sq x).length = sq.codeSize hybridCodeSize
  /-- What `L2NormsStorage::add` appends. -/
  inverseNorm : List V → V
  /-- The constructor `HNSW(M)`. -/
  newGraph : ℕ → HNSW × HNSWParams D
  newGraph_ok : ∀ m, GraphOk (newGraph m).1 0
  /-- `hnsw_add_vertices`, called when the storage holds the new vectors already; the second
  argument is the number of nodes before. -/
  addVertices : HnswSqIndex V D → ℕ → Except Fault (HNSW × HNSWParams D)
  addVertices_ok : ∀ x n₀ g, GraphOk x.hnsw n₀ → n₀ < x.info.ntotal →
    addVertices x n₀ = .ok g → GraphOk g.1 x.info.ntotal
  /-- A refine index of `d` dimensions: `IndexFlat`, or an `IndexScalarQuantizer` of a type. -/
  newRefine : Option QuantizerType → ℕ → MetricType → R
  refineIsTrained : R → Bool
  refineTrain : R → List (List V) → Except Fault R
  refineAdd : R → List (List V) → Except Fault R

variable {V D R : Type} (B : Backend V D R)

variable [Zero V] [One V]

def SqStorage.new (d : ℕ) (qtype : QuantizerType) (metricType : MetricType) (cosine : Bool) :
    SqStorage V where
  info := ⟨d, 0, cosine, qtype.trainedFromStart, metricType⟩
  sq := ⟨qtype, .minmax, 0, d, []⟩
  codes := []
  inverseL2Norms := if cosine then some [] else none

def HnswSqIndex.new (d : ℕ) (qtype : QuantizerType) (m : ℕ) (metricType : MetricType)
    (cosine : Bool) (efConstruction : ℤ) : HnswSqIndex V D :=
  let metric := if cosine then .innerProduct else metricType
  let storage := SqStorage.new d qtype metric cosine
  { cosineClass := cosine
    info := ⟨d, 0, cosine, storage.info.isTrained, metric⟩
    hnsw := (B.newGraph m).1
    params := { (B.newGraph m).2 with efConstruction := efConstruction }
    storage := storage
    reorderPerm := [] }

def SqIndex.newRefine (base : HnswSqIndex V D) (refineIndex : R) : SqIndex V D R :=
  .refine ⟨base.info.d, 0, false, base.info.isTrained && B.refineIsTrained refineIndex,
    base.info.metricType⟩ base refineIndex 1

omit [Zero V] [One V]

def HnswSqIndex.train (x : HnswSqIndex V D) (rows : List (List V)) :
    Except Fault (HnswSqIndex V D) := do
  let trained ← B.trainSq x.storage.sq.qtype x.storage.sq.d rows
  return { x with
    info := { x.info with isTrained := true }
    storage := { x.storage with
      info := { x.storage.info with isTrained := true }
      sq := { x.storage.sq with trained := trained } } }

def SqIndex.train (index : SqIndex V D R) (rows : List (List V)) : Except Fault (SqIndex V D R) :=
  match index with
  | .hnsw x => do return .hnsw (← x.train B rows)
  | .refine info base refineIndex kFactor => do
    let base ← base.train B rows
    let refineIndex ← B.refineTrain refineIndex rows
    return .refine { info with isTrained := true } base refineIndex kFactor

def SqStorage.add (st : SqStorage V) (rows : List (List V)) : Except Fault (SqStorage V) :=
  if st.info.isTrained then
    .ok { st with
      info := { st.info with ntotal := st.info.ntotal + rows.length }
      codes := st.codes ++ rows.flatMap (B.encode st.sq)
      inverseL2Norms := st.inverseL2Norms.map (· ++ rows.map B.inverseNorm) }
  else .error (.thrown "Error: 'is_trained' failed")

def HnswSqIndex.add (x : HnswSqIndex V D) (rows : List (List V)) : Except Fault (HnswSqIndex V D) :=
  if !x.info.isTrained then .error (.thrown "Error: 'is_trained' failed")
  else if x.reorderPerm ≠ [] then
    .error (.thrown ("Cannot add vectors after a post-build HNSW layout pass; "
      ++ "reset or rebuild the index first"))
  else do
    let storage ← x.storage.add B rows
    let x' := { x with storage := storage, info := { x.info with ntotal := storage.info.ntotal } }
    if rows.length = 0 then return x'
    else do
      let g ← B.addVertices x' x.info.ntotal
      return { x' with hnsw := g.1, params := g.2 }

def SqIndex.add (index : SqIndex V D R) (rows : List (List V)) : Except Fault (SqIndex V D R) :=
  match index with
  | .hnsw x => do return .hnsw (← x.add B rows)
  | .refine info base refineIndex kFactor =>
    if !info.isTrained then .error (.thrown "Error: 'is_trained' failed")
    else do
      let base ← base.add B rows
      let refineIndex ← B.refineAdd refineIndex rows
      return .refine { info with ntotal := base.info.ntotal } base refineIndex kFactor

def HnswSqIndex.toIndexHNSW (x : HnswSqIndex V D) : IndexHNSW V where
  ntotal := x.info.ntotal
  hnsw := x.hnsw
  storage := some ⟨x.storage.info.ntotal, x.storage.sq.codeSize B.hybridCodeSize,
    x.storage.codes, [],
    x.storage.inverseL2Norms⟩
  reorderPerm := x.reorderPerm

def HnswSqIndex.withLayout (x : HnswSqIndex V D) (idx : IndexHNSW V) : HnswSqIndex V D :=
  { x with
    hnsw := idx.hnsw
    storage := { x.storage with
      codes := (idx.storage.map IndexFlatCodes.codes).getD x.storage.codes
      inverseL2Norms := (idx.storage.map IndexFlatCodes.inverseL2Norms).getD
        x.storage.inverseL2Norms }
    reorderPerm := idx.reorderPerm }

def HnswSqIndex.reorder (S : StdSort ℕ) (F : Type) [LinearOrder F] [Zero F] [One F] [Add F] [Sub F]
    [Mul F] [Div F] [NatCast F] (x : HnswSqIndex V D) (method : String) :
    Except Fault (HnswSqIndex V D) :=
  (reorderGraphAfterBuild S F (x.toIndexHNSW B) 0 (some method) true).map x.withLayout

def HnswSqIndex.codeRow (x : HnswSqIndex V D) (i : ℕ) : Option (List UInt8) :=
  (x.toIndexHNSW B).storage.bind (·.codeRow i)

end Rvanns.Faiss
