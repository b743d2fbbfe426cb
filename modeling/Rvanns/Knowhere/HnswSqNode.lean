import Rvanns.Faiss.IndexIO
import Rvanns.Knowhere.FaissNode

/-!
# HNSW-SQ nodes

`Train`, `Add`, `Build`, `Serialize` and `Deserialize` of `BaseFaissRegularIndexHNSWSQNode`, on
datasets without scalar info.
-/

namespace Rvanns.Knowhere

open Cpp Faiss

inductive DataFormat where
  | fp32
  | fp16
  | bf16
  | int8
deriving DecidableEq, Repr

structure DataSet (V : Type) where
  dim : ℕ
  rows : List (List V)
deriving DecidableEq, Repr

structure FaissHnswSqConfig where
  metricType : String
  sqType : String
  m : ℕ
  efConstruction : ℤ
  refine : Option Bool
  refineType : Option String
  graphLayout : String
deriving DecidableEq, Repr

def strToLower (s : String) : String := String.ofList (s.toList.map Char.toLower)

/-- `Str2FaissMetricType`. -/
def str2FaissMetricType (metric : String) : Option MetricType :=
  [("L2", MetricType.l2), ("IP", .innerProduct), ("COSINE", .innerProduct),
    ("HAMMING", .hamming), ("JACCARD", .jaccard), ("SUBSTRUCTURE", .substructure),
    ("SUPERSTRUCTURE", .superstructure), ("MHJACCARD", .minHashJaccard)].lookup
    (String.ofList (metric.toList.map Char.toUpper))

/-- `IsMetricType`. -/
def isMetricType (str metricType : String) : Bool := strToLower str == strToLower metricType

/-- `get_sq_quantizer_type`. -/
def getSqQuantizerType (sqType : String) : Option QuantizerType :=
  [("sq6", QuantizerType.qt6bit), ("sq8", .qt8bit), ("fp16", .qtFp16), ("bf16", .qtBf16),
    ("mpmi", .qtHybridFp8Fp16Fp32), ("int8", .qt8bitDirectSigned)].lookup (strToLower sqType)

/-- `is_flat_refine`. -/
def isFlatRefine (refineType : String) : Except String Bool :=
  if strToLower refineType = "fp32" ∨ strToLower refineType = "flat" then .ok true
  else if (getSqQuantizerType (strToLower refineType)).isSome then .ok false
  else .error ("invalid refine type (" ++ refineType ++ ")")

def checkRefineFormat (dataFormat : DataFormat) (refineType : String) (isFp32Flat : Bool) :
    Except String Unit :=
  match dataFormat with
  | .fp16 =>
    if (getSqQuantizerType refineType).any (· ≠ .qtBf16) && !isFp32Flat then .ok ()
    else .error "fp16 input data does not accept bf16 or fp32 as a refine index."
  | .bf16 =>
    if (getSqQuantizerType refineType).any (· ≠ .qtFp16) && !isFp32Flat then .ok ()
    else .error "bf16 input data does not accept fp16 or fp32 as a refine index."
  | _ => .ok ()

variable {V D R : Type} (B : Backend V D R)

/-- `pick_refine_index`. -/
def pickRefineIndex [One V] (dataFormat : DataFormat) (refineType : String)
    (baseIndex : HnswSqIndex V D) (baseD : ℕ) (baseMetricType : MetricType) :
    Except String (SqIndex V D R) := do
  let isFp32Flat ← isFlatRefine refineType
  checkRefineFormat dataFormat refineType isFp32Flat
  if isFp32Flat then
    return .newRefine B baseIndex
      (B.newRefine none baseIndex.info.d baseIndex.info.metricType)
  else
    match getSqQuantizerType refineType with
    | none => .error ("invalid refine type (" ++ refineType ++ ")")
    | some t => return .newRefine B baseIndex (B.newRefine (some t) baseD baseMetricType)

structure HnswSqNode (V D R : Type) extends FaissNode (SqIndex V D R) where
  dataFormat : DataFormat

structure Refused (N : Type) where
  failure : Failure
  node : Option N

abbrev Reply (N : Type) := Except (Refused N) N

/-- The node after a call. -/
def Reply.after {N : Type} : Reply N → Option N
  | .ok node => some node
  | .error refused => refused.node

namespace HnswSqNode

def init (dataFormat : DataFormat) : HnswSqNode V D R := ⟨FaissNode.init, dataFormat⟩

variable (node : HnswSqNode V D R)

/-- `Count`. -/
def count : ℤ :=
  if node.isIndexEmpty then -1 else
    (node.indexes.reduceOption.map fun index => index.info.ntotal).sum

def refuse {N : Type} (code : Status) (what : String) (node : Option N) : Reply N :=
  .error ⟨.status code what, node⟩

/-- What the callers of Faiss make of an exception. -/
def ofFault {N : Type} (what : String) (node : Option N) : Fault → Reply N
  | .thrown msg => refuse .faissInnerError (what ++ msg) node
  | .undefined => .error ⟨.undefined, none⟩

section Train

variable [Zero V] [One V]

/-- The index that `train_index` trains. -/
def untrainedIndex (dataFormat : DataFormat) (dim : ℕ) (cfg : FaissHnswSqConfig)
    (metric : MetricType) (sqType : QuantizerType) : Except String (SqIndex V D R) :=
  let hnswIndex := HnswSqIndex.new B dim sqType cfg.m metric
    (isMetricType cfg.metricType "COSINE") cfg.efConstruction
  match cfg.refine, cfg.refineType with
  | some true, some refineType =>
    pickRefineIndex B dataFormat refineType hnswIndex hnswIndex.storage.info.d
      hnswIndex.storage.info.metricType
  | _, _ => .ok (.hnsw hnswIndex)

def train (node : HnswSqNode V D R) (dataset : DataSet V) (cfg : FaissHnswSqConfig) :
    Reply (HnswSqNode V D R) :=
  let cleared := init node.dataFormat
  match str2FaissMetricType cfg.metricType with
  | none => refuse .invalidMetricType ("Invalid metric type: " ++ cfg.metricType) (some cleared)
  | some metric =>
    match getSqQuantizerType cfg.sqType with
    | none => refuse .invalidArgs ("Invalid scalar quantizer type: " ++ cfg.sqType) (some cleared)
    | some sqType =>
      match untrainedIndex B node.dataFormat dataset.dim cfg metric sqType with
      | .error what => refuse .invalidArgs what (some cleared)
      | .ok finalIndex =>
        match finalIndex.train B dataset.rows with
        | .error fault => ofFault "faiss internal error: " (some cleared) fault
        | .ok finalIndex => .ok { cleared with indexes := [some finalIndex] }

end Train

/-- The rows that `add_to_index` converts at a time. -/
def nTmpRows : ℕ := 4096

/-- `add_to_index`. -/
def addToIndex (index : SqIndex V D R) (dataset : DataSet V) (dataFormat : DataFormat) :
    Except Fault (SqIndex V D R) :=
  match dataFormat with
  | .fp32 => index.add B dataset.rows
  | _ =>
    (List.range ((dataset.rows.length + nTmpRows - 1) / nTmpRows)).foldlM
      (fun index k => index.add B ((dataset.rows.drop (k * nTmpRows)).take nTmpRows)) index

/-- `Add`. -/
def add (dataset : DataSet V) : Reply (HnswSqNode V D R) :=
  if node.isIndexEmpty then
    refuse .emptyIndex "Can not add data to an empty index." (some node)
  else if node.indexes.length = 1 ∧ node.labels ≠ [] then
    refuse .invalidArgs "Can not add data after a post-build HNSW layout pass." (some node)
  else
    match node.indexes with
    | some index :: rest =>
      match addToIndex B index dataset node.dataFormat with
      | .error fault => ofFault "faiss inner error: " none fault
      | .ok index => .ok { node with indexes := some index :: rest }
    | _ => .error ⟨.undefined, none⟩

/-- The loop that checks a permutation and inverts it. -/
def invertPermutation (count : ℕ) (permutation : List ℕ) : Option (List ℕ) := do
  let tables ← (List.range count).foldlM
    (fun (seen, originalToNew) newId => do
      let oldId ← permutation[newId]?
      if seen[oldId]? = some false then
        some (seen.set oldId true, originalToNew.set oldId newId)
      else none)
    (List.replicate count false, List.replicate count 0)
  return tables.2

section Layout

variable (S : StdSort ℕ) (F : Type)
  [LinearOrder F] [Zero F] [One F] [Add F] [Sub F] [Mul F] [Div F] [NatCast F]

/-- `ApplyGraphLayout`. -/
def applyGraphLayout (node : HnswSqNode V D R) (graphLayout : String) : Reply (HnswSqNode V D R) :=
  if graphLayout = "unordered" then .ok node
  else
    match node.indexes, node.labels with
    | [some (.hnsw hnswIndex)], [] =>
      match hnswIndex.reorder B S F graphLayout with
      | .error fault => ofFault "post-build HNSW layout failed: " (some node) fault
      | .ok hnswIndex =>
        let permutation := hnswIndex.reorderPerm
        let count := hnswIndex.info.ntotal
        let reordered := { node with indexes := [some (.hnsw hnswIndex)] }
        if permutation.length ≠ count ∨ 2 ^ 32 - 1 < count then
          refuse .invalidIndexError "invalid post-build HNSW permutation" (some reordered)
        else
          match invertPermutation count permutation with
          | none =>
            refuse .invalidIndexError "post-build HNSW permutation is not bijective"
              (some reordered)
          | some originalToNew =>
            .ok { reordered with
              labels := [permutation]
              indexRowsSum := [0, count]
              labelToInternalOffset := originalToNew }
    | [some (.refine ..)], [] =>
      refuse .invalidIndexError "post-build graph layout requires an HNSW index without refine"
        (some node)
    | _, _ =>
      refuse .invalidIndexError "post-build graph layout requires one unmodified HNSW index"
        (some node)

/-- `Build`. -/
def build [Zero V] [One V] (node : HnswSqNode V D R) (dataset : DataSet V)
    (cfg : FaissHnswSqConfig) : Except (Refused (HnswSqNode V D R)) (HnswSqNode V D R) := do
  let graphLayout := strToLower cfg.graphLayout
  let node ← node.train B dataset cfg
  let node ← node.add B dataset
  if graphLayout = "unordered" then return node
  else node.applyGraphLayout B S F graphLayout

end Layout

/-- What a file with id tables holds. -/
structure NodeFile (V D R : Type) where
  labels : List (List ℕ)
  indexRowsSum : List ℕ
  labelToInternalOffset : List ℕ
  indexes : List (SqFile V D R)

variable (W : Formats V D R)

def nodeTablesWire (size clusterSize : ℕ) :
    Wire ({ labels : List (List ℕ) // labels.length = clusterSize } × List ℕ × List ℕ
      × { indexes : List (SqFile V D R) // indexes.length = size }) :=
  ((vectorWire (Wire.uint 4)).many clusterSize).prod <| (vectorWire (Wire.uint 4)).prod <|
    (vectorWire (Wire.uint 4)).prod ((indexWire B W).many size)

def nodeFileWire : Wire (NodeFile V D R) :=
  (((Wire.skip [0, 0, 0, 0]).prod <| (Wire.uint 4).prod (Wire.uint 4)).sigma fun c =>
    nodeTablesWire B W c.2.1 c.2.2).map
    (fun p => ⟨p.2.1.1, p.2.2.1, p.2.2.2.1, p.2.2.2.2.1⟩)
    (fun f => ⟨((), f.indexes.length, f.labels.length), ⟨f.labels, rfl⟩, f.indexRowsSum,
      f.labelToInternalOffset, ⟨f.indexes, rfl⟩⟩)
    (fun _ => rfl)

/-- The four-character code of a file with id tables. -/
def mvTag : ℕ := fourcc "IHMV"

def toFile : Option (NodeFile V D R) := do
  let indexes ← node.indexes.mapM id
  return ⟨node.labels, node.indexRowsSum, node.labelToInternalOffset, indexes.map SqIndex.toFile⟩

def writeNode : Option (List UInt8) :=
  if 1 < node.indexes.length ∨ node.labels ≠ [] then do
    let file ← node.toFile
    let tag ← (Wire.uint 4).write mvTag
    let bytes ← (nodeFileWire B W).write file
    return tag ++ bytes
  else
    match node.indexes with
    | some index :: _ => writeIndex B W index
    | _ => none

/-- `Serialize`. -/
def serialize : Except Failure (List UInt8) :=
  if node.isIndexEmpty then .error (.status .emptyIndex "")
  else orUndefined (node.writeNode B W)

/-- The tables and indexes in a file. -/
def readNode (bytes : List UInt8) : Except ReadError (FaissNode (SqIndex V D R)) := do
  let (tag, rest) ← (Wire.uint 4).read bytes
  if tag = mvTag then
    let (file, _) ← (nodeFileWire B W).read rest
    return ⟨file.indexes.map fun f => some f.toIndex, file.labels, file.indexRowsSum,
      file.labelToInternalOffset, []⟩
  else
    -- the reader is set back to the beginning
    let (index, _) ← readIndex B W bytes
    return ⟨[some index], [], [], [], []⟩

/-- The status for a file that cannot be read. -/
def readFailure : ReadError → Failure
  | .unknownTag => .status .invalidSerializedIndexType "faiss does not recognize the input index: "
  | .endOfInput => .status .faissInnerError "faiss inner error: "
  | .tooLong => .status .faissInnerError "faiss inner error: "
  | .unknownValue => .undefined

def deserialize (binary : Option (List UInt8)) : Reply (HnswSqNode V D R) :=
  match binary with
  | none => refuse .invalidBinarySet "Invalid binary set." (some node)
  | some bytes =>
    match readNode B W bytes with
    | .ok tables => .ok { node with toFaissNode := tables }
    | .error e => .error ⟨readFailure e, none⟩

end HnswSqNode

/-- Some nodes, and the binary sets they are saved in. -/
structure System (V D R : Type) where
  nodes : ℕ → HnswSqNode V D R
  binarySets : ℕ → Option (List UInt8)

/-- A call on node `i`, and with a binary set `j`. -/
inductive Call (V : Type) where
  | train (i : ℕ) (dataset : DataSet V) (cfg : FaissHnswSqConfig)
  | add (i : ℕ) (dataset : DataSet V)
  | build (i : ℕ) (dataset : DataSet V) (cfg : FaissHnswSqConfig)
  | serialize (i j : ℕ)
  | deserialize (i j : ℕ)

namespace System

def init (dataFormat : ℕ → DataFormat) : System V D R where
  nodes i := .init (dataFormat i)
  binarySets _ := none

variable (W : Formats V D R) (S : StdSort ℕ) (F : Type)
  [LinearOrder F] [Zero F] [One F] [Add F] [Sub F] [Mul F] [Div F] [NatCast F] [Zero V] [One V]

def withNode (s : System V D R) (i : ℕ) (reply : Reply (HnswSqNode V D R)) :
    Option (System V D R) :=
  match reply with
  | .ok node => some { s with nodes := Function.update s.nodes i node }
  | .error _ => none

/-- A successful call. -/
def step (s : System V D R) : Call V → Option (System V D R)
  | .train i dataset cfg => s.withNode i ((s.nodes i).train B dataset cfg)
  | .add i dataset => s.withNode i ((s.nodes i).add B dataset)
  | .build i dataset cfg => s.withNode i ((s.nodes i).build B S F dataset cfg)
  | .serialize i j =>
    match (s.nodes i).serialize B W with
    | .ok bytes => some { s with binarySets := Function.update s.binarySets j (some bytes) }
    | .error _ => none
  | .deserialize i j => s.withNode i ((s.nodes i).deserialize B W (s.binarySets j))

/-- A history of successful calls. -/
def run (s : System V D R) (calls : List (Call V)) : Option (System V D R) :=
  calls.foldlM (step B W S F) s

end System

end Rvanns.Knowhere
