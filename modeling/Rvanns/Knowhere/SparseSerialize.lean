import Rvanns.Cpp.KeyedList
import Rvanns.Cpp.Rows
import Rvanns.Cpp.Segment
import Rvanns.Knowhere.SparseInvertedIndex
import Rvanns.Knowhere.Status

/-!
# Files of a sparse inverted index

`Serialize` and `Deserialize` of `sparse_inverted_index.h`, in the format with version 1, and
`MemoryIOReader` of `io/memory_io.h`.
-/

namespace Rvanns.Knowhere

open Cpp

structure MemoryIOReader where
  data : List UInt8
  rp : ℕ := 0

namespace MemoryIOReader

variable {α : Type} (reader : MemoryIOReader)

def read (p : Pod α) (old : α) : α × MemoryIOReader :=
  match if reader.rp < reader.data.length then p.valueAt reader.data reader.rp else none with
  | some a => (a, { reader with rp := reader.rp + p.size })
  | none => (old, reader)

def tellg : ℕ := reader.rp

def advance (size : ℕ) : MemoryIOReader :=
  { reader with rp := min (reader.rp + size) reader.data.length }

variable {reader}

lemma read_of_holdsAt (old : α)
    (h : HoldsAt reader.data reader.rp (p.encode a)) (ha : p.Keeps a) (hsize : 0 < p.size) :
    reader.read p old = (a, { reader with rp := reader.rp + p.size }) := by
  have hlt : reader.rp < reader.data.length := by
    have hlen := h.length_le
    rw [p.length_encode, List.length_drop] at hlen
    omega
  unfold read
  rw [if_pos hlt, Pod.valueAt_of_holdsAt h ha]

end MemoryIOReader

namespace Sparse

variable {S : Type}

structure FloatBytes (S : Type) extends Pod S where
  size_eq : size = 4

def uint32 : Pod ℕ := .uint 4

def uint64 : Pod ℕ := .uint 8

def QType.size : QType → ℕ
  | .fp32 => 4
  | .uint16 => 2

def storedBytes (floats : FloatBytes S) : QType → Pod (Stored S)
  | .fp32 =>
    { size := 4
      encode := fun
        | .fp32 val => floats.encode val
        -- there are no values of the other type
        | .uint16 val => leBytes 4 val
      decode := fun bs => .fp32 (floats.decode bs)
      length_encode := by
        rintro (val | val)
        · exact (floats.length_encode val).trans floats.size_eq
        · exact length_leBytes 4 val }
  | .uint16 =>
    { size := 2
      encode := fun
        | .fp32 _ => leBytes 2 0
        | .uint16 val => leBytes 2 val
      decode := fun bs => .uint16 (leValue bs)
      length_encode := by
        rintro (val | val)
        · exact length_leBytes 2 0
        · exact length_leBytes 2 val }

inductive InvertedIndexSectionType where
  | postingLists
  | metricParams
  | dimMap
  | rowSums
  | maxScoresPerDim
  | prometheusBuildStats
deriving DecidableEq, Repr

def InvertedIndexSectionType.code : InvertedIndexSectionType → ℕ
  | .postingLists => 0
  | .metricParams => 1
  | .dimMap => 2
  | .rowSums => 3
  | .maxScoresPerDim => 4
  | .prometheusBuildStats => 5

/-- A section header as it stands in memory, with the four bytes between `type` and `offset` that
no member covers. -/
structure InvertedIndexSectionHeader where
  type : ℕ
  padding : BitVec 32
  offset : ℕ
  size : ℕ
deriving DecidableEq, Repr

/-- The bytes of a header, padding included: the table is written and read as raw memory. -/
def sectionHeaderBytes : Pod InvertedIndexSectionHeader where
  size := 24
  encode h := leBytes 4 h.type ++ leBytes 4 h.padding.toNat ++ leBytes 8 h.offset ++
    leBytes 8 h.size
  decode bs :=
    { type := leValue (bs.take 4)
      padding := BitVec.ofNat 32 (leValue ((bs.drop 4).take 4))
      offset := leValue ((bs.drop 8).take 8)
      size := leValue ((bs.drop 16).take 8) }
  length_encode h := by simp

def indexFileV1HeaderSize : ℕ := 32

def indexFileV1HeaderReservedSize : ℕ := 16

namespace InvertedIndex

variable (idx : InvertedIndex S)

def fileHeader : List UInt8 :=
  uint32.encode 1 ++ uint32.encode idx.nRows ++ uint32.encode idx.maxDim ++
    uint32.encode idx.nrInnerDims ++ List.replicate indexFileV1HeaderReservedSize 0

def nrSections : ℕ :=
  2 + (if idx.metricType = .bm25 then 1 else 0) +
    (if 0 < idx.maxScoreSpans.length then 1 else 0) + 1

def sectionSizes (ids : List (List ℕ)) (vals : List (List (Stored S))) :
    List (InvertedIndexSectionType × ℕ) :=
  let postingListsSize := 4 + 8 * tableT (idx.nrInnerDims + 1) +
    (List.zipWith (fun ids vals => ids.length * 4 + vals.length * idx.qtype.size) ids vals).sum
  [(.postingLists, postingListsSize), (.dimMap, 4 * idx.nrInnerDims)] ++
    (if idx.metricType = .bm25 then [(.rowSums, 4 * idx.nRows)] else []) ++
    (if 0 < idx.maxScoreSpans.length then [(.maxScoresPerDim, 4 * idx.nrInnerDims)] else []) ++
    [(.prometheusBuildStats, 4 * idx.nRows + 4 * idx.nrInnerDims)]

/-- The section table.  The members of a header are set one by one; `padding i` is what the memory
of header `i` has in its padding bytes when the table is written. -/
def sectionHeaders : (ℕ → BitVec 32) → ℕ → List (InvertedIndexSectionType × ℕ) →
    List InvertedIndexSectionHeader
  | _, _, [] => []
  | padding, usedOffset, (type, size) :: sections =>
    { type := type.code, padding := padding 0, offset := usedOffset, size := size } ::
      sectionHeaders (fun i => padding (i + 1)) (usedOffset + size) sections

def invertedIndexOffsets (ids : List (List ℕ)) : Option (List ℕ) :=
  if tableT (idx.nrInnerDims + 1) = 0 then none
  else some (rowOffsets ids)

def dimMapReverse : Option (List ℕ) :=
  idx.dimMap.foldlM
    (fun reverse e => if e.2 < reverse.length then some (reverse.set e.2 e.1) else none)
    (List.replicate idx.nrInnerDims 0)

variable (floats : FloatBytes S)

def postingListsSection (idx : InvertedIndex S) (ids : List (List ℕ))
    (vals : List (List (Stored S))) : Option (List UInt8) := do
  let offsets ← idx.invertedIndexOffsets ids
  return uint32.encode 0 ++ uint64.bytes offsets ++ ids.flatMap uint32.bytes ++
    vals.flatMap (storedBytes floats idx.qtype).bytes

def rowSumsSection (idx : InvertedIndex S) : Option (List UInt8) :=
  if idx.metricType = .bm25 then
    (readRange idx.bm25Params.rowSumsSpans 0 idx.nRows).map floats.bytes
  else some []

def maxScoresSection (idx : InvertedIndex S) : Option (List UInt8) :=
  if 0 < idx.maxScoreSpans.length then
    (readRange idx.maxScoreSpans 0 idx.nrInnerDims).map floats.bytes
  else some []

def buildStatsSection : Option (List UInt8) := do
  let nnz ← readRange idx.datasetNnzStats 0 idx.nRows
  let lengths ← readRange idx.postingListLengthStats 0 idx.nrInnerDims
  return uint32.bytes nnz ++ uint32.bytes lengths

def serialize (idx : InvertedIndex S) (padding : ℕ → BitVec 32) : Option (List UInt8) := do
  let ids ← readRange idx.idsSpans 0 idx.nrInnerDims
  let vals ← readRange idx.valsSpans 0 idx.nrInnerDims
  let table := sectionHeaders padding
    (indexFileV1HeaderSize + 4 + sectionHeaderBytes.size * idx.nrSections)
    (idx.sectionSizes ids vals)
  let postingLists ← postingListsSection floats idx ids vals
  let reverse ← idx.dimMapReverse
  let rowSums ← rowSumsSection floats idx
  let maxScores ← maxScoresSection floats idx
  let buildStats ← idx.buildStatsSection
  return idx.fileHeader ++ uint32.encode idx.nrSections ++ sectionHeaderBytes.bytes table ++
    postingLists ++ uint32.bytes reverse ++ rowSums ++ maxScores ++ buildStats

def readLowerHalf (reader : MemoryIOReader) (old : ℕ) : ℕ × MemoryIOReader :=
  let (val, reader) := reader.read uint32 (old % 2 ^ 32)
  (old / 2 ^ 32 * 2 ^ 32 + val, reader)

def fileHeaderHandler (reader : MemoryIOReader) : Status × InvertedIndex S × MemoryIOReader :=
  let (version, reader) := reader.read uint32 0
  if version ≠ 1 then (.invalidSerializedIndexType, idx, reader)
  else
    let (nRows, reader) := readLowerHalf reader idx.nRows
    let (maxDim, reader) := readLowerHalf reader idx.maxDim
    let (nrInnerDims, reader) := reader.read uint32 idx.nrInnerDims
    (.success, { idx with nRows := nRows, maxDim := maxDim, nrInnerDims := nrInnerDims },
      reader.advance indexFileV1HeaderReservedSize)

def readSpans {α : Type} (p : Pod α) : MemoryIOReader → List ℕ →
    Option (List (List α) × MemoryIOReader)
  | reader, [] => some ([], reader)
  | reader, size :: sizes => do
    let span ← p.arrayAt reader.data reader.tellg size
    let (spans, reader) ← readSpans p (reader.advance (size * p.size)) sizes
    return (span :: spans, reader)

def spanSizes (offsets : List ℕ) (n : ℕ) : Option (List ℕ) :=
  (List.range n).mapM fun i => do
    let offset ← offsets[i]?
    let next ← offsets[i + 1]?
    return (next + 2 ^ 64 - offset) % 2 ^ 64

def readPostingLists (idx : InvertedIndex S) (reader : MemoryIOReader) :
    Option (Status × InvertedIndex S) := do
  let (encodingType, reader) := reader.read uint32 0
  if encodingType ≠ 0 then return (.invalidSerializedIndexType, idx)
  else do
    let offsets ← uint64.arrayAt reader.data reader.tellg (tableT (idx.nrInnerDims + 1))
    let sizes ← spanSizes offsets idx.nrInnerDims
    let (ids, reader) ← readSpans uint32
      (reader.advance (8 * tableT (idx.nrInnerDims + 1))) sizes
    let (vals, _) ← readSpans (storedBytes floats idx.qtype) reader sizes
    return (.success, { idx with idsSpans := ids, valsSpans := vals })

def readDimMap (reader : MemoryIOReader) : InvertedIndex S :=
  let (dimMap, _) := (List.range idx.nrInnerDims).foldl
    (fun (s : List (ℕ × ℕ) × MemoryIOReader) i =>
      let (dim, reader) := s.2.read uint32 0
      (assign s.1 dim i, reader))
    (idx.dimMap, reader)
  { idx with dimMap := dimMap }

def readSection (idx : InvertedIndex S) (data : List UInt8)
    (header : InvertedIndexSectionHeader) : Option (Status × InvertedIndex S) :=
  let reader : MemoryIOReader := ⟨data, header.offset⟩
  if header.type = InvertedIndexSectionType.code .postingLists then
    readPostingLists floats idx reader
  else if header.type = InvertedIndexSectionType.code .dimMap then
    some (.success, readDimMap idx reader)
  else if header.type = InvertedIndexSectionType.code .rowSums then
    -- there are no `bm25_params_` for another metric
    if idx.metricType = .bm25 then do
      let rowSums ← floats.arrayAt data header.offset idx.nRows
      return (.success,
        { idx with bm25Params := { idx.bm25Params with rowSumsSpans := rowSums } })
    else none
  else if header.type = InvertedIndexSectionType.code .maxScoresPerDim then do
    let maxScores ← floats.arrayAt data header.offset idx.nrInnerDims
    return (.success, { idx with maxScoreSpans := maxScores })
  else some (.success, idx)

def sectionsHandler (floats : FloatBytes S) (data : List UInt8) :
    InvertedIndex S → ℕ → ℕ → Option (Status × InvertedIndex S)
  | idx, _, 0 => some (.success, idx)
  | idx, secTableOffset, n + 1 => do
    let header ← sectionHeaderBytes.valueAt data secTableOffset
    let (status, idx) ← readSection floats idx data header
    if status ≠ .success then return (status, idx)
    else sectionsHandler floats data idx (secTableOffset + sectionHeaderBytes.size) n

def deserialize (idx : InvertedIndex S) (data : List UInt8) : Option (Status × InvertedIndex S) :=
  let (status, idx, reader) := idx.fileHeaderHandler ⟨data, 0⟩
  if status ≠ .success then some (status, idx)
  else
    let (nrSections, reader) := reader.read uint32 0
    sectionsHandler floats data idx reader.tellg nrSections

end InvertedIndex

end Sparse

end Rvanns.Knowhere
