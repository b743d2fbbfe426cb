import Rvanns.Cpp.Segment
import Rvanns.Faiss.BlockFile
import Rvanns.Knowhere.BloomFilter
import Rvanns.Knowhere.MinHash
import Rvanns.Knowhere.Status

/-!
# The MinHash LSH index on disk

`minhash_lsh.h`.
-/

namespace Rvanns.Knowhere.MinHash

open Cpp Faiss List Simd

def optimizeMinHashLSHParams (originalDim band : ℕ) : ℕ × ℕ :=
  if band = 0 then (1, originalDim)
  else if originalDim < band then (originalDim, 1)
  else (band, originalDim / band * band / band)

/-! ### The data file -/

structure VecData where
  data : List UInt8
  npts : ℕ
  dim : ℕ

def loadVecData (file : List UInt8) : Except Failure VecData := do
  let n ← orUndefined ((readRange file 0 4).map leValue)
  let d ← orUndefined ((readRange file 4 8).map leValue)
  if d % 8 ≠ 0 then
    .error (.status .internalError "fail to load binary vector base file, dim % 8 != 0 ")
  else if file.length ≠ n * d / 8 + 8 then
    .error (.status .internalError
      "fail to load raw data, file size mismatch of raw data file.")
  else .ok { data := (file.drop 8).take (d * n / 8), npts := n, dim := d }

/-! ### Saving -/

def int64Bits (v : ℤ) : ℕ := (BitVec.ofInt 64 v).toNat

def ofInt64Bits (a : ℕ) : ℤ := (BitVec.ofNat 64 a).toInt

variable (sortedKv : List KVPair)

def keyAt (i : ℕ) : UInt64 := ((sortedKv[i]?).map KVPair.key).getD 0

def blockEntries (maxNum rows i : ℕ) : List KVPair :=
  (sortedKv.drop (i * maxNum)).take (min ((i + 1) * maxNum) rows - i * maxNum)

def keyBytes (entries : List KVPair) : List UInt8 :=
  u64Bytes (entries.map fun kv => kv.key.toNat)

def valueBytes (entries : List KVPair) : List UInt8 :=
  u64Bytes (entries.map fun kv => int64Bits kv.value)

def saveBlock (maxNum rows : ℕ) (w : BlockFileIOWriter) (i : ℕ) : BlockFileIOWriter :=
  let entries := blockEntries sortedKv maxNum rows i
  (w.flush.write (keyBytes entries)).write (valueBytes entries)

def blockMins (maxNum blocksNum : ℕ) : List UInt64 :=
  (range blocksNum).map fun i => keyAt sortedKv (i * maxNum)

def blockMaxs (maxNum blocksNum rows : ℕ) : List UInt64 :=
  (range blocksNum).map fun i => keyAt sortedKv (min ((i + 1) * maxNum) rows - 1)

def blockNums (maxNum blocksNum rows : ℕ) : List ℕ :=
  (range blocksNum).map fun i => min ((i + 1) * maxNum) rows - i * maxNum

def blocksNum (maxNum rows : ℕ) : ℕ := (rows + maxNum - 1) / maxNum

def saveDirectory (w : BlockFileIOWriter) (sortedKv : List KVPair)
    (blockSize maxNum blocksNum rows dataPos : ℕ) : BlockFileIOWriter :=
  let w := w.write (leBytes 8 blocksNum)
  let w := w.write (leBytes 8 blockSize)
  let w := w.write (leBytes 8 dataPos)
  let w := w.write (u64Bytes ((blockMins sortedKv maxNum blocksNum).map UInt64.toNat))
  let w := w.write (u64Bytes ((blockMaxs sortedKv maxNum blocksNum rows).map UInt64.toNat))
  w.write (u64Bytes (blockNums maxNum blocksNum rows))

def formatAndSave (w : BlockFileIOWriter) (sortedKv : List KVPair) (blockSize rows : ℕ) :
    Option (ℕ × BlockFileIOWriter) :=
  let maxNum := blockSize / 16
  if maxNum = 0 then none
  else
    let blocks := blocksNum maxNum rows
    let w := w.flush
    let dataPos := w.tellg
    let w := ((range blocks).foldl (saveBlock sortedKv maxNum rows) w).flush
    let indexMetaPos := w.tellg
    some (indexMetaPos, (saveDirectory w sortedKv blockSize maxNum blocks rows dataPos).flush)

def saveBands (totalKv : List KVPair) (blockSize rows : ℕ) :
    List ℕ → BlockFileIOWriter → Option (List ℕ × BlockFileIOWriter)
  | [], w => some ([], w)
  | i :: bands, w => do
    let (ofs, w) ← formatAndSave w ((totalKv.drop (rows * i)).take rows) blockSize rows
    let (bandIndexOfs, w) ← saveBands totalKv blockSize rows bands w
    some (ofs :: bandIndexOfs, w)

def saveRawData (data : List UInt8) (dataSize ntotal vecNumABlk : ℕ) :
    ℕ → BlockFileIOWriter → ℕ → BlockFileIOWriter
  | 0, w, _ => w
  | fuel + 1, w, i =>
    if i < ntotal then
      let num := min (ntotal - i) vecNumABlk
      let w := w.flushAndWrite ((data.drop (i * dataSize)).take (num * dataSize))
      saveRawData data dataSize ntotal vecNumABlk fuel w (i + vecNumABlk)
    else w

structure BuildParams where
  band : ℕ := 1
  blockSize : ℕ := 8192
  withRawData : Bool := false
  mhVecElementSize : ℕ := 8
  mhVecLength : ℕ
  blockSize_ge : 4096 ≤ blockSize
  blockSize_lt : blockSize < 2 ^ 31
  elementSize_pos : 0 < mhVecElementSize
  length_pos : 0 < mhVecLength

namespace BuildParams

variable (params : BuildParams)

def dataSize : ℕ := params.mhVecElementSize * params.mhVecLength

def fileBlockSize : ℕ :=
  if params.withRawData then roundUp params.dataSize params.blockSize else params.blockSize

lemma dataSize_pos : 0 < params.dataSize :=
  mul_pos params.elementSize_pos params.length_pos

lemma blockSize_le_fileBlockSize : params.blockSize ≤ params.fileBlockSize := by
  unfold fileBlockSize
  split_ifs
  · exact BlockFileIOWriter.le_roundUp params.dataSize_pos params.blockSize
  · exact le_rfl

lemma fileBlockSize_pos : 0 < params.fileBlockSize := by
  have := params.blockSize_le_fileBlockSize
  have := params.blockSize_ge
  omega

def lshParams : LshParams where
  sizeInBytes := params.dataSize
  elementSizeInBytes := params.mhVecElementSize
  band := (optimizeMinHashLSHParams params.mhVecLength params.band).1
  r := (optimizeMinHashLSHParams params.mhVecLength params.band).2

end BuildParams

def sizeofMinHashLSH : ℕ := 120

def headerSize (bandNum blockSize : ℕ) : ℕ := divRoundUp (sizeofMinHashLSH + bandNum * 8) blockSize

lemma headerSize_pos (bandNum blockSize : ℕ) : 0 < headerSize bandNum blockSize := by
  unfold headerSize divRoundUp
  split_ifs with hmod
  · exact Nat.succ_pos _
  · have hdiv := Nat.div_add_mod (sizeofMinHashLSH + bandNum * 8) blockSize
    rcases Nat.eq_zero_or_pos ((sizeofMinHashLSH + bandNum * 8) / blockSize) with h0 | h0
    · rw [h0, not_not.mp hmod, sizeofMinHashLSH] at hdiv
      omega
    · exact h0

def headerFields (params : BuildParams) (ntotal : ℕ) (dataPos : ℤ) (bandIndexOfs : List ℕ) :
    List ℕ :=
  [ntotal, params.mhVecLength, params.mhVecElementSize, params.fileBlockSize,
    params.lshParams.band, int64Bits dataPos] ++ bandIndexOfs

variable (hash : List UInt8 → UInt64) (S : StdSort KVPair)

def saveVectors (params : BuildParams) (vecs : VecData) (w : BlockFileIOWriter) :
    BlockFileIOWriter :=
  if params.withRawData then
    saveRawData vecs.data params.dataSize vecs.npts (params.fileBlockSize / params.dataSize)
      vecs.npts w 0
  else w

def saveIndex (params : BuildParams) (vecs : VecData) : Except Failure (List UInt8) := do
  let bandNum := params.lshParams.band
  let blockSize := params.fileBlockSize
  let w := BlockFileIOWriter.new blockSize (headerSize bandNum blockSize) params.fileBlockSize_pos
    (headerSize_pos bandNum blockSize)
  let totalKv := genTransposedHashKV hash params.lshParams (fun t => (vecs.data[t]?).getD 0)
    vecs.npts
  let dataPos : ℤ := if params.withRawData then w.tellg else -1
  let (bandIndexOfs, w) ← orUndefined
    (saveBands (sortHashKV S totalKv vecs.npts bandNum) blockSize vecs.npts (range bandNum)
      (saveVectors params vecs w))
  match w.writeHeader (u64Bytes (headerFields params vecs.npts dataPos bandIndexOfs)) with
  | .error what => .error (.status .internalError what)
  | .ok w => .ok w.close

def buildAndSave (params : BuildParams) (dataFile : List UInt8) : Except Failure (List UInt8) := do
  let vecs ← loadVecData dataFile
  let expected := params.mhVecElementSize * params.mhVecLength * 8
  if vecs.dim ≠ expected then
    .error (.status .diskFileError
      s!"fail to load binary file, dim in file({vecs.dim}) not equal to mh_vec_element_size * mh_vec_length * 8:{expected}")
  else saveIndex hash S params vecs

/-! ### Loading -/

structure BandIndex where
  mins : List UInt64
  maxs : List UInt64
  numInABlk : List ℕ
  blockSize : ℕ
  blocksNum : ℕ
  data : List UInt8

def readOwned (file : List UInt8) (pos size : ℕ) : List UInt8 :=
  let got := (file.drop pos).take size
  got ++ replicate (size - got.length) 0

variable (A : BloomArith)

def readKeys (data : List UInt8) (pos num : ℕ) : Option (List UInt64) :=
  (readU64s data pos num).map (List.map UInt64.ofNat)

def loadBand (file : List UInt8) (pos : ℕ) (mmap : Bool) (bloom : BloomFilter) :
    Option (BandIndex × BloomFilter) := do
  let blocksNum ← readU64 file pos
  let blockSize ← readU64 file (pos + 8)
  let dataPos ← readU64 file (pos + 16)
  let mins ← readKeys file (pos + 24) blocksNum
  let maxs ← readKeys file (pos + 24 + 8 * blocksNum) blocksNum
  let numInABlk ← readU64s file (pos + 24 + 16 * blocksNum) blocksNum
  let data := if mmap then file.drop dataPos else readOwned file dataPos (blockSize * blocksNum)
  let keys ← (range blocksNum).mapM fun idx => do
    let num ← numInABlk[idx]?
    readKeys data (blockSize * idx) num
  some ({ mins, maxs, numInABlk, blockSize, blocksNum, data }, bloom.addAll A keys.flatten)

def loadBands (file : List UInt8) (mmap : Bool) :
    List ℕ → ℕ → List BloomFilter → Option (List BandIndex × List BloomFilter)
  | [], _, blooms => some ([], blooms)
  | ofs :: bandIndexOfs, i, blooms => do
    let bloom ← blooms[i % blooms.length]?
    let (band, bloom) ← loadBand A file ofs mmap bloom
    let (bands, blooms) ←
      loadBands file mmap bandIndexOfs (i + 1) (blooms.set (i % blooms.length) bloom)
    some (band :: bands, blooms)

structure LoadParams where
  hashCodeInMemory : Bool := false
  globalBloomFilter : Bool := false
  falsePositiveProb : ℚ := 1 / 100

structure MinHashLSH where
  bandIndex : List BandIndex
  blockSize : ℕ
  band : ℕ
  r : ℕ
  withRawData : Bool
  rawData : List UInt8
  bloom : List BloomFilter
  mhVecElementSize : ℕ
  mhVecLength : ℕ
  ntotal : ℕ

def load (file : List UInt8) (params : LoadParams) : Except Failure MinHashLSH := do
  let ntotal ← orUndefined (readU64 file 0)
  let mhVecLength ← orUndefined (readU64 file 8)
  let mhVecElementSize ← orUndefined (readU64 file 16)
  let blockSize ← orUndefined (readU64 file 24)
  let bandNum ← orUndefined (readU64 file 32)
  let dataPos ← orUndefined ((readU64 file 40).map ofInt64Bits)
  let withRawData := dataPos != -1
  let (band, r) := optimizeMinHashLSHParams mhVecLength bandNum
  let bandIndexOfs ← orUndefined (readU64s file 48 band)
  let bloom ← orUndefined
    ((range (if params.globalBloomFilter then 1 else band)).mapM fun _ =>
      BloomFilter.new A ntotal params.falsePositiveProb)
  let (bandIndex, bloom) ← orUndefined
    (loadBands A file (!params.hashCodeInMemory) bandIndexOfs 0 bloom)
  .ok
    { bandIndex, blockSize, band, r, withRawData
      rawData := if withRawData then file.drop dataPos.toNat else []
      bloom, mhVecElementSize, mhVecLength, ntotal }

/-! ### Searching -/

def isMember (selector : Option (ℤ → Bool)) (id : ℤ) : Bool :=
  match selector with
  | none => true
  | some member => member id

namespace BandIndex

variable (band : BandIndex) (key : UInt64) (selector : Option (ℤ → Bool))

/-- The loop over the entries of a block from a hit on.  `keys` and `values` are the positions of
the arrays.  The key is read before the index is compared with the number of entries. -/
def pushRun (keys values rows : ℕ) : ℕ → ResultHandler → ℕ → Option ResultHandler
  | 0, _, _ => none
  | fuel + 1, res, innerId => do
    let k ← readU64 band.data (keys + 8 * innerId)
    if key.toNat = k ∧ innerId < rows then do
      let v ← (readU64 band.data (values + 8 * innerId)).map ofInt64Bits
      let res := if isMember selector v then res.push v 1 else res
      if res.full then some res else pushRun keys values rows fuel res (innerId + 1)
    else some res

def searchBlock (res : ResultHandler) (blockId rows : ℕ) : Option ResultHandler :=
  let keys := band.blockSize * blockId
  let values := band.blockSize * blockId + rows * 8
  let innerId := u64BinarySearchEqRef
    (fun j => UInt64.ofNat ((readU64 band.data (keys + 8 * j)).getD 0)) rows key
  if innerId ≠ -1 then band.pushRun key selector keys values rows (rows + 1) res innerId.toNat
  else some res

def searchBlocks : ℕ → ResultHandler → ℕ → Option ResultHandler
  | 0, _, _ => none
  | fuel + 1, res, blockId =>
    if blockId < band.mins.length then do
      let min ← band.mins[blockId]?
      if min ≤ key then do
        let rows ← band.numInABlk[blockId]?
        let res ← band.searchBlock key selector res blockId rows
        searchBlocks fuel res (blockId + 1)
      else some res
    else some res

def search (res : ResultHandler) : Option ResultHandler :=
  let blockId := u64BinarySearchGeRef (fun i => (band.maxs[i]?).getD 0) band.maxs.length key
  if blockId = -1 then some res
  else do
    let min ← rd band.mins blockId
    if key < min then some res
    else band.searchBlocks key selector (band.mins.length + 1) res blockId.toNat

end BandIndex

structure SearchParams where
  k : ℕ := 1
  refineK : ℕ := 1
  searchWithJaccard : Bool := false
  idSelector : Option (ℤ → Bool) := none

namespace MinHashLSH

variable (index : MinHashLSH)

def vectorSize : ℕ := index.mhVecElementSize * index.mhVecLength

def lshParams : LshParams where
  sizeInBytes := index.mhVecElementSize * index.band * index.r
  elementSizeInBytes := index.mhVecElementSize
  band := index.band
  r := index.r

def searchBands (query : ℕ → UInt8) (selector : Option (ℤ → Bool)) :
    List ℕ → ResultHandler → Option ResultHandler
  | [], res => some res
  | i :: bands, res => do
    let key := getHashKey hash index.lshParams query 0 i
    let band ← index.bandIndex[i]?
    let bloom ← index.bloom[i % index.bloom.length]?
    let res ← (if bloom.contains A key then band.search key selector res else some res)
    if res.full then some res else searchBands query selector bands res

/-- `MinHashLSH::Search`, with the ids and distances it leaves.  The Jaccard re-ranking is given the
query, the raw data, the candidates and the number of results. -/
def search (jaccardByIds : (ℕ → UInt8) → List UInt8 → List ℤ → ℕ → List ℤ × List ℚ)
    (query : ℕ → UInt8) (params : SearchParams) : Except Failure (List ℤ × List ℚ) :=
  if params.searchWithJaccard && !index.withRawData then
    .error (.status .invalidArgs "fail to search with jaccard distance without raw data.")
  else do
    let topk := if params.searchWithJaccard then max params.refineK params.k else params.k
    let res ← orUndefined (index.searchBands hash A query params.idSelector
      (range index.band) (ResultHandler.new topk))
    if params.searchWithJaccard then .ok (jaccardByIds query index.rawData res.idsList params.k)
    else .ok (res.idsList, res.disList)

def getDataByIds (ids : List ℤ) : Except Failure (List (List UInt8)) :=
  if index.withRawData then
    orUndefined (ids.mapM fun id =>
      if 0 ≤ id then
        readRange index.rawData (id.toNat * index.vectorSize)
          (id.toNat * index.vectorSize + index.vectorSize)
      else none)
  else .error (.status .notImplemented "")

end MinHashLSH

end Rvanns.Knowhere.MinHash
