import Rvanns.Cpp.Returns
import Rvanns.Faiss.Equiv.BlockFile
import Rvanns.Knowhere.Equiv.MinHash
import Rvanns.Knowhere.MinHashLSH

/-!
# What an index file holds

`BuildAndSave` leaves a file with a header in its first block, the blocks and the directory of each
band, and the raw vectors if they are wanted.
-/

namespace Rvanns.Knowhere.MinHash

open Cpp Faiss BlockFileIOWriter List Option

/-! ### The blocks of a band -/

section Blocks

variable {kv : List KVPair} {maxNum rows i : ℕ}

lemma mul_lt_of_lt_blocksNum (hi : i < blocksNum maxNum rows) : i * maxNum < rows := by
  rcases Nat.eq_zero_or_pos maxNum with rfl | hpos
  · simp [blocksNum] at hi
  · have hle := (Nat.le_div_iff_mul_le hpos).mp (Nat.succ_le_of_lt hi)
    rw [Nat.succ_mul] at hle
    omega

lemma rows_le_blocksNum_mul (rows : ℕ) (hpos : 0 < maxNum) :
    rows ≤ blocksNum maxNum rows * maxNum := by
  have hlt := Nat.lt_div_mul_add (a := rows + maxNum - 1) hpos
  unfold blocksNum
  omega

variable (hkv : kv.length = rows)

include hkv

lemma length_blockEntries :
    (blockEntries kv maxNum rows i).length = min ((i + 1) * maxNum) rows - i * maxNum := by
  rw [blockEntries, length_take, length_drop]
  omega

lemma length_blockEntries_le (maxNum i : ℕ) : (blockEntries kv maxNum rows i).length ≤ maxNum := by
  rw [length_blockEntries hkv, Nat.succ_mul]
  omega

lemma length_blockEntries_pos (hpos : 0 < maxNum)
    (hi : i < blocksNum maxNum rows) : 0 < (blockEntries kv maxNum rows i).length := by
  have := mul_lt_of_lt_blocksNum hi
  rw [length_blockEntries hkv, Nat.succ_mul]
  omega

lemma blockEntries_eq_take :
    blockEntries kv maxNum rows i = (kv.drop (i * maxNum)).take maxNum := by
  rw [blockEntries, Nat.succ_mul]
  rcases Nat.le_total (i * maxNum + maxNum) rows with hle | hle
  · rw [min_eq_left hle, Nat.add_sub_cancel_left]
  · have hlen : (kv.drop (i * maxNum)).length = rows - i * maxNum := by rw [length_drop, hkv]
    rw [min_eq_right hle, ← hlen, take_length, take_of_length_le (by omega)]

/-- The blocks are the entries in their order. -/
lemma flatten_blockEntries (hpos : 0 < maxNum) :
    ((range (blocksNum maxNum rows)).map (blockEntries kv maxNum rows)).flatten = kv := by
  have hfirst : ∀ m, ((range m).map (blockEntries kv maxNum rows)).flatten =
      kv.take (m * maxNum) := by
    intro m
    induction m with
    | zero => simp
    | succ m ih =>
      rw [range_succ, map_append, flatten_append, ih, map_singleton,
        flatten_singleton, blockEntries_eq_take hkv, Nat.succ_mul, take_add]
  rw [hfirst, take_of_length_le]
  rw [hkv]
  exact rows_le_blocksNum_mul rows hpos

end Blocks

/-- The bytes of a block. -/
def blockBytes (kv : List KVPair) (maxNum rows i : ℕ) : List UInt8 :=
  keyBytes (blockEntries kv maxNum rows i) ++ valueBytes (blockEntries kv maxNum rows i)

lemma length_blockBytes (kv : List KVPair) (maxNum rows i : ℕ) :
    (blockBytes kv maxNum rows i).length = 16 * (blockEntries kv maxNum rows i).length := by
  simp only [blockBytes, keyBytes, valueBytes, length_append, length_u64Bytes, length_map]
  omega

variable {w : BlockFileIOWriter} {kv : List KVPair} {rows : ℕ}

lemma extends_saveBlock : Extends w (saveBlock kv maxNum rows w i) :=
  extends_flush.trans (extends_write.trans extends_write)

lemma foldl_saveBlock (ha : w.Aligned)
    (h0 : w.blockBufOfs = 0) (hkv : kv.length = rows) (hmax : 0 < w.blockSize / 16)
    (hm : m ≤ blocksNum (w.blockSize / 16) rows) :
    let w' := (range m).foldl (saveBlock kv (w.blockSize / 16) rows) w
    Extends w w' ∧ w'.flush.tellg = w.tellg + w.blockSize * m ∧
      ∀ i < m, HoldsAt w'.stream (w.tellg + w.blockSize * i)
        (blockBytes kv (w.blockSize / 16) rows i) := by
  induction m with
  | zero =>
    refine ⟨Extends.refl w, ?_, fun i hi => absurd hi (Nat.not_lt_zero i)⟩
    show w.flush.tellg = _
    rw [flush, if_neg (by simpa using h0), mul_zero, add_zero]
  | succ m ih =>
    obtain ⟨hext, htell, hholds⟩ := ih (by omega)
    rw [range_succ, foldl_append, foldl_cons, foldl_nil]
    set u := (range m).foldl (saveBlock kv (w.blockSize / 16) rows) w with hu
    set entries := blockEntries kv (w.blockSize / 16) rows m
    -- the turn of the loop: a flush, the keys, the values
    have hstep : saveBlock kv (w.blockSize / 16) rows u m =
        (u.flush.write (keyBytes entries)).write (valueBytes entries) := rfl
    have hua : u.flush.Aligned := extends_flush.aligned (hext.aligned ha)
    have hust : (saveBlock kv (w.blockSize / 16) rows u m).stream =
        u.flush.stream ++ blockBytes kv (w.blockSize / 16) rows m := by
      rw [hstep, stream_write, stream_write, append_assoc]
      rfl
    have hlast : Extends u.flush (saveBlock kv (w.blockSize / 16) rows u m) :=
      extends_write.trans extends_write
    have hsize : u.flush.blockSize = w.blockSize := blockSize_flush.trans hext.blockSize
    have hnew : (saveBlock kv (w.blockSize / 16) rows u m).tellg =
        u.flush.tellg + (blockBytes kv (w.blockSize / 16) rows m).length := by
      rw [(hlast.aligned hua).tellg_eq, hust, length_append, hua.tellg_eq]
    have hpos := length_blockEntries_pos hkv hmax (i := m) (by omega)
    have hle := length_blockEntries_le hkv (w.blockSize / 16) m
    have hbytes := length_blockBytes kv (w.blockSize / 16) rows m
    refine ⟨hext.trans (extends_flush.trans hlast), ?_, fun i hi => ?_⟩
    · rw [tellg_flush_of_le blockBufOfs_flush (hlast.aligned hua) hlast.blockSize (by omega)
        (by rw [hsize]; omega), hsize, Nat.mul_succ]
      omega
    · rcases Nat.lt_succ_iff_lt_or_eq.mp hi with him | rfl
      · exact (hholds i him).extend (extends_flush.trans hlast).stream
      · rw [hust, ← htell, hua.tellg_eq]
        exact holdsAt_append_length _ _

/-- The numbers in the directory of a band. -/
def directory (kv : List KVPair) (bs rows dataPos : ℕ) : List ℕ :=
  let maxNum := bs / 16
  [blocksNum maxNum rows, bs, dataPos] ++
    (blockMins kv maxNum (blocksNum maxNum rows)).map UInt64.toNat ++
    (blockMaxs kv maxNum (blocksNum maxNum rows) rows).map UInt64.toNat ++
    blockNums maxNum (blocksNum maxNum rows) rows

lemma saveDirectory_spec (w : BlockFileIOWriter) (kv : List KVPair) (bs rows dataPos : ℕ) :
    let w' := saveDirectory w kv bs (bs / 16) (blocksNum (bs / 16) rows) rows
      dataPos
    Extends w w' ∧ w'.stream = w.stream ++ u64Bytes (directory kv bs rows dataPos) := by
  refine ⟨?_, ?_⟩
  · exact extends_write.trans (extends_write.trans (extends_write.trans
      (extends_write.trans (extends_write.trans extends_write))))
  · simp only [saveDirectory, directory, stream_write, u64Bytes_append, u64Bytes_cons, u64Bytes_nil,
      append_nil, append_assoc]

structure HoldsBand (file : List UInt8) (bs rows : ℕ) (kv : List KVPair) (ofs dataPos : ℕ) :
    Prop where
  directory : HoldsAt file ofs (u64Bytes (directory kv bs rows dataPos))
  block : ∀ i < blocksNum (bs / 16) rows,
    HoldsAt file (dataPos + bs * i) (blockBytes kv (bs / 16) rows i)
  size_le_ofs : bs ≤ ofs
  size_le_pos : bs ≤ dataPos
  end_le : dataPos + bs * blocksNum (bs / 16) rows ≤ file.length

variable {bs : ℕ}

lemma HoldsBand.extend {file file' : List UInt8}
    (h : HoldsBand file bs rows kv ofs dataPos) (hpre : file <+: file') :
    HoldsBand file' bs rows kv ofs dataPos :=
  ⟨h.directory.extend hpre, fun i hi => (h.block i hi).extend hpre, h.size_le_ofs,
    h.size_le_pos, h.end_le.trans hpre.length_le⟩

lemma HoldsBand.overwrite {file front : List UInt8}
    (h : HoldsBand file bs rows kv ofs dataPos) (hfront : front.length ≤ bs) :
    HoldsBand (front ++ file.drop front.length) bs rows kv ofs dataPos := by
  have hend := h.end_le
  refine ⟨h.directory.overwrite (hfront.trans h.size_le_ofs), fun i hi => ?_, h.size_le_ofs,
    h.size_le_pos, ?_⟩
  · exact (h.block i hi).overwrite (hfront.trans (h.size_le_pos.trans (Nat.le_add_right _ _)))
  · rw [length_append, length_drop]
    omega

/-- No band takes up more bytes. -/
def bandSizeBound (bs rows : ℕ) : ℕ :=
  2 * bs + (bs + 24) * blocksNum (bs / 16) rows + 24

lemma length_directory (kv : List KVPair) (bs rows dataPos : ℕ) :
    (directory kv bs rows dataPos).length = 3 + 3 * blocksNum (bs / 16) rows := by
  simp only [directory, blockMins, blockMaxs, blockNums, length_append, length_cons,
    length_nil, length_map, length_range]
  omega

lemma formatAndSave_spec (ha : w.Aligned) (hkv : kv.length = rows) (hmax : 0 < w.blockSize / 16)
      (hheader : w.blockSize ≤ w.stream.length) :
    ∃ ofs w', formatAndSave w kv w.blockSize rows = some (ofs, w') ∧ Extends w w' ∧
      w'.stream.length ≤ w.stream.length + bandSizeBound w.blockSize rows ∧
      ∃ dataPos, HoldsBand w'.stream w.blockSize rows kv ofs dataPos := by
  have hfa : w.flush.Aligned := extends_flush.aligned ha
  have hfs : w.flush.blockSize = w.blockSize := blockSize_flush
  obtain ⟨hext, htell, hblocks⟩ := foldl_saveBlock (m := blocksNum (w.blockSize / 16) rows) hfa
    blockBufOfs_flush hkv (by rwa [hfs]) (by rw [hfs])
  rw [hfs] at htell hblocks
  rw [hfs] at hext
  set u := (range (blocksNum (w.blockSize / 16) rows)).foldl
    (saveBlock kv (w.blockSize / 16) rows) w.flush with hu
  have hua : u.flush.Aligned := extends_flush.aligned (hext.aligned hfa)
  obtain ⟨hwrites, hstream⟩ := saveDirectory_spec u.flush kv w.blockSize rows w.flush.tellg
  set w' := saveDirectory u.flush kv w.blockSize (w.blockSize / 16)
    (blocksNum (w.blockSize / 16) rows) rows w.flush.tellg with hw'
  have htotal := hwrites.trans extends_flush
  have hlong : w'.flush.stream.length ≤ w.stream.length + bandSizeBound w.blockSize rows := by
    have hlast := (hwrites.aligned hua).length_flush_le
    have hfirst := ha.length_flush_le
    have hsize : u.flush.blockSize = w.blockSize := blockSize_flush.trans (hext.blockSize.trans hfs)
    rw [hwrites.blockSize, hstream, length_append, length_u64Bytes, length_directory,
      ← hua.tellg_eq, htell, hfa.tellg_eq] at hlast
    rw [bandSizeBound, add_mul]
    omega
  refine ⟨u.flush.tellg, w'.flush, if_neg (by omega), ?_, hlong, w.flush.tellg, ?_, ?_, ?_, ?_, ?_⟩
  · exact extends_flush.trans (hext.trans (extends_flush.trans htotal))
  · refine HoldsAt.extend ?_ extends_flush.stream
    rw [hstream, hua.tellg_eq]
    exact holdsAt_append_length _ _
  · intro i hi
    exact (hblocks i hi).extend (extends_flush.trans htotal).stream
  · rw [hua.tellg_eq]
    exact hheader.trans (extends_flush.trans (hext.trans extends_flush)).stream.length_le
  · rw [hfa.tellg_eq]
    exact hheader.trans extends_flush.stream.length_le
  · rw [← htell, hua.tellg_eq]
    exact htotal.stream.length_le

/-! ### The bands -/

lemma blockSize_of_formatAndSave (h : formatAndSave w kv bs rows = some (ofs, w')) :
    w'.blockSize = w.blockSize := by
  unfold formatAndSave at h
  dsimp only at h
  split_ifs at h
  obtain ⟨-, rfl⟩ := Prod.mk.inj (some.inj h)
  rw [blockSize_flush, (saveDirectory_spec _ _ _ _ _).1.blockSize, blockSize_flush,
    (extends_foldl (fun _ _ => extends_saveBlock) _ _).blockSize, blockSize_flush]

/-- There is a position for every band. -/
lemma length_of_saveBands (h : saveBands totalKv bs rows bands w = some (ofss, w')) :
    ofss.length = bands.length ∧ w'.blockSize = w.blockSize := by
  induction bands generalizing w ofss with
  | nil =>
    cases h
    exact ⟨rfl, rfl⟩
  | cons i bands ih =>
    obtain ⟨⟨ofs, u⟩, hband, h⟩ := bind_eq_some_iff.mp h
    obtain ⟨⟨rest, u'⟩, hbands, ⟨⟩⟩ := bind_eq_some_iff.mp h
    obtain ⟨hlen, hsize⟩ := ih hbands
    exact ⟨congrArg Nat.succ hlen, hsize.trans (blockSize_of_formatAndSave hband)⟩

lemma saveBands_spec {row : ℕ → List KVPair} (ha : w.Aligned) (hmax : 0 < w.blockSize / 16)
    (hheader : w.blockSize ≤ w.stream.length)
    (hrow : ∀ b ∈ bands, (totalKv.drop (rows * b)).take rows = row b)
    (hlen : ∀ b, (row b).length = rows) :
    ∃ ofss w', saveBands totalKv w.blockSize rows bands w = some (ofss, w') ∧ Extends w w' ∧
      w'.stream.length ≤ w.stream.length + bands.length * bandSizeBound w.blockSize rows ∧
      List.Forall₂ (fun b ofs => ∃ dataPos,
        HoldsBand w'.stream w.blockSize rows (row b) ofs dataPos)
        bands ofss := by
  induction bands generalizing w with
  | nil => exact ⟨[], w, rfl, Extends.refl w, Nat.le_add_right _ _, List.Forall₂.nil⟩
  | cons b bands ih =>
    obtain ⟨ofs, u, hband, hext, hlong, dataPos, hholds⟩ :=
      formatAndSave_spec ha (hlen b) hmax hheader
    have hsize := hext.blockSize
    obtain ⟨ofss, w', hbands, hext', hlong', hall⟩ := ih (hext.aligned ha) (by rwa [hsize])
      (by rw [hsize]; exact hheader.trans hext.stream.length_le)
      fun c hc => hrow c (mem_cons_of_mem b hc)
    rw [hsize] at hbands hall hlong'
    refine ⟨ofs :: ofss, w', ?_, hext.trans hext', ?_, ?_⟩
    · simp only [saveBands, hrow b mem_cons_self, hband, hbands, some_bind]
    · rw [length_cons, Nat.succ_mul]
      omega
    · exact List.Forall₂.cons ⟨dataPos, hholds.extend hext'.stream⟩ hall

/-! ### The raw vectors -/

def rawChunk (data : List UInt8) (dataSize ntotal vecNumABlk i : ℕ) : List UInt8 :=
  (data.drop (i * dataSize)).take (min (ntotal - i) vecNumABlk * dataSize)

/-- The chunks of the turns of the loop. -/
def rawChunks (data : List UInt8) (dataSize ntotal vecNumABlk : ℕ) : ℕ → ℕ → List (List UInt8)
  | 0, _ => []
  | fuel + 1, i =>
    if i < ntotal then
      rawChunk data dataSize ntotal vecNumABlk i ::
        rawChunks data dataSize ntotal vecNumABlk fuel (i + vecNumABlk)
    else []

lemma saveRawData_eq (data : List UInt8) (dataSize ntotal vecNumABlk fuel : ℕ)
    (w : BlockFileIOWriter) (i : ℕ) :
    saveRawData data dataSize ntotal vecNumABlk fuel w i =
      (rawChunks data dataSize ntotal vecNumABlk fuel i).foldl flushAndWrite w := by
  induction fuel generalizing w i with
  | zero => rfl
  | succ fuel ih =>
    unfold saveRawData rawChunks
    split_ifs with hi
    · rw [foldl_cons, ← ih]
      rfl
    · rfl

lemma extends_flushAndWrite (chunks : List (List UInt8)) (w : BlockFileIOWriter) :
    Extends w (chunks.foldl flushAndWrite w) :=
  extends_foldl (fun _ _ => extends_flush.trans extends_write) chunks w

def rawBlocks (bs : ℕ) (buf : List UInt8) : List (List UInt8) → List (List UInt8)
  | [] => []
  | c :: chunks =>
    (c ++ buf.drop c.length).take bs :: rawBlocks bs (c ++ buf.drop c.length) chunks

lemma file_foldl_flushAndWrite (h : ∀ c ∈ cs, 0 < c.length ∧ c.length ≤ w.blockSize) :
    (cs.foldl flushAndWrite w).flush.file =
      w.flush.file ++ (rawBlocks w.blockSize w.blockBuf cs).flatten := by
  induction cs generalizing w with
  | nil => simp [rawBlocks]
  | cons c cs ih =>
    obtain ⟨hpos, hle⟩ := h c mem_cons_self
    rw [← blockSize_flush] at hle
    have hfile := flush_write_file blockBufOfs_flush hpos hle
    have hbuf := blockBuf_write blockBufOfs_flush hle
    have hsize : (w.flush.write c).blockSize = w.blockSize := blockSize_write.trans blockSize_flush
    rw [blockBuf_flush] at hfile hbuf
    rw [blockSize_flush] at hfile
    rw [foldl_cons, flushAndWrite, ih (by
      rw [hsize]
      exact fun c' hc' => h c' (mem_cons_of_mem c hc')), hfile, hbuf, hsize, rawBlocks,
      flatten_cons, append_assoc]

variable {data : List UInt8}

lemma mem_rawChunks (h : c ∈ rawChunks data dataSize ntotal vecNumABlk fuel i) :
    ∃ j < ntotal, c = rawChunk data dataSize ntotal vecNumABlk j := by
  induction fuel generalizing i with
  | zero => cases h
  | succ fuel ih =>
    unfold rawChunks at h
    split_ifs at h with hi
    · rcases mem_cons.mp h with rfl | h
      · exact ⟨i, hi, rfl⟩
      · exact ih h
    · cases h

lemma length_rawChunk (hdata : data.length = ntotal * dataSize) :
    (rawChunk data dataSize ntotal vecNumABlk i).length = min
      (ntotal - i) vecNumABlk * dataSize := by
  rw [rawChunk, length_take, length_drop, hdata, ← Nat.sub_mul]
  exact min_eq_left (Nat.mul_le_mul_right _ (min_le_left _ _))

/-- Every turn of the loop fills at most one block. -/
lemma rawChunks_fit
    (hdata : data.length = ntotal * dataSize) (hpos : 0 < dataSize) (hle : dataSize ≤ bs)
    (fuel i : ℕ) :
    ∀ c ∈ rawChunks data dataSize ntotal (bs / dataSize) fuel i,
      0 < c.length ∧ c.length ≤ bs := by
  intro c hc
  obtain ⟨j, hj, rfl⟩ := mem_rawChunks hc
  have hvec : 0 < bs / dataSize := Nat.div_pos hle hpos
  rw [length_rawChunk hdata]
  refine ⟨mul_pos (by omega) hpos, ?_⟩
  exact (Nat.mul_le_mul_right _ (min_le_right _ _)).trans (Nat.div_mul_le_self _ _)

lemma length_rawChunks_le (data : List UInt8) (dataSize ntotal vecNumABlk fuel i : ℕ) :
    (rawChunks data dataSize ntotal vecNumABlk fuel i).length ≤ fuel := by
  induction fuel generalizing i with
  | zero => exact le_rfl
  | succ fuel ih =>
    unfold rawChunks
    split_ifs
    · exact Nat.succ_le_succ (ih _)
    · exact Nat.zero_le _

lemma length_flatten_rawBlocks_le (bs : ℕ) (buf : List UInt8) (chunks : List (List UInt8)) :
    (rawBlocks bs buf chunks).flatten.length ≤ chunks.length * bs := by
  induction chunks generalizing buf with
  | nil => exact Nat.zero_le _
  | cons c chunks ih =>
    have hrest := ih (c ++ buf.drop c.length)
    have hblock := length_take_le bs (c ++ buf.drop c.length)
    rw [rawBlocks, flatten_cons, length_append, length_cons, Nat.succ_mul]
    omega

/-! ### The data file -/

lemma loadVecData_spec (h : loadVecData dataFile = .ok vecs) :
    vecs.npts < 2 ^ 32 ∧ vecs.dim < 2 ^ 32 ∧ vecs.data.length = vecs.npts * vecs.dim / 8 := by
  obtain ⟨n, hn, h⟩ := bind_eq_ok.mp h
  obtain ⟨d, hd, h⟩ := bind_eq_ok.mp h
  split_ifs at h with hmod hsize
  cases h
  obtain ⟨nBytes, hnBytes, rfl⟩ := map_eq_some_iff.mp (orUndefined_eq_ok.mp hn)
  obtain ⟨dBytes, hdBytes, rfl⟩ := map_eq_some_iff.mp (orUndefined_eq_ok.mp hd)
  -- a number of four bytes
  have hword : ∀ {b : ℕ} {bytes : List UInt8}, readRange dataFile b (b + 4) = some bytes →
      leValue bytes < 2 ^ 32 := by
    intro b bytes hbytes
    have hle : bytes.length ≤ 4 := by
      have := length_readRange_le hbytes
      omega
    calc leValue bytes < 256 ^ bytes.length := leValue_lt bytes
      _ ≤ 256 ^ 4 := Nat.pow_le_pow_right (by decide) hle
      _ = 2 ^ 32 := by decide
  refine ⟨hword hnBytes, hword hdBytes, ?_⟩
  rw [length_take, length_drop, not_not.mp hsize, mul_comm (leValue dBytes),
    Nat.add_sub_cancel, min_self]

/-- The data file of `n` binary vectors of `d` bits. -/
def vecFile (n d : ℕ) (data : List UInt8) : List UInt8 := leBytes 4 n ++ leBytes 4 d ++ data

lemma loadVecData_vecFile (hn : n < 2 ^ 32) (hd : d < 2 ^ 32)
    (hmod : d % 8 = 0) (hdata : data.length = n * d / 8) :
    loadVecData (vecFile n d data) = .ok { data := data, npts := n, dim := d } := by
  have hholds : HoldsAt (vecFile n d data) 0 (leBytes 4 n ++ leBytes 4 d ++ data) := prefix_rfl
  have hfirst := hholds.left.left.readRange
  have hsecond := hholds.left.right.readRange
  simp only [length_leBytes, zero_add, Nat.reduceAdd] at hfirst hsecond
  have hlen : (vecFile n d data).length = n * d / 8 + 8 := by
    simp only [vecFile, length_append, length_leBytes, hdata]
    omega
  have hrest : (vecFile n d data).drop 8 = data := drop_left' (by simp)
  unfold loadVecData
  simp only [hfirst, hsecond, orUndefined, map_some, leValue_leBytes (show n < 256 ^ 4 from hn),
    leValue_leBytes (show d < 256 ^ 4 from hd), bind, Except.bind, hmod, hlen, hrest, ne_eq,
    not_true_eq_false, if_false]
  rw [mul_comm d n, ← hdata, take_length]

/-! ### The whole file -/

section File

variable (hash : List UInt8 → UInt64) (S : StdSort KVPair) (p : BuildParams)

def VecData.byte (vecs : VecData) (t : ℕ) : UInt8 := (vecs.data[t]?).getD 0

/-- The header fits into its block. -/
def HeaderFits : Prop := 48 + 8 * p.lshParams.band ≤ p.fileBlockSize

def headerDataPos : ℤ := if p.withRawData then p.fileBlockSize else -1

/-- The blocks of raw vectors. -/
def rawBytes (vecs : VecData) : List UInt8 :=
  (rawBlocks p.fileBlockSize (replicate p.fileBlockSize 0)
    (rawChunks vecs.data p.dataSize vecs.npts (p.fileBlockSize / p.dataSize)
      vecs.npts 0)).flatten

structure IndexFile (vecs : VecData) (file : List UInt8) (ofss : List ℕ) : Prop where
  header : HoldsAt file 0 (u64Bytes (headerFields p vecs.npts (headerDataPos p) ofss))
  bands : List.Forall₂ (fun b ofs => ∃ dataPos, HoldsBand file p.fileBlockSize vecs.npts
    (sortedRow hash p.lshParams S vecs.byte vecs.npts b) ofs dataPos)
    (range p.lshParams.band) ofss
  raw : p.withRawData = true → HoldsAt file p.fileBlockSize (rawBytes p vecs)

variable {hash S p}

lemma HeaderFits.headerSize_le (h : HeaderFits p) :
    headerSize p.lshParams.band p.fileBlockSize ≤ p.fileBlockSize := by
  have hge := p.blockSize_le_fileBlockSize
  have hmin := p.blockSize_ge
  have hdiv : (sizeofMinHashLSH + p.lshParams.band * 8) / p.fileBlockSize < 2 := by
    rw [Nat.div_lt_iff_lt_mul (by omega)]
    unfold HeaderFits at h
    unfold sizeofMinHashLSH
    omega
  unfold headerSize divRoundUp
  split_ifs
  · omega
  · omega

lemma band_pos : 0 < p.lshParams.band := by
  unfold BuildParams.lshParams optimizeMinHashLSHParams
  split_ifs
  · exact one_pos
  · exact p.length_pos
  · dsimp only
    omega

lemma dataSize_le_fileBlockSize (hraw : p.withRawData = true) :
    p.dataSize ≤ p.fileBlockSize := by
  have hpos := p.blockSize_ge
  have hdiv := Nat.div_add_mod p.dataSize p.blockSize
  have hmod := Nat.mod_lt p.dataSize (y := p.blockSize) (by omega)
  rw [BuildParams.fileBlockSize, roundUp, add_mul, mul_comm _ p.blockSize]
  split_ifs
  · omega
  · omega

lemma formatAndSave_flush (w : BlockFileIOWriter) (kv : List KVPair) (bs rows : ℕ) :
    formatAndSave w.flush kv bs rows = formatAndSave w kv bs rows := by
  unfold formatAndSave
  rw [flush_flush]

/-- Saving the bands begins with a flush. -/
lemma saveBands_flush (totalKv : List KVPair) (bs rows : ℕ)
    (hne : bands ≠ []) (w : BlockFileIOWriter) :
    saveBands totalKv bs rows bands w.flush = saveBands totalKv bs rows bands w := by
  cases bands with
  | nil => exact absurd rfl hne
  | cons b bands => rw [saveBands, saveBands, formatAndSave_flush]

variable {vecs : VecData}

lemma saveVectors_spec (h0 : w.blockBufOfs = 0) (hsize : w.blockSize = p.fileBlockSize)
    (hdata : vecs.data.length = vecs.npts * p.dataSize) :
    Extends w (saveVectors p vecs w).flush ∧ (saveVectors p vecs w).flush.stream.length ≤
        w.stream.length + vecs.npts * p.fileBlockSize ∧
      (p.withRawData = true → w.blockBuf = replicate p.fileBlockSize 0 →
        (saveVectors p vecs w).flush.stream = w.stream ++ rawBytes p vecs) := by
  have hflush : w.flush = w := by rw [flush, if_neg (by simpa using h0)]
  unfold saveVectors
  split_ifs with hraw
  · rw [saveRawData_eq]
    have hfit := rawChunks_fit hdata p.dataSize_pos
      (dataSize_le_fileBlockSize hraw) vecs.npts 0
    rw [← hsize] at hfit
    have hfile := file_foldl_flushAndWrite hfit
    rw [← stream_flush, hflush, ← stream_of_ofs_eq_zero h0, hsize] at hfile
    have hlen := length_rawChunks_le vecs.data p.dataSize vecs.npts
      (p.fileBlockSize / p.dataSize) vecs.npts 0
    refine ⟨(extends_flushAndWrite _ w).trans extends_flush, ?_, fun _ hbuf => ?_⟩
    · rw [hfile, length_append]
      exact Nat.add_le_add_left ((length_flatten_rawBlocks_le _ _ _).trans
        (Nat.mul_le_mul_right _ hlen)) _
    · rw [hfile, hbuf, rawBytes]
  · rw [hflush]
    exact ⟨Extends.refl w, Nat.le_add_right _ _, fun h => absurd h hraw⟩

lemma length_headerBytes (n : ℕ) (dataPos : ℤ) (ofss : List ℕ) :
    (u64Bytes (headerFields p n dataPos ofss)).length = 48 + 8 * ofss.length := by
  rw [length_u64Bytes, headerFields, length_append]
  simp only [length_cons, length_nil]
  omega

lemma headerFits_of_saveIndex {file : List UInt8} (h : saveIndex hash S p vecs = .ok file) :
    HeaderFits p := by
  obtain ⟨⟨ofss, w⟩, hbands, h⟩ := bind_eq_ok.mp h
  obtain ⟨hlen, hsize⟩ := length_of_saveBands (orUndefined_eq_ok.mp hbands)
  rw [length_range] at hlen
  have hblock : w.blockSize = p.fileBlockSize := by
    rw [hsize]
    unfold saveVectors
    split_ifs
    · rw [saveRawData_eq]
      exact (extends_flushAndWrite _ _).blockSize
    · rfl
  dsimp only at h
  split at h
  · cases h
  · rename_i w' hheader
    obtain ⟨hle, -⟩ := writeHeader_eq_ok.mp hheader
    rwa [length_headerBytes, hlen, hblock] at hle

/-- No file of an index with `n` rows is longer. -/
def fileSizeBound (p : BuildParams) (n : ℕ) : ℕ :=
  (n + 2) * p.fileBlockSize +
    p.lshParams.band * bandSizeBound p.fileBlockSize n

variable (hash S) in
lemma saveIndex_spec (hfits : HeaderFits p) (hdata : vecs.data.length = vecs.npts * p.dataSize) :
    ∃ file ofss, saveIndex hash S p vecs = .ok file ∧
      file.length ≤ fileSizeBound p vecs.npts ∧ IndexFile hash S p vecs file ofss := by
  have hpos := p.fileBlockSize_pos
  have hge := p.blockSize_le_fileBlockSize
  have hmin := p.blockSize_ge
  obtain ⟨hfile, hbuf, ha⟩ := aligned_new hpos
    (headerSize_pos p.lshParams.band p.fileBlockSize) hfits.headerSize_le
  set w := BlockFileIOWriter.new p.fileBlockSize
    (headerSize p.lshParams.band p.fileBlockSize) hpos (headerSize_pos _ _) with hw
  have h0 : w.blockBufOfs = 0 := rfl
  have hsize : w.blockSize = p.fileBlockSize := rfl
  have htell : w.tellg = p.fileBlockSize := by
    show 1 * p.fileBlockSize + 0 = _
    omega
  -- the raw vectors
  obtain ⟨hext, hlong, hraw⟩ := saveVectors_spec h0 hsize hdata
  set u := (saveVectors p vecs w).flush with hu
  have hus := hext.blockSize.trans hsize
  have hws : w.stream.length = p.fileBlockSize := by
    rw [stream_of_ofs_eq_zero h0, hfile, length_replicate]
  -- the bands
  have hrow : ∀ b ∈ range p.lshParams.band,
      ((sortHashKV S (genTransposedHashKV hash p.lshParams vecs.byte vecs.npts) vecs.npts
        p.lshParams.band).drop (vecs.npts * b)).take vecs.npts =
        sortedRow hash p.lshParams S vecs.byte vecs.npts b := by
    intro b hb
    rw [sortHashKV_eq]
    exact take_drop_tableOf (fun b _ => length_sortedRow)
      (mem_range.mp hb)
  obtain ⟨ofss, w', hbands, hext', hlong', hall⟩ := saveBands_spec (hext.aligned ha)
    (by rw [hus]; exact Nat.div_pos (by omega) (by decide))
    (by rw [hus, ← hws]; exact hext.stream.length_le)
    hrow (fun _ => length_sortedRow)
  rw [hus] at hall hlong'
  rw [hus, saveBands_flush _ _ _ (by simpa using ne_of_gt band_pos)] at hbands
  have hlen : ofss.length = p.lshParams.band := by rw [← hall.length_eq, length_range]
  -- the header
  have hws' := hext'.blockSize.trans hus
  have hbytes : (u64Bytes (headerFields p vecs.npts (headerDataPos p) ofss)).length ≤
      p.fileBlockSize := by
    rw [length_headerBytes, hlen]
    exact hfits
  obtain ⟨w'', hheader⟩ : ∃ w'', w'.writeHeader
      (u64Bytes (headerFields p vecs.npts (headerDataPos p) ofss)) = .ok w'' :=
    ⟨_, writeHeader_eq_ok.mpr ⟨by rwa [hws'], rfl⟩⟩
  have hfront : p.fileBlockSize ≤ w'.file.length := by
    have hstream := (hext.trans hext').stream.length_le
    have haligned := hext'.aligned (hext.aligned ha)
    rw [hws, length_stream, haligned] at hstream
    have hofs := w'.ofs_lt
    rw [haligned, hws']
    rcases Nat.eq_zero_or_pos w'.currentBlockId with hid | hid
    · rw [hid] at hstream
      omega
    · exact Nat.le_mul_of_pos_left _ hid
  have hclose := close_of_writeHeader hheader (hbytes.trans hfront)
  have hpre : w'.stream <+: w'.close := by
    rw [close, ← stream_flush]
    exact extends_flush.stream
  refine ⟨w''.close, ofss, ?_, ?_, ?_, ?_, ?_⟩
  · have hdataPos : (if p.withRawData then (w.tellg : ℤ) else -1) = headerDataPos p := by
      rw [htell, headerDataPos]
    have hbyte : (fun t => (vecs.data[t]?).getD 0) = vecs.byte := rfl
    unfold saveIndex
    simp only [hbyte, ← hw, hbands, orUndefined, hdataPos, hheader, bind, Except.bind]
  · have hlast := (hext'.aligned (hext.aligned ha)).length_flush_le
    have hfull : w'.close.length = w'.flush.stream.length := by rw [close, stream_flush]
    rw [length_range] at hlong'
    rw [hclose, length_append, length_drop, fileSizeBound, add_mul]
    omega
  · rw [hclose]
    exact ⟨w'.close.drop _, rfl⟩
  · rw [hclose]
    refine hall.imp fun b ofs hband => ?_
    obtain ⟨dataPos, hholds⟩ := hband
    exact ⟨dataPos, (hholds.extend hpre).overwrite hbytes⟩
  · intro hr
    rw [hclose]
    refine HoldsAt.overwrite ?_ hbytes
    refine HoldsAt.extend ?_ (hext'.stream.trans hpre)
    rw [hraw hr hbuf, ← hws]
    exact holdsAt_append_length _ _

/-- **What a build that succeeds leaves.** -/
lemma buildAndSave_spec {dataFile file : List UInt8}
    (h : buildAndSave hash S p dataFile = .ok file) :
    ∃ vecs ofss, loadVecData dataFile = .ok vecs ∧ vecs.dim = p.dataSize * 8 ∧
      vecs.data.length = vecs.npts * p.dataSize ∧ HeaderFits p ∧
      IndexFile hash S p vecs file ofss := by
  unfold buildAndSave at h
  obtain ⟨vecs, hload, h⟩ := bind_eq_ok.mp h
  dsimp only at h
  split_ifs at h with hdim
  have hdim : vecs.dim = p.dataSize * 8 := not_not.mp hdim
  obtain ⟨-, -, hlen⟩ := loadVecData_spec hload
  rw [hdim, ← mul_assoc, Nat.mul_div_cancel _ (by decide)] at hlen
  have hfits := headerFits_of_saveIndex h
  obtain ⟨file', ofss, hsave, -, hindex⟩ := saveIndex_spec hash S hfits hlen
  obtain rfl : file' = file := ok_unique hsave h
  exact ⟨vecs, ofss, hload, hdim, hlen, hfits, hindex⟩

variable (hash S) in
lemma buildAndSave_isOk (hload : loadVecData dataFile = .ok vecs)
    (hdim : vecs.dim = p.dataSize * 8) (hfits : HeaderFits p) :
    ∃ file, buildAndSave hash S p dataFile = .ok file ∧
      file.length ≤ fileSizeBound p vecs.npts := by
  obtain ⟨-, -, hlen⟩ := loadVecData_spec hload
  rw [hdim, ← mul_assoc, Nat.mul_div_cancel _ (by decide)] at hlen
  obtain ⟨file, ofss, hsave, hlong, -⟩ := saveIndex_spec hash S hfits hlen
  refine ⟨file, ?_, hlong⟩
  have hexpected : ¬ vecs.dim ≠ p.mhVecElementSize * p.mhVecLength * 8 := not_not.mpr hdim
  unfold buildAndSave
  simp only [hload, bind, Except.bind, if_neg hexpected, hsave]

end File

end Rvanns.Knowhere.MinHash
