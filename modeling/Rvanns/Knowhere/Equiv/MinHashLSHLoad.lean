import Rvanns.Knowhere.Equiv.BloomFilter
import Rvanns.Knowhere.Equiv.MinHashLSHFile

/-!
# Loading an index file

`Load` gets back from the file of an index what `BuildAndSave` put there.
-/

namespace Rvanns.Knowhere.MinHash

open Cpp Faiss List BloomFilter

/-! ### A band -/

/-- The loaded band has the entries `kv`. -/
structure RepresentsBand (band : BandIndex) (blockSize rows : ℕ) (kv : List KVPair) : Prop where
  mins : band.mins = blockMins kv (blockSize / 16) (blocksNum (blockSize / 16) rows)
  maxs : band.maxs = blockMaxs kv (blockSize / 16) (blocksNum (blockSize / 16) rows) rows
  numInABlk : band.numInABlk = blockNums (blockSize / 16) (blocksNum (blockSize / 16) rows) rows
  size_eq : band.blockSize = blockSize
  block : ∀ i < blocksNum (blockSize / 16) rows,
    HoldsAt band.data (blockSize * i) (blockBytes kv (blockSize / 16) rows i)

lemma map_ofNat_toNat (l : List UInt64) : (l.map UInt64.toNat).map UInt64.ofNat = l := by
  rw [map_map]
  exact (map_congr_left fun a _ => UInt64.ofNat_toNat).trans (map_id l)

lemma HoldsAt.readKeys {keys : List UInt64}
    (h : HoldsAt data pos (u64Bytes (keys.map UInt64.toNat))) :
    readKeys data pos keys.length = some keys := by
  have hread := h.readU64s fun a ha => by
    obtain ⟨k, -, rfl⟩ := mem_map.mp ha
    exact k.toNat_lt
  rw [length_map] at hread
  rw [MinHash.readKeys, hread, Option.map_some, map_ofNat_toNat]

lemma keyBytes_eq (entries : List KVPair) :
    keyBytes entries = u64Bytes ((entries.map KVPair.key).map UInt64.toNat) := by
  rw [map_map]
  rfl

variable {file : List UInt8} {bs rows ofs dataPos : ℕ} {kv : List KVPair}

variable (h : HoldsBand file bs rows kv ofs dataPos)

include h in
lemma HoldsBand.block_data (mmap : Bool)
    (hi : i < blocksNum (bs / 16) rows) (hkv : kv.length = rows) :
    HoldsAt (if mmap then file.drop dataPos
      else readOwned file dataPos (bs * blocksNum (bs / 16) rows)) (bs * i)
      (blockBytes kv (bs / 16) rows i) := by
  have hmapped := (h.block i hi).drop
  split_ifs
  · exact hmapped
  · refine HoldsAt.extend ?_ (prefix_append _ _)
    refine hmapped.take ?_
    -- a block ends before the next one begins
    have hlen := length_blockBytes kv (bs / 16) rows i
    have hle := length_blockEntries_le hkv (bs / 16) i
    calc bs * i + (blockBytes kv (bs / 16) rows i).length ≤ bs * (i + 1) := by
          rw [Nat.mul_succ]
          omega
      _ ≤ bs * blocksNum (bs / 16) rows := Nat.mul_le_mul_left _ hi

include h in
lemma HoldsBand.read_directory (hbs : 0 < bs) (hfile : file.length < 2 ^ 63) :
    let maxNum := bs / 16
    let blocks := blocksNum maxNum rows
    readU64 file ofs = some blocks ∧ readU64 file (ofs + 8) = some bs ∧
      readU64 file (ofs + 16) = some dataPos ∧
      readKeys file (ofs + 24) blocks = some (blockMins kv maxNum blocks) ∧
      readKeys file (ofs + 24 + 8 * blocks) blocks = some (blockMaxs kv maxNum blocks rows) ∧
      readU64s file (ofs + 24 + 16 * blocks) blocks = some (blockNums maxNum blocks rows) := by
  intro maxNum blocks
  have hend := h.end_le
  have hpos := h.size_le_pos
  have hblocks : blocksNum (bs / 16) rows < 2 ^ 64 := by
    have := Nat.le_mul_of_pos_left (blocksNum (bs / 16) rows) hbs
    omega
  have hmins : (blockMins kv maxNum blocks).length = blocks := by simp [blockMins]
  have hmaxs : (blockMaxs kv maxNum blocks rows).length = blocks := by simp [blockMaxs]
  have hnums : (blockNums maxNum blocks rows).length = blocks := by simp [blockNums]
  have hdir := h.directory
  simp only [MinHash.directory, u64Bytes_append, u64Bytes_cons, u64Bytes_nil, append_nil,
    append_assoc] at hdir
  have h1 := hdir.left
  have hdir := hdir.right
  have h2 := hdir.left
  have hdir := hdir.right
  have h3 := hdir.left
  have hdir := hdir.right
  have h4 := hdir.left
  have hdir := hdir.right
  have h5 := hdir.left
  have h6 := hdir.right
  simp only [length_leBytes, length_u64Bytes, length_map] at h2 h3 h4 h5 h6
  refine ⟨h1.readU64 hblocks, h2.readU64 (by omega), h3.readU64 (by omega), ?_, ?_, ?_⟩
  · have := HoldsAt.readKeys h4
    rwa [hmins] at this
  · have := HoldsAt.readKeys h5
    rwa [hmaxs, hmins] at this
  · have := h6.readU64s (fun a ha => by
      obtain ⟨i, -, rfl⟩ := mem_map.mp ha
      rw [Nat.succ_mul]
      omega)
    rw [hmins, hmaxs, hnums] at this
    rwa [show ofs + 24 + 16 * blocks = ofs + 8 + 8 + 8 + 8 * blocks + 8 * blocks by omega]

variable {A : BloomArith}

include h in
/-- **A saved band is loaded.** -/
lemma loadBand_spec (hbs : 0 < bs / 16)
    (hkv : kv.length = rows) (hfile : file.length < 2 ^ 63) (mmap : Bool) (bloom : BloomFilter) :
    ∃ band, loadBand A file ofs mmap bloom = some (band, bloom.addAll A (kv.map KVPair.key)) ∧
      RepresentsBand band bs rows kv := by
  obtain ⟨hblocks, hsize, hpos, hmins, hmaxs, hnums⟩ :=
    h.read_directory (pos_of_ne_zero fun h0 => by simp [h0] at hbs) hfile
  have hkeys : (range (blocksNum (bs / 16) rows)).mapM (fun idx => do
      let num ← (blockNums (bs / 16) (blocksNum (bs / 16) rows) rows)[idx]?
      readKeys (if mmap then file.drop dataPos
        else readOwned file dataPos (bs * blocksNum (bs / 16) rows)) (bs * idx) num) =
      some ((range (blocksNum (bs / 16) rows)).map fun idx =>
        (blockEntries kv (bs / 16) rows idx).map KVPair.key) := by
    refine mapM_eq_some_map fun idx hidx => ?_
    have hidx := mem_range.mp hidx
    have hholds := (h.block_data mmap hidx hkv).left
    rw [keyBytes_eq] at hholds
    have hread := HoldsAt.readKeys hholds
    rw [length_map, length_blockEntries hkv] at hread
    have hnum : (blockNums (bs / 16) (blocksNum (bs / 16) rows) rows)[idx]? =
        some (min ((idx + 1) * (bs / 16)) rows - idx * (bs / 16)) := by
      simp [blockNums, hidx]
    rw [hnum, some_bind, hread]
  have hflatten : ((range (blocksNum (bs / 16) rows)).map fun idx =>
      (blockEntries kv (bs / 16) rows idx).map KVPair.key).flatten = kv.map KVPair.key := by
    conv_rhs => rw [← flatten_blockEntries hkv hbs]
    rw [map_flatten, map_map]
    rfl
  refine ⟨
    { mins := blockMins kv (bs / 16) (blocksNum (bs / 16) rows)
      maxs := blockMaxs kv (bs / 16) (blocksNum (bs / 16) rows) rows
      numInABlk := blockNums (bs / 16) (blocksNum (bs / 16) rows) rows
      blockSize := bs
      blocksNum := blocksNum (bs / 16) rows
      data := if mmap then file.drop dataPos
        else readOwned file dataPos (bs * blocksNum (bs / 16) rows) }, ?_,
    ⟨rfl, rfl, rfl, rfl, fun i hi => h.block_data mmap hi hkv⟩⟩
  unfold loadBand
  simp only [hblocks, hsize, hpos, hmins, hmaxs, hnums, hkeys, hflatten, some_bind]

/-! ### All bands -/

/-- The filter in slot `s` contains the key. -/
def SlotContains (A : BloomArith) (blooms : List BloomFilter) (s : ℕ) (key : UInt64) : Prop :=
  ∃ bloom, blooms[s]? = some bloom ∧ bloom.contains A key = true

lemma SlotContains.addAll (h : SlotContains A blooms s key) (ht : blooms[t]? = some bloom)
    (keys : List UInt64) : SlotContains A (blooms.set t (bloom.addAll A keys)) s key := by
  obtain ⟨bloom', hs, hc⟩ := h
  have hlt := lt_length ht
  by_cases hst : t = s
  · subst hst
    obtain rfl : bloom' = bloom := Option.some.inj (hs.symm.trans ht)
    exact ⟨_, getElem?_set_self hlt, contains_addAll (.inr hc)⟩
  · exact ⟨bloom', by rw [getElem?_set_ne hst, hs], hc⟩

lemma loadBands_spec {row : ℕ → List KVPair} (hbs : 0 < bs / 16)
    (hlen : ∀ b, (row b).length = rows) (hfile : file.length < 2 ^ 63) (mmap : Bool)
    (h : List.Forall₂ (fun b ofs => ∃ dataPos, HoldsBand file bs rows (row b) ofs dataPos)
      bands ofss) (i : ℕ) (hne : 0 < blooms.length) :
    ∃ bandIndex blooms', loadBands A file mmap ofss i blooms = some (bandIndex, blooms') ∧
      List.Forall₂ (fun b band => RepresentsBand band bs rows (row b)) bands bandIndex ∧
      blooms'.length = blooms.length ∧
      (∀ s key, SlotContains A blooms s key → SlotContains A blooms' s key) ∧
      ∀ t b, bands[t]? = some b → ∀ e ∈ row b,
        SlotContains A blooms' ((i + t) % blooms.length) e.key := by
  induction h generalizing i blooms with
  | nil =>
    exact ⟨[], blooms, rfl, List.Forall₂.nil, rfl, fun s key h => h, fun t b hb => by simp at hb⟩
  | @cons b ofs bands ofss hband _ ih =>
    obtain ⟨dataPos, hholds⟩ := hband
    obtain ⟨bloom, hslot⟩ : ∃ bloom, blooms[i % blooms.length]? = some bloom :=
      ⟨_, getElem?_eq_getElem (Nat.mod_lt i hne)⟩
    obtain ⟨band, hload, hrep⟩ := loadBand_spec (A := A) hholds hbs (hlen b) hfile mmap bloom
    have hset : 0 < (blooms.set (i % blooms.length)
        (bloom.addAll A ((row b).map KVPair.key))).length := by
      rwa [length_set]
    obtain ⟨bandIndex, blooms', hrest, hall, hlen', hkeep, hkeys⟩ := ih (i + 1) hset
    rw [length_set] at hlen' hkeys
    refine ⟨band :: bandIndex, blooms', ?_, List.Forall₂.cons hrep hall, hlen', ?_, ?_⟩
    · simp only [loadBands, hslot, hload, hrest, some_bind]
    · exact fun s key hs => hkeep s key (hs.addAll hslot _)
    · intro t c hc e he
      cases t with
      | zero =>
        obtain rfl : b = c := by simpa using hc
        refine hkeep _ _ ⟨_, getElem?_set_self (Nat.mod_lt i hne), ?_⟩
        exact contains_addAll (.inl (mem_map_of_mem he))
      | succ t =>
        have := hkeys t c (by simpa using hc) e he
        rwa [show i + 1 + t = i + (t + 1) by omega] at this

/-! ### The whole index -/

lemma optimizeMinHashLSHParams_idem (hdim : 0 < dim) (band : ℕ) :
    optimizeMinHashLSHParams dim (optimizeMinHashLSHParams dim band).1 =
      optimizeMinHashLSHParams dim band := by
  unfold optimizeMinHashLSHParams
  by_cases h0 : band = 0
  · have h1 : ¬ dim < 1 := by omega
    simp [h0, h1]
  · by_cases hlt : dim < band
    · have hself : dim / dim = 1 := Nat.div_self hdim
      simp [h0, hlt, ne_of_gt hdim, hself]
    · simp [h0, hlt]

lemma ofInt64Bits_int64Bits (hlow : -2 ^ 63 ≤ v) (hhigh : v < 2 ^ 63) :
    ofInt64Bits (int64Bits v) = v := by
  rw [ofInt64Bits, int64Bits, BitVec.ofNat_toNat, BitVec.setWidth_eq, BitVec.toInt_ofInt]
  exact Int.bmod_eq_of_le (by omega) (by omega)

section Load

variable {hash : List UInt8 → UInt64} {S : StdSort KVPair} {p : BuildParams} {vecs : VecData}

variable (hash S p vecs A) in
/-- A loaded index of the dataset `vecs`. -/
structure Represents (index : MinHashLSH) : Prop where
  band_eq : index.band = p.lshParams.band
  r_eq : index.r = p.lshParams.r
  elementSize_eq : index.mhVecElementSize = p.mhVecElementSize
  length_eq : index.mhVecLength = p.mhVecLength
  bands : List.Forall₂ (fun b band => RepresentsBand band p.fileBlockSize vecs.npts
    (sortedRow hash p.lshParams S vecs.byte vecs.npts b))
    (range p.lshParams.band) index.bandIndex
  bloom : ∀ b < p.lshParams.band,
    ∀ e ∈ sortedRow hash p.lshParams S vecs.byte vecs.npts b,
      SlotContains A index.bloom (b % index.bloom.length) e.key
  bloom_pos : 0 < index.bloom.length
  withRawData_eq : index.withRawData = p.withRawData
  raw : p.withRawData = true → HoldsAt index.rawData 0 (rawBytes p vecs)

lemma fileBlockSize_lt (hdim : p.dataSize < 2 ^ 32) : p.fileBlockSize < 2 ^ 33 := by
  have hpos := p.blockSize_ge
  have hlt := p.blockSize_lt
  have hround := roundUp_lt p.dataSize (y := p.blockSize) (by omega)
  unfold BuildParams.fileBlockSize
  split_ifs <;> omega

lemma band_le_length (p : BuildParams) : p.lshParams.band ≤ p.mhVecLength := by
  have := p.length_pos
  unfold BuildParams.lshParams optimizeMinHashLSHParams
  split_ifs <;> dsimp only <;> omega

lemma HoldsBand.ofs_lt (h : HoldsBand file bs rows kv ofs dataPos) : ofs < file.length := by
  have hlen := h.directory.length_le
  rw [length_u64Bytes, length_drop, MinHash.directory] at hlen
  simp only [length_append, length_cons] at hlen
  omega

/-- The numbers of the header, read one after the other. -/
lemma IndexFile.read_header (h : IndexFile hash S p vecs file ofss)
    (hn : vecs.npts < 2 ^ 32) (hdim : p.dataSize < 2 ^ 32) (hfile : file.length < 2 ^ 63) :
    readU64 file 0 = some vecs.npts ∧ readU64 file 8 = some p.mhVecLength ∧
      readU64 file 16 = some p.mhVecElementSize ∧
      readU64 file 24 = some p.fileBlockSize ∧
      readU64 file 32 = some p.lshParams.band ∧
      readU64 file 40 = some (int64Bits (headerDataPos p)) ∧
      readU64s file 48 p.lshParams.band = some ofss := by
  have hlength : p.mhVecLength ≤ p.dataSize :=
    Nat.le_mul_of_pos_left _ p.elementSize_pos
  have helement : p.mhVecElementSize ≤ p.dataSize :=
    Nat.le_mul_of_pos_right _ p.length_pos
  have hblock := fileBlockSize_lt hdim
  have hband := band_le_length p
  have hofss : ∀ ofs ∈ ofss, ofs < 2 ^ 64 := by
    intro ofs hofs
    obtain ⟨i, hi⟩ := getElem?_of_mem hofs
    obtain ⟨hlt, hget⟩ := List.getElem?_eq_some_iff.mp hi
    obtain ⟨dataPos, hholds⟩ := (List.forall₂_iff_get.mp h.bands).2 i
      (by rw [h.bands.length_eq]; exact hlt) hlt
    have := hholds.ofs_lt
    rw [get_eq_getElem, hget] at this
    omega
  have hhead := h.header
  simp only [headerFields, cons_append, nil_append, u64Bytes_cons] at hhead
  have h1 := hhead.left
  have hhead := hhead.right
  have h2 := hhead.left
  have hhead := hhead.right
  have h3 := hhead.left
  have hhead := hhead.right
  have h4 := hhead.left
  have hhead := hhead.right
  have h5 := hhead.left
  have hhead := hhead.right
  have h6 := hhead.left
  have h7 := hhead.right.readU64s hofss
  rw [← h.bands.length_eq, length_range] at h7
  refine ⟨h1.readU64 (by omega), h2.readU64 (by omega), h3.readU64 (by omega),
    h4.readU64 (by omega), h5.readU64 (by omega), h6.readU64 (BitVec.isLt _), h7⟩

lemma ofInt64Bits_headerDataPos (hdim : p.dataSize < 2 ^ 32) :
    ofInt64Bits (int64Bits (headerDataPos p)) = headerDataPos p := by
  have hblock := fileBlockSize_lt hdim
  refine ofInt64Bits_int64Bits ?_ ?_ <;> unfold headerDataPos <;> split_ifs <;> omega

lemma load_spec (h : IndexFile hash S p vecs file ofss)
    (hn : vecs.npts < 2 ^ 32) (hdim : p.dataSize < 2 ^ 32) (hfile : file.length < 2 ^ 63)
    (lp : LoadParams) (hblooms : (range (if lp.globalBloomFilter then 1 else p.lshParams.band)).mapM
      (fun _ => new A vecs.npts lp.falsePositiveProb) = some blooms) :
    ∃ index, load A file lp = .ok index ∧ Represents A hash S p vecs index := by
  obtain ⟨h1, h2, h3, h4, h5, h6, h7⟩ := h.read_header hn hdim hfile
  have hidem := optimizeMinHashLSHParams_idem p.length_pos p.band
  have hmin := p.blockSize_ge
  have hge := p.blockSize_le_fileBlockSize
  have hlen : 0 < blooms.length := by
    rw [length_of_mapM hblooms, length_range]
    split_ifs
    · exact one_pos
    · exact band_pos
  obtain ⟨bandIndex, blooms', hbands, hall, hlen', -, hkeys⟩ := loadBands_spec (A := A)
    (Nat.div_pos (by omega) (by decide))
    (fun _ => length_sortedRow) hfile (!lp.hashCodeInMemory)
    h.bands 0 hlen
  have hpos := ofInt64Bits_headerDataPos hdim
  have hraw : (headerDataPos p != -1) = p.withRawData := by
    unfold headerDataPos
    cases p.withRawData <;> simp
  refine ⟨
    { bandIndex := bandIndex
      blockSize := p.fileBlockSize
      band := p.lshParams.band
      r := p.lshParams.r
      withRawData := p.withRawData
      rawData := if p.withRawData then file.drop (headerDataPos p).toNat else []
      bloom := blooms'
      mhVecElementSize := p.mhVecElementSize
      mhVecLength := p.mhVecLength
      ntotal := vecs.npts }, ?_, rfl, rfl, rfl, rfl, hall, ?_, hlen' ▸ hlen, rfl, ?_⟩
  · have hparams : optimizeMinHashLSHParams p.mhVecLength p.lshParams.band =
        (p.lshParams.band, p.lshParams.r) := hidem
    unfold load
    simp only [h1, h2, h3, h4, h5, h6, h7, hparams, hblooms, hbands, hpos, hraw, orUndefined,
      Option.map_some, bind, Except.bind]
  · intro b hb e he
    have := hkeys b b (by simp [hb]) e he
    rwa [zero_add, ← hlen'] at this
  · intro hr
    rw [if_pos hr, headerDataPos, if_pos hr]
    exact (h.raw hr).drop

/-- **What `Load` gives for the file of a build.** -/
lemma represents_of_load {lp : LoadParams}
    (hbuild : buildAndSave hash S p dataFile = .ok file) (hfile : file.length < 2 ^ 63)
    (hload : load A file lp = .ok index) :
    ∃ vecs, loadVecData dataFile = .ok vecs ∧ vecs.npts < 2 ^ 32 ∧ p.dataSize < 2 ^ 29 ∧
      vecs.data.length = vecs.npts * p.dataSize ∧ Represents A hash S p vecs index := by
  obtain ⟨vecs, ofss, hvecs, hdim, hdata, -, hindex⟩ := buildAndSave_spec hbuild
  obtain ⟨hn, hdim', -⟩ := loadVecData_spec hvecs
  have hsize : p.dataSize < 2 ^ 29 := by omega
  refine ⟨vecs, hvecs, hn, hsize, hdata, ?_⟩
  cases hblooms : (range (if lp.globalBloomFilter then 1 else p.lshParams.band)).mapM
      (fun _ => new A vecs.npts lp.falsePositiveProb) with
  | some blooms =>
    obtain ⟨index', hload', hrep⟩ := load_spec hindex hn (by omega) hfile lp hblooms
    obtain rfl : index' = index := ok_unique hload' hload
    exact hrep
  | none =>
    -- the constructor of a filter is undefined, so `Load` does not return
    obtain ⟨h1, h2, h3, h4, h5, h6, h7⟩ := hindex.read_header hn (by omega) hfile
    have hparams : optimizeMinHashLSHParams p.mhVecLength p.lshParams.band =
        (p.lshParams.band, p.lshParams.r) :=
      optimizeMinHashLSHParams_idem p.length_pos p.band
    unfold load at hload
    simp only [h1, h2, h3, h4, h5, h6, h7, hparams, hblooms, orUndefined, Option.map_some, bind,
      Except.bind] at hload
    cases hload

lemma load_isOk (lp : LoadParams)
    (hbuild : buildAndSave hash S p dataFile = .ok file) (hfile : file.length < 2 ^ 63)
    (hvecs : loadVecData dataFile = .ok vecs) (hne : 0 < vecs.npts)
    (hsizes : (A.rawSizes vecs.npts lp.falsePositiveProb).isSome) :
    ∃ index, load A file lp = .ok index := by
  obtain ⟨vecs', ofss, hvecs', hdim, hdata, -, hindex⟩ := buildAndSave_spec hbuild
  obtain rfl : vecs' = vecs := ok_unique hvecs' hvecs
  obtain ⟨hn, hdim', -⟩ := loadVecData_spec hvecs
  obtain ⟨⟨m, k⟩, hmk⟩ := Option.isSome_iff_exists.mp hsizes
  obtain ⟨bloom, hbloom⟩ : ∃ bloom, new A vecs'.npts lp.falsePositiveProb = some bloom := by
    unfold new
    rw [hmk, Option.bind_eq_bind]
    exact ⟨_, if_neg (ne_of_gt hne)⟩
  obtain ⟨index, hload, -⟩ := load_spec hindex hn (by omega) hfile lp
    (mapM_eq_some_map (g := fun _ => bloom) fun _ _ => hbloom)
  exact ⟨index, hload⟩

/-! ### Small datasets -/

def byteHash (bytes : List UInt8) : UInt64 := bytes.foldl (fun h b => 31 * h + b.toUInt64) 7

def rawParams (length : ℕ) (hlength : 0 < length) : BuildParams where
  blockSize := 4096
  withRawData := true
  mhVecLength := length
  blockSize_ge := le_rfl
  blockSize_lt := by decide
  elementSize_pos := by decide
  length_pos := hlength

/-- Building and loading the index of a small dataset. -/
lemma exists_index (length n : ℕ) (hlength : 0 < length) (data : List UInt8) (hn : n < 2 ^ 32)
    (hpos : 0 < n) (hbits : length * 64 < 2 ^ 32) (hdata : data.length = n * (length * 64) / 8)
    (hfits : HeaderFits (rawParams length hlength))
    (hbound : fileSizeBound (rawParams length hlength) n < 2 ^ 63) :
    ∃ file index, buildAndSave byteHash StdSort.insertion (rawParams length hlength)
        (vecFile n (length * 64) data) = .ok file ∧ file.length < 2 ^ 63 ∧
      load hundredth file {} = .ok index := by
  have hvecs := loadVecData_vecFile hn hbits (by omega) hdata
  have hdim : length * 64 = (rawParams length hlength).dataSize * 8 := by
    show length * 64 = 8 * length * 8
    omega
  obtain ⟨file, hbuild, hlong⟩ := buildAndSave_isOk byteHash StdSort.insertion hvecs hdim hfits
  have hfile : file.length < 2 ^ 63 := hlong.trans_lt hbound
  obtain ⟨index, hload⟩ := load_isOk (A := hundredth) {} hbuild hfile hvecs hpos rfl
  exact ⟨file, index, hbuild, hfile, hload⟩

end Load

end Rvanns.Knowhere.MinHash
