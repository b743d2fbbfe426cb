import Rvanns.Cpp.Rows
import Rvanns.Knowhere.Equiv.MinHashLSHLoad

/-!
# Getting the vectors back

The raw vectors are saved a block at a time, and what is left at the end of a block stays unused.
-/

namespace Rvanns.Knowhere.MinHash

open Cpp Faiss List

lemma getElem?_rawChunks (hj : j < fuel) (hlt : i + j * vecNumABlk < ntotal) :
    (rawChunks data dataSize ntotal vecNumABlk fuel i)[j]? =
      some (rawChunk data dataSize ntotal vecNumABlk (i + j * vecNumABlk)) := by
  induction fuel generalizing i j with
  | zero => omega
  | succ fuel ih =>
    rw [rawChunks, if_pos (by omega)]
    cases j with
    | zero => simp
    | succ j =>
      rw [Nat.succ_mul] at hlt
      rw [getElem?_cons_succ, ih (by omega) (by omega)]
      congr 2
      rw [Nat.succ_mul]
      omega

lemma getElem?_rawBlocks {blockSize used : ℕ} {chunks : List (List UInt8)} {buf chunk : List UInt8}
    {j : ℕ} (hbuf : blockSize ≤ buf.length) (hused : ∀ c ∈ chunks, c.length ≤ used)
    (hle : used ≤ blockSize) (hc : chunks[j]? = some chunk) :
    ∃ b, (rawBlocks blockSize buf chunks)[j]? = some b ∧ b.length = blockSize ∧
      (∀ o < chunk.length, b[o]? = chunk[o]?) ∧
      ∀ o, used ≤ o → o < blockSize → b[o]? = buf[o]? := by
  induction chunks generalizing buf j with
  | nil => cases hc
  | cons c' chunks ih =>
    have hc' := hused c' mem_cons_self
    have hkeep : ∀ o, used ≤ o → (c' ++ buf.drop c'.length)[o]? = buf[o]? := by
      intro o ho
      rw [getElem?_append_right (by omega), getElem?_drop]
      congr 1
      omega
    have hlen : blockSize ≤ (c' ++ buf.drop c'.length).length := by
      rw [length_append, length_drop]
      omega
    cases j with
    | zero =>
      obtain rfl : c' = chunk := by simpa using hc
      refine ⟨_, rfl, ?_, fun o ho => ?_, fun o ho hob => ?_⟩
      · rw [length_take]
        omega
      · rw [getElem?_take_of_lt (by omega), getElem?_append_left ho]
      · rw [getElem?_take_of_lt hob, hkeep o ho]
    | succ j =>
      obtain ⟨b, hb, hblen, hfront, hrest⟩ := ih hlen
        (fun d hd => hused d (mem_cons_of_mem c' hd)) (by simpa using hc)
      refine ⟨b, hb, hblen, hfront, fun o ho hob => ?_⟩
      rw [hrest o ho hob, hkeep o ho]

lemma length_of_mem_rawBlocks
    (hbuf : blockSize ≤ buf.length) (hb : b ∈ rawBlocks blockSize buf cs) :
    b.length = blockSize := by
  induction cs generalizing buf with
  | nil => cases hb
  | cons c cs ih =>
    have hlen : blockSize ≤ (c ++ buf.drop c.length).length := by
      rw [length_append, length_drop]
      omega
    rcases mem_cons.mp hb with rfl | hb
    · rw [length_take]
      omega
    · exact ih hlen hb

section Raw

variable {p : BuildParams} {vecs : VecData}

def usedSize (p : BuildParams) : ℕ :=
  p.fileBlockSize / p.dataSize * p.dataSize

/-- **The raw part of the file.**  Its first bytes, as many as the dataset has, are the dataset with
padding. -/
theorem getElem?_rawBytes (hraw : p.withRawData = true)
    (hdata : vecs.data.length = vecs.npts * p.dataSize) {x : ℕ} (hx : x < vecs.npts * p.dataSize) :
    (rawBytes p vecs)[x]? =
      some (padded p.fileBlockSize (usedSize p) vecs.byte 0 x) := by
  have hdpos := p.dataSize_pos
  have hle : usedSize p ≤ p.fileBlockSize := Nat.div_mul_le_self _ _
  have hvec := Nat.div_pos (dataSize_le_fileBlockSize hraw) hdpos
  set bs := p.fileBlockSize
  set ds := p.dataSize
  have hbs : 0 < bs := p.fileBlockSize_pos
  have hsplit := Nat.div_add_mod x bs
  have hmod := Nat.mod_lt x hbs
  set j := x / bs
  set o := x % bs
  -- block `j` is written: its first byte is one of the dataset
  have hfirst : j * (bs / ds) < vecs.npts := by
    refine Nat.lt_of_mul_lt_mul_right (a := ds) ?_
    calc j * (bs / ds) * ds = j * usedSize p := mul_assoc _ _ _
      _ ≤ bs * j := by rw [mul_comm bs]; exact Nat.mul_le_mul_left _ hle
      _ < vecs.npts * ds := by omega
  have hfuel : j < vecs.npts := by
    have := Nat.le_mul_of_pos_right j hvec
    omega
  have hchunk : (rawChunks vecs.data ds vecs.npts (bs / ds) vecs.npts 0)[j]? =
      some (rawChunk vecs.data ds vecs.npts (bs / ds) (0 + j * (bs / ds))) :=
    getElem?_rawChunks hfuel (by rw [zero_add]; exact hfirst)
  rw [zero_add] at hchunk
  have hused : ∀ c ∈ rawChunks vecs.data ds vecs.npts (bs / ds) vecs.npts 0,
      c.length ≤ usedSize p := by
    intro c hc
    obtain ⟨i, -, rfl⟩ := mem_rawChunks hc
    rw [length_rawChunk hdata]
    exact Nat.mul_le_mul_right _ (min_le_right _ _)
  have hbuf : bs ≤ (replicate bs (0 : UInt8)).length := by rw [length_replicate]
  obtain ⟨b, hb, hblen, hfront, hrest⟩ := getElem?_rawBlocks hbuf hused hle hchunk
  have hoffset : rowOffset (rawBlocks bs (replicate bs 0)
      (rawChunks vecs.data ds vecs.npts (bs / ds) vecs.npts 0)) j = bs * j := by
    rw [rowOffset_of_length (fun b => length_of_mem_rawBlocks hbuf)
      (lt_length hb).le, Nat.mul_comm]
  have hbyte := getElem?_flatten_rowOffset hb (i := o) (by omega)
  rw [hoffset, hsplit] at hbyte
  show (rawBlocks bs (replicate bs 0) _).flatten[x]? = _
  rw [hbyte, padded]
  split_ifs with ho
  · -- the byte belongs to a vector of the block
    have hused : j * (bs / ds) * ds = j * usedSize p := mul_assoc _ _ _
    have hplace : j * (bs / ds) * ds + o < vecs.npts * ds := by
      have : j * usedSize p ≤ bs * j := by
        rw [mul_comm bs]
        exact Nat.mul_le_mul_left _ hle
      omega
    have hnum : o < min (vecs.npts - j * (bs / ds)) (bs / ds) * ds := by
      rw [← Nat.mul_min_mul_right, Nat.sub_mul]
      refine lt_min (by omega) ho
    rw [hfront o (by rwa [length_rawChunk hdata]), rawChunk, getElem?_take_of_lt hnum,
      getElem?_drop, hused, VecData.byte, getElem?_eq_getElem (by omega)]
    rfl
  · rw [hrest o (not_lt.mp ho) hmod, getElem?_replicate, if_pos hmod]

variable {A : BloomArith} {hash : List UInt8 → UInt64} {S : StdSort KVPair}

def VecData.vector (vecs : VecData) (dataSize id : ℕ) : List UInt8 :=
  (vecs.data.drop (id * dataSize)).take dataSize

lemma usedSize_pos (hraw : p.withRawData = true) : 0 < usedSize p :=
  mul_pos (Nat.div_pos (dataSize_le_fileBlockSize hraw) p.dataSize_pos) p.dataSize_pos

lemma Represents.getDataByIds {index : MinHashLSH} (h : Represents A hash S p vecs index)
    (hraw : p.withRawData = true) (hdata : vecs.data.length = vecs.npts * p.dataSize)
    {id : ℕ} (hid : id < vecs.npts) :
    index.getDataByIds [(id : ℤ)] = .ok [(range p.dataSize).map fun t =>
        padded p.fileBlockSize (usedSize p) vecs.byte 0 (id * p.dataSize + t)] := by
  have hsize : index.vectorSize = p.dataSize := by
    rw [MinHashLSH.vectorSize, h.elementSize_eq, h.length_eq, BuildParams.dataSize]
  have hend : (id + 1) * p.dataSize ≤ vecs.npts * p.dataSize := Nat.mul_le_mul_right _ hid
  rw [Nat.succ_mul] at hend
  obtain ⟨rest, hrest⟩ := h.raw hraw
  rw [drop_zero] at hrest
  -- the bytes of the vector, one by one
  have hslice : readRange index.rawData (id * p.dataSize)
      (id * p.dataSize + p.dataSize) =
      some ((range p.dataSize).map fun t =>
        padded p.fileBlockSize (usedSize p) vecs.byte 0 (id * p.dataSize + t)) := by
    have hget : ∀ x < vecs.npts * p.dataSize, index.rawData[x]? =
        some (padded p.fileBlockSize (usedSize p) vecs.byte 0 x) := by
      intro x hx
      have hbyte := getElem?_rawBytes hraw hdata hx
      rw [← hrest, getElem?_append_left (lt_length hbyte), hbyte]
    exact readRange_eq_map fun t ht => hget _ (by omega)
  rw [MinHashLSH.getDataByIds, h.withRawData_eq, if_pos hraw]
  simp [hsize, hslice, orUndefined]

lemma vector_eq_map (hdata : vecs.data.length = vecs.npts * p.dataSize) {id : ℕ}
    (hid : id < vecs.npts) :
    vecs.vector p.dataSize id =
      (range p.dataSize).map fun t => vecs.byte (id * p.dataSize + t) := by
  have hend : (id + 1) * p.dataSize ≤ vecs.npts * p.dataSize := Nat.mul_le_mul_right _ hid
  rw [Nat.succ_mul] at hend
  have hread := readRange_eq_map (v := vecs.data) (b := id * p.dataSize)
    (n := p.dataSize) (f := fun t => vecs.byte (id * p.dataSize + t)) fun t ht => by
      rw [VecData.byte, getElem?_eq_getElem (by omega)]
      rfl
  rw [readRange_of_le (by omega), Nat.add_sub_cancel_left] at hread
  exact Option.some.inj hread

lemma forall_byte_iff (hds : 0 < ds) (first : ℕ) (P : ℕ → Prop) :
    (∀ x, first * ds ≤ x → x < n * ds → P x) ↔
      ∀ id, first ≤ id → id < n → ∀ t < ds, P (id * ds + t) := by
  constructor
  · intro h id hfirst hid t ht
    refine h _ ((Nat.mul_le_mul_right ds hfirst).trans (Nat.le_add_right _ _)) ?_
    have := Nat.mul_le_mul_right ds hid
    rw [Nat.succ_mul] at this
    omega
  · intro h x hfirst hx
    have hsplit := Nat.div_add_mod x ds
    rw [← hsplit, mul_comm]
    exact h (x / ds) ((Nat.le_div_iff_mul_le hds).mpr hfirst) (Nat.div_lt_of_lt_mul (by
      rwa [mul_comm])) _ (Nat.mod_lt x hds)

lemma Represents.getDataByIds_iff {index : MinHashLSH}
    (h : Represents A hash S p vecs index) (hraw : p.withRawData = true)
    (hdata : vecs.data.length = vecs.npts * p.dataSize) :
    (∀ id < vecs.npts, index.getDataByIds [(id : ℤ)] = .ok [vecs.vector p.dataSize id]) ↔
      p.dataSize ∣ p.fileBlockSize ∨
        ∀ id, p.fileBlockSize / p.dataSize ≤ id → id < vecs.npts →
          ∀ b ∈ vecs.vector p.dataSize id, b = 0 := by
  have hds := p.dataSize_pos
  have hbytes : (∀ id < vecs.npts,
      index.getDataByIds [(id : ℤ)] = .ok [vecs.vector p.dataSize id]) ↔
      ∀ x < vecs.npts * p.dataSize,
        padded p.fileBlockSize (usedSize p) vecs.byte 0 x = vecs.byte x := by
    have hall := forall_byte_iff (n := vecs.npts) hds 0 fun x =>
      padded p.fileBlockSize (usedSize p) vecs.byte 0 x = vecs.byte x
    simp only [zero_mul, zero_le, forall_const] at hall
    rw [hall]
    refine forall₂_congr fun id hid => ?_
    rw [h.getDataByIds hraw hdata hid, vector_eq_map hdata hid]
    simp [map_inj_left]
  have hdvd : usedSize p = p.fileBlockSize ↔ p.dataSize ∣ p.fileBlockSize :=
    ⟨fun heq => ⟨_, by rw [mul_comm]; exact heq.symm⟩, Nat.div_mul_cancel⟩
  rw [hbytes, padded_eq_iff _ (usedSize_pos hraw) (Nat.div_mul_le_self _ _), hdvd]
  refine or_congr_right ?_
  rw [usedSize, forall_byte_iff hds]
  refine forall₃_congr fun id _ hid => ?_
  rw [vector_eq_map hdata hid]
  simp

/-- **`GetDataByIds` after `BuildAndSave` and `Load`.**  For an index with raw data, every call
returns the bytes of the vector asked for exactly if the size of a vector divides the block size of
the file, or all vectors that do not fit into the first block are zero. -/
theorem getDataByIds_buildAndSave_iff {dataFile file : List UInt8} {lp : LoadParams}
    {index : MinHashLSH} {vecs : VecData} (hraw : p.withRawData = true)
    (hvecs : loadVecData dataFile = .ok vecs)
    (hbuild : buildAndSave hash S p dataFile = .ok file) (hfile : file.length < 2 ^ 63)
    (hload : load A file lp = .ok index) :
    (∀ id < vecs.npts, index.getDataByIds [(id : ℤ)] = .ok [vecs.vector p.dataSize id]) ↔
      p.dataSize ∣ p.fileBlockSize ∨
        ∀ id, p.fileBlockSize / p.dataSize ≤ id → id < vecs.npts →
          ∀ b ∈ vecs.vector p.dataSize id, b = 0 := by
  obtain ⟨vecs', hvecs', -, -, hdata, hrep⟩ := represents_of_load hbuild hfile hload
  obtain rfl : vecs' = vecs := ok_unique hvecs' hvecs
  exact hrep.getDataByIds_iff hraw hdata

/-- Two vectors of 375 elements in blocks of 4096 bytes: the second one is not returned. -/
theorem getDataByIds_second_vector_ne :
    ∃ file index, buildAndSave byteHash StdSort.insertion (rawParams 375 (by decide))
        (vecFile 2 24000 (replicate 3000 0 ++ replicate 3000 1)) = .ok file ∧
      load BloomFilter.hundredth file {} = .ok index ∧
      index.getDataByIds [1] ≠ .ok [replicate 3000 1] := by
  have hdata : (replicate 3000 (0 : UInt8) ++ replicate 3000 1).length = 2 * (375 * 64) / 8 := by
    rw [length_append, length_replicate, length_replicate]
  obtain ⟨file, index, hbuild, hfile, hload⟩ := exists_index 375 2 (by decide) _ (by decide)
    (by decide) (by decide) hdata
    (by unfold HeaderFits; decide) (by decide)
  refine ⟨file, index, hbuild, hload, fun h => ?_⟩
  obtain ⟨vecs, hvecs, -, -, hlen, hrep⟩ := represents_of_load hbuild hfile hload
  obtain rfl : _ = vecs := Except.ok.inj
    ((loadVecData_vecFile (by decide) (by decide) (by decide) hdata).symm.trans hvecs)
  have hget := hrep.getDataByIds rfl hlen (show 1 < 2 by decide)
  -- the first byte comes from the unused end of the first block
  have hbytes := List.cons.inj (ok_unique hget h)
  have hfirst := congrArg (·[0]?) hbytes.1
  have hsize : (rawParams 375 (by decide)).dataSize = 3000 := rfl
  rw [getElem?_range_map (by decide), getElem?_replicate, if_pos (by decide)] at hfirst
  exact absurd (Option.some.inj hfirst) (by decide)

/-- Vectors of two elements fill the blocks. -/
theorem getDataByIds_two_elements :
    ∃ file index, buildAndSave byteHash StdSort.insertion (rawParams 2 (by decide))
        (vecFile 2 128 (replicate 16 1 ++ replicate 16 2)) = .ok file ∧
      load BloomFilter.hundredth file {} = .ok index ∧
      index.getDataByIds [1] = .ok [replicate 16 2] := by
  obtain ⟨file, index, hbuild, hfile, hload⟩ := exists_index 2 2 (by decide)
    (replicate 16 1 ++ replicate 16 2) (by decide)
    (by decide) (by decide) (by decide) (by unfold HeaderFits; decide) (by decide)
  refine ⟨file, index, hbuild, hload, ?_⟩
  have hiff := getDataByIds_buildAndSave_iff rfl
    (loadVecData_vecFile (by decide) (by decide) (by decide) (by decide)) hbuild hfile hload
  exact hiff.mpr (.inl (by decide)) 1 (by decide)

end Raw

end Rvanns.Knowhere.MinHash
