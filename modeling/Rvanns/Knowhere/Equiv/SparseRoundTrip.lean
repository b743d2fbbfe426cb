import Rvanns.Knowhere.Equiv.SparseInvertedIndex
import Rvanns.Knowhere.SparseSerialize

/-!
# Round trips of a sparse inverted index

What becomes of an index that is written, read back and written again.
-/

namespace Rvanns.Knowhere.Sparse

open Cpp List Option Pod

namespace InvertedIndex

section

variable {S : Type} {floats : FloatBytes S} {idx idx' : InvertedIndex S} {data : List UInt8}
  {pad padding' : ℕ → BitVec 32}

/-! ### What reading leaves alone -/

structure SameStats (idx idx' : InvertedIndex S) : Prop where
  nnz : idx'.datasetNnzStats = idx.datasetNnzStats
  postingLengths : idx'.postingListLengthStats = idx.postingListLengthStats

lemma SameStats.refl (idx : InvertedIndex S) : SameStats idx idx := ⟨rfl, rfl⟩

lemma SameStats.trans (h : SameStats idx idx') (h' : SameStats idx' idx'') : SameStats idx idx'' :=
  ⟨h'.nnz.trans h.nnz, h'.postingLengths.trans h.postingLengths⟩

lemma sameStats_readPostingLists
    (h : readPostingLists floats idx reader = some (status, idx')) : SameStats idx idx' := by
  unfold readPostingLists at h
  dsimp only at h
  split_ifs at h
  · obtain rfl := (Prod.mk.inj (some.inj h)).2
    exact SameStats.refl idx
  · obtain ⟨offsets, -, h⟩ := bind_eq_some_iff.mp h
    obtain ⟨sizes, -, h⟩ := bind_eq_some_iff.mp h
    obtain ⟨ids, -, h⟩ := bind_eq_some_iff.mp h
    obtain ⟨vals, -, h⟩ := bind_eq_some_iff.mp h
    obtain rfl := (Prod.mk.inj (some.inj h)).2
    exact ⟨rfl, rfl⟩

lemma sameStats_readSection
    (h : readSection floats idx data header = some (status, idx')) : SameStats idx idx' := by
  unfold readSection at h
  split_ifs at h
  · exact sameStats_readPostingLists h
  · obtain rfl := (Prod.mk.inj (some.inj h)).2
    exact ⟨rfl, rfl⟩
  · obtain ⟨rowSums, -, h⟩ := bind_eq_some_iff.mp h
    obtain rfl := (Prod.mk.inj (some.inj h)).2
    exact ⟨rfl, rfl⟩
  · obtain ⟨maxScores, -, h⟩ := bind_eq_some_iff.mp h
    obtain rfl := (Prod.mk.inj (some.inj h)).2
    exact ⟨rfl, rfl⟩
  · obtain rfl := (Prod.mk.inj (some.inj h)).2
    exact SameStats.refl idx

lemma sameStats_sectionsHandler
    (h : sectionsHandler floats data idx tableOffset n = some (status, idx')) :
    SameStats idx idx' := by
  induction n generalizing idx tableOffset with
  | zero =>
    obtain rfl := (Prod.mk.inj (some.inj h)).2
    exact SameStats.refl idx
  | succ n ih =>
    obtain ⟨header, -, h⟩ := bind_eq_some_iff.mp h
    obtain ⟨⟨status', idx₁⟩, hsection, h⟩ := bind_eq_some_iff.mp h
    have hstats := sameStats_readSection hsection
    dsimp only at h
    split_ifs at h
    · obtain rfl := (Prod.mk.inj (some.inj h)).2
      exact hstats
    · exact hstats.trans (ih h)

lemma sameStats_deserialize
    (h : deserialize floats idx data = some (status, idx')) : SameStats idx idx' := by
  have hheader : ∀ reader, SameStats idx (idx.fileHeaderHandler reader).2.1 := by
    intro reader
    unfold fileHeaderHandler
    dsimp only
    split_ifs <;> exact ⟨rfl, rfl⟩
  unfold deserialize at h
  dsimp only at h
  split_ifs at h
  · obtain rfl := (Prod.mk.inj (some.inj h)).2
    exact hheader _
  · exact (hheader _).trans (sameStats_sectionsHandler h)

/-! ### What writing needs -/

lemma length_of_readRange {α : Type} {v vals : List α} {n : ℕ} (h : readRange v 0 n = some vals) :
    vals.length = n ∧ n ≤ v.length := by
  unfold readRange at h
  split_ifs at h with hzero hle
  · cases h
    exact ⟨(Nat.le_zero.mp hzero).symm, hzero.trans (Nat.zero_le _)⟩
  · cases h
    rw [length_take, Nat.sub_zero]
    exact ⟨min_eq_left hle, hle⟩

lemma length_fileHeader (idx : InvertedIndex S) : idx.fileHeader.length = 32 := by
  simp [fileHeader, uint32, uint, indexFileV1HeaderReservedSize]

lemma length_sectionHeaders (pad : ℕ → BitVec 32) (used : ℕ)
    (sections : List (InvertedIndexSectionType × ℕ)) :
    (sectionHeaders pad used sections).length = sections.length := by
  induction sections generalizing pad used with
  | nil => rfl
  | cons sec sections ih => exact congrArg (· + 1) (ih _ _)

section

variable (h : serialize floats idx pad = some data)

include h

lemma serialize_eq_some : ∃ ids vals lists reverse sums scores stats,
      readRange idx.idsSpans 0 idx.nrInnerDims = some ids ∧
      readRange idx.valsSpans 0 idx.nrInnerDims = some vals ∧
      postingListsSection floats idx ids vals = some lists ∧ idx.dimMapReverse = some reverse ∧
      rowSumsSection floats idx = some sums ∧ maxScoresSection floats idx = some scores ∧
      idx.buildStatsSection = some stats ∧
      idx.fileHeader ++ uint32.encode idx.nrSections ++
        sectionHeaderBytes.bytes (sectionHeaders pad
          (indexFileV1HeaderSize + 4 + sectionHeaderBytes.size * idx.nrSections)
          (idx.sectionSizes ids vals)) ++ lists ++ uint32.bytes reverse ++ sums ++ scores ++ stats =
        data := by
  obtain ⟨ids, hids, h⟩ := bind_eq_some_iff.mp h
  obtain ⟨vals, hvals, h⟩ := bind_eq_some_iff.mp h
  obtain ⟨lists, hlists, h⟩ := bind_eq_some_iff.mp h
  obtain ⟨reverse, hreverse, h⟩ := bind_eq_some_iff.mp h
  obtain ⟨sums, hsums, h⟩ := bind_eq_some_iff.mp h
  obtain ⟨scores, hscores, h⟩ := bind_eq_some_iff.mp h
  obtain ⟨stats, hstats, h⟩ := bind_eq_some_iff.mp h
  exact ⟨ids, vals, lists, reverse, sums, scores, stats, hids, hvals, hlists, hreverse, hsums,
    hscores, hstats, some.inj h⟩

lemma fileHeader_prefix_of_serialize : idx.fileHeader <+: data := by
  obtain ⟨_, _, _, _, _, _, _, -, -, -, -, -, -, -, rfl⟩ := serialize_eq_some h
  exact prefix_append _ _

lemma buildStats_of_serialize : idx.nRows ≤ idx.datasetNnzStats.length ∧
      idx.nrInnerDims ≤ idx.postingListLengthStats.length ∧ 4 * idx.nRows ≤ data.length := by
  obtain ⟨_, _, _, _, _, _, stats, -, -, -, -, -, -, hstats, rfl⟩ := serialize_eq_some h
  obtain ⟨nnz, hnnz, hstats⟩ := bind_eq_some_iff.mp hstats
  obtain ⟨lengths, hlengths, ⟨⟩⟩ := bind_eq_some_iff.mp hstats
  obtain ⟨hlen, hrows⟩ := length_of_readRange hnnz
  obtain ⟨-, hdims⟩ := length_of_readRange hlengths
  refine ⟨hrows, hdims, ?_⟩
  rw [← append_assoc, length_append, length_append, length_bytes uint32 nnz, hlen]
  show 4 * idx.nRows ≤ _ + 4 * idx.nRows + _
  omega

end

lemma length_dimMapReverse {reverse : List ℕ} (h : idx.dimMapReverse = some reverse) :
    reverse.length = idx.nrInnerDims := by
  refine foldlM_eq_some (P := fun reverse => reverse.length = idx.nrInnerDims)
    (fun reverse e reverse' hlen hturn => ?_) length_replicate h
  split_ifs at hturn
  cases hturn
  rw [length_set, hlen]

lemma length_le_of_serialize (h : serialize floats idx pad = some data)
    (hrows : idx.nRows = 0) (hdims : idx.nrInnerDims = 0) : data.length ≤ 168 := by
  obtain ⟨ids, vals, lists, reverse, sums, scores, stats, hids, hvals, hlists, hreverse, hsums,
    hscores, hstats, rfl⟩ := serialize_eq_some h
  have hempty : ∀ {α : Type} (v : List α), readRange v 0 0 = some [] := fun v => if_pos le_rfl
  rw [hdims] at hids hvals
  cases hids
  cases hvals
  have hlength := length_dimMapReverse hreverse
  rw [hdims] at hlength
  have hnoLists : lists.length = 12 := by
    unfold postingListsSection invertedIndexOffsets at hlists
    rw [hdims] at hlists
    cases hlists
    rfl
  have hnoSums : sums = [] := by
    unfold rowSumsSection at hsums
    rw [hrows] at hsums
    split_ifs at hsums <;> exact (some.inj hsums).symm
  have hnoScores : scores = [] := by
    unfold maxScoresSection at hscores
    rw [hdims] at hscores
    split_ifs at hscores <;> exact (some.inj hscores).symm
  have hnoStats : stats = [] := by
    unfold buildStatsSection at hstats
    rw [hrows, hdims, hempty] at hstats
    exact (some.inj hstats).symm
  have hsections : (idx.sectionSizes [] []).length ≤ 5 := by
    unfold sectionSizes
    split_ifs <;> simp
  rw [hnoSums, hnoScores, hnoStats, append_nil, append_nil, append_nil, length_append,
    length_append, length_append, length_append, length_bytes, length_bytes,
      length_encode, length_sectionHeaders, hnoLists, hlength]
  show 32 + 4 + 24 * _ + 12 + 4 * 0 ≤ 168
  omega

/-! ### Writing again -/

/-- `idx` is written, read into `fresh` and written again as the same bytes, with `pad` in the
memory of the first section table and `padding'` in that of the second. -/
def Reproduces (floats : FloatBytes S) (pad padding' : ℕ → BitVec 32)
    (fresh idx : InvertedIndex S) : Prop :=
  ∃ data idx', serialize floats idx pad = some data ∧
    deserialize floats fresh data = some (.success, idx') ∧
    serialize floats idx' padding' = some data

lemma nRows_eq_zero_of_reproduces (hnnz : fresh.datasetNnzStats = [])
    (hlengths : fresh.postingListLengthStats = [])
    (h : Reproduces floats pad padding' fresh idx) : idx.nRows = 0 := by
  obtain ⟨data, idx', hbytes, hload, hagain⟩ := h
  have hstats := sameStats_deserialize hload
  obtain ⟨hrows, hdims, -⟩ := buildStats_of_serialize hagain
  rw [hstats.nnz, hnnz] at hrows
  rw [hstats.postingLengths, hlengths] at hdims
  -- the file has the statistics of all rows, and the other one has none
  have hsmall := length_le_of_serialize hagain (Nat.le_zero.mp hrows) (Nat.le_zero.mp hdims)
  have hlarge := (buildStats_of_serialize hbytes).2.2
  -- so the headers have the whole number of rows, and they are the same
  have hlength : idx.fileHeader.length = idx'.fileHeader.length := by
    rw [length_fileHeader, length_fileHeader]
  have hheader : idx.fileHeader = idx'.fileHeader :=
    (prefix_of_prefix_length_le (fileHeader_prefix_of_serialize hbytes)
      (fileHeader_prefix_of_serialize hagain) hlength.le).eq_of_length hlength
  have hcount := congrArg (fun bs => leValue ((bs.drop 4).take 4)) hheader
  have hread : ∀ idx : InvertedIndex S, (idx.fileHeader.drop 4).take 4 = leBytes 4 idx.nRows :=
    fun _ => rfl
  rw [hread, hread, Nat.le_zero.mp hrows, leValue_leBytes (by omega)] at hcount
  exact hcount

end

/-! ### An index without rows -/

section

variable {S : Type} {floats : FloatBytes S} {idx : InvertedIndex S} {data : List UInt8}
  {pad padding' : ℕ → BitVec 32}

/-- The index has no rows, and so nothing else either. -/
structure NoRows (idx : InvertedIndex S) : Prop where
  nRows : idx.nRows = 0
  nrInnerDims : idx.nrInnerDims = 0
  dimMap : idx.dimMap = []
  idsSpans : idx.idsSpans = []
  valsSpans : idx.valsSpans = []
  rowSumsSpans : idx.bm25Params.rowSumsSpans = []
  maxScoreSpans : idx.maxScoreSpans = []

/-- The section table of an index without rows. -/
def emptyTable (pad : ℕ → BitVec 32) (metricType : SparseMetricType) :
    List InvertedIndexSectionHeader :=
  if metricType = .bm25 then
    [⟨0, pad 0, 132, 12⟩, ⟨2, pad 1, 144, 0⟩, ⟨3, pad 2, 144, 0⟩,
      ⟨5, pad 3, 144, 0⟩]
  else [⟨0, pad 0, 108, 12⟩, ⟨2, pad 1, 120, 0⟩, ⟨5, pad 2, 120, 0⟩]

lemma length_emptyTable (pad : ℕ → BitVec 32) (h : idx.NoRows) :
    (emptyTable pad idx.metricType).length = idx.nrSections := by
  unfold emptyTable nrSections
  rw [h.maxScoreSpans]
  cases idx.metricType <;> rfl

lemma emptyTable_inj (h : idx.NoRows) :
    emptyTable pad idx.metricType = emptyTable padding' idx.metricType ↔
      ∀ i < idx.nrSections, pad i = padding' i := by
  unfold emptyTable nrSections
  rw [h.maxScoreSpans]
  cases idx.metricType <;> simp [← mem_range, range_succ]

/-- The bytes of an index without rows. -/
def emptyBytes (pad : ℕ → BitVec 32) (idx : InvertedIndex S) : List UInt8 :=
  idx.fileHeader ++ uint32.encode idx.nrSections ++
    sectionHeaderBytes.bytes (emptyTable pad idx.metricType) ++
    (uint32.encode 0 ++ uint64.bytes [0])

lemma serialize_of_noRows (floats : FloatBytes S) (pad : ℕ → BitVec 32) (h : idx.NoRows) :
    serialize floats idx pad = some (emptyBytes pad idx) := by
  have hempty : ∀ {α : Type} (v : List α), readRange v 0 0 = some [] := fun v => if_pos le_rfl
  have hone : tableT 1 = 1 := rfl
  have hoffsets : rowOffsets ([] : List (List ℕ)) = [0] := rfl
  unfold serialize postingListsSection invertedIndexOffsets dimMapReverse rowSumsSection
    maxScoresSection buildStatsSection emptyBytes nrSections sectionSizes emptyTable
  cases idx.metricType <;>
    simp [hempty, hone, hoffsets, h.nRows, h.nrInnerDims, h.dimMap, h.maxScoreSpans,
      sectionHeaders, InvertedIndexSectionType.code, indexFileV1HeaderSize, sectionHeaderBytes]

lemma keeps_sectionHeader (pad : BitVec 32) (htype : type < 256 ^ 4)
    (hoffset : offset < 256 ^ 8) (hsize : n < 256 ^ 8) :
    sectionHeaderBytes.Keeps ⟨type, pad, offset, n⟩ := by
  have hpadding : pad.toNat < 256 ^ 4 := pad.isLt
  have hnone : ∀ a k, (leBytes 4 a).drop (k + 4) = [] := fun a k => drop_eq_nil_of_le (by simp)
  simp [Keeps, sectionHeaderBytes, drop_append, leValue_leBytes htype,
    leValue_leBytes hoffset, leValue_leBytes hsize, leValue_leBytes hpadding, hnone _ 4,
    hnone _ 8, hnone _ 12, take_of_length_le]

/-- Every header of the table is read back as it was written, padding included; the posting lists
stand right after the table, and only a BM25 index has row sums. -/
lemma mem_emptyTable (pad : ℕ → BitVec 32) (metricType : SparseMetricType) :
    ∀ header ∈ emptyTable pad metricType, sectionHeaderBytes.Keeps header ∧
      (header.type = 0 → header.offset = 36 + 24 * (emptyTable pad metricType).length) ∧
      (header.type = 3 → metricType = .bm25) := by
  unfold emptyTable
  split_ifs with hmetric <;>
    simp [keeps_sectionHeader, hmetric]

def Readable (idx : InvertedIndex S) (data : List UInt8) (header : InvertedIndexSectionHeader) :
    Prop :=
  (header.type = 0 → HoldsAt data header.offset (uint32.encode 0 ++ uint64.bytes [0])) ∧
    (header.type = 3 → idx.metricType = .bm25)

lemma read_uint32 {reader : MemoryIOReader} (old : ℕ)
    (h : HoldsAt reader.data reader.rp (uint32.encode a)) :
    reader.read uint32 old = (a % 2 ^ 32, { reader with rp := reader.rp + 4 }) := by
  have hmod : uint32.encode (a % 2 ^ 32) = uint32.encode a := encode_uint_mod 4 a
  rw [← hmod] at h
  exact MemoryIOReader.read_of_holdsAt old h (keeps_uint (Nat.mod_lt a (by decide))) (by decide)

lemma readSection_of_noRows {header : InvertedIndexSectionHeader} (h : idx.NoRows)
    (hread : idx.Readable data header) :
    readSection floats idx data header = some (.success, idx) := by
  obtain ⟨hlists, hmetric⟩ := hread
  cases idx
  obtain ⟨hrows, hdims, hmap, hids, hvals, hsums, hscores⟩ := h
  subst hrows hdims hmap hids hvals hscores
  unfold readSection
  dsimp only
  split_ifs with htype htype htype hbm25 htype
  · have hencoding := (hlists htype).left
    have hoffsets := (hlists htype).right
    have harray : uint64.arrayAt data (header.offset + 4) 1 = some [0] :=
      arrayAt_of_holdsAt hoffsets fun a ha => by
        obtain rfl := mem_singleton.mp ha
        exact keeps_uint (by decide)
    unfold readPostingLists
    rw [read_uint32 0 hencoding]
    show (uint64.arrayAt data (header.offset + 4) 1).bind _ = _
    rw [harray]
    rfl
  · rfl
  · show some _ = _
    rw [← hsums]
  · exact absurd (hmetric htype) hbm25
  · rfl
  · rfl

lemma sectionsHandler_of_noRows
    (h : idx.NoRows) (hkeeps : ∀ header ∈ table, sectionHeaderBytes.Keeps header)
    (hread : ∀ header ∈ table, idx.Readable data header)
    (htable : HoldsAt data pos (sectionHeaderBytes.bytes table)) :
    sectionsHandler floats data idx pos table.length = some (.success, idx) := by
  induction table generalizing pos with
  | nil => rfl
  | cons header table ih =>
    obtain ⟨hkeep, hkeeps⟩ := forall_mem_cons.mp hkeeps
    obtain ⟨hreadable, hread⟩ := forall_mem_cons.mp hread
    have hrest := htable.right
    rw [length_cons, sectionsHandler, valueAt_of_holdsAt htable.left hkeep]
    simp only [some_bind, readSection_of_noRows h hreadable]
    exact ih hkeeps hread hrest

lemma readLowerHalf_eq {reader : MemoryIOReader}
    (h : HoldsAt reader.data reader.rp (uint32.encode a)) :
    readLowerHalf reader 0 = (a % 2 ^ 32, { reader with rp := reader.rp + 4 }) := by
  unfold readLowerHalf
  rw [read_uint32 _ h]
  simp

section

variable {fresh : InvertedIndex S} (h : idx.NoRows) (hfresh : fresh.NoRows)
  (hdim : fresh.maxDim = 0)

include h hfresh hdim

lemma fileHeaderHandler_of_noRows (hheader : HoldsAt data 0 idx.fileHeader) :
    fresh.fileHeaderHandler ⟨data, 0⟩ =
      (.success, { fresh with maxDim := idx.maxDim % 2 ^ 32 }, ⟨data, 32⟩) := by
  have hfits := hheader.length_le
  rw [length_fileHeader, length_drop] at hfits
  unfold fileHeader at hheader
  rw [h.nRows, h.nrInnerDims] at hheader
  have hversion : HoldsAt data 0 (uint32.encode 1) := hheader.left.left.left.left
  have hnRows : HoldsAt data 4 (uint32.encode 0) := hheader.left.left.left.right
  have hmaxDim := hheader.left.left.right
  have hnrInnerDims : HoldsAt data 12 (uint32.encode 0) := hheader.left.right
  have hlow : readLowerHalf ⟨data, 4⟩ 0 = (0 % 2 ^ 32, ⟨data, 4 + 4⟩) := readLowerHalf_eq hnRows
  have hadvance : MemoryIOReader.advance ⟨data, 16⟩ indexFileV1HeaderReservedSize = ⟨data, 32⟩ := by
    unfold MemoryIOReader.advance indexFileV1HeaderReservedSize
    rw [min_eq_left (by omega)]
  cases fresh
  obtain ⟨hrows, hdims, -⟩ := hfresh
  subst hrows hdims hdim
  unfold fileHeaderHandler
  rw [read_uint32 0 hversion]
  dsimp only
  rw [if_neg (by decide), hlow]
  rw [readLowerHalf_eq hmaxDim]
  rw [read_uint32 _ hnrInnerDims]
  rw [hadvance, Nat.zero_mod]

lemma deserialize_of_noRows (hmetric : fresh.metricType = idx.metricType)
    (hall : HoldsAt data 0 (idx.emptyBytes pad)) :
    deserialize floats fresh data =
      some (.success, { fresh with maxDim := idx.maxDim % 2 ^ 32 }) := by
  have hcount : HoldsAt data 32 (uint32.encode idx.nrSections) := by
    have hright := hall.left.left.right
    rwa [length_fileHeader] at hright
  have htable : HoldsAt data 36
      (sectionHeaderBytes.bytes (emptyTable pad idx.metricType)) := by
    have hright := hall.left.right
    rwa [length_append, length_fileHeader, length_encode] at hright
  have hlists : HoldsAt data (36 + 24 * (emptyTable pad idx.metricType).length)
      (uint32.encode 0 ++ uint64.bytes [0]) := by
    have hright := hall.right
    rwa [length_append, length_append, length_fileHeader, length_encode,
      length_bytes, zero_add] at hright
  have hloaded : NoRows { fresh with maxDim := idx.maxDim % 2 ^ 32 } := { hfresh with }
  unfold deserialize
  rw [fileHeaderHandler_of_noRows h hfresh hdim hall.left.left.left]
  dsimp only
  rw [read_uint32 0 hcount, ← length_emptyTable pad h]
  have hn : (emptyTable pad idx.metricType).length % 2 ^ 32 =
      (emptyTable pad idx.metricType).length := by
    cases idx.metricType <;> rfl
  rw [hn]
  refine sectionsHandler_of_noRows hloaded
    (fun header hheader => (mem_emptyTable pad idx.metricType header hheader).1)
    (fun header hheader => ?_) htable
  obtain ⟨-, hoffset, hsums⟩ := mem_emptyTable pad idx.metricType header hheader
  exact ⟨fun htype => (hoffset htype).symm ▸ hlists, fun htype => hmetric.trans (hsums htype)⟩

end

/-- Two files of one index without rows differ in the padding only. -/
lemma emptyBytes_inj (h : idx.NoRows) :
    idx.emptyBytes pad = idx.emptyBytes padding' ↔
      ∀ i < idx.nrSections, pad i = padding' i := by
  have hread : ∀ p, sectionHeaderBytes.arrayAt
      (sectionHeaderBytes.bytes (emptyTable p idx.metricType)) 0 idx.nrSections =
        some (emptyTable p idx.metricType) := fun p => by
    rw [← length_emptyTable p h]
    exact arrayAt_of_holdsAt prefix_rfl fun header hheader => (mem_emptyTable p _ header hheader).1
  rw [← emptyTable_inj h]
  refine ⟨fun heq => some.inj ?_, fun heq => by unfold emptyBytes; rw [heq]⟩
  rw [← hread pad, ← hread padding', append_cancel_left (append_cancel_right heq)]

lemma reproduces_iff_of_noRows (h : idx.NoRows) (hfresh : fresh.NoRows)
    (hdim : fresh.maxDim = 0) (hmetric : fresh.metricType = idx.metricType) :
    Reproduces floats pad padding' fresh idx ↔
      ∀ i < idx.nrSections, pad i = padding' i := by
  have hloaded : NoRows { fresh with maxDim := idx.maxDim % 2 ^ 32 } := { hfresh with }
  have hheader : fileHeader { fresh with maxDim := idx.maxDim % 2 ^ 32 } = idx.fileHeader := by
    unfold fileHeader
    rw [show uint32.encode (idx.maxDim % 2 ^ 32) = uint32.encode idx.maxDim from
      encode_uint_mod 4 idx.maxDim, h.nRows, h.nrInnerDims, hfresh.nRows, hfresh.nrInnerDims]
  have hagain : emptyBytes padding' { fresh with maxDim := idx.maxDim % 2 ^ 32 } =
      idx.emptyBytes padding' := by
    unfold emptyBytes nrSections
    rw [hheader, hmetric, hfresh.maxScoreSpans, h.maxScoreSpans]
  have hload : deserialize floats fresh (idx.emptyBytes pad) =
      some (.success, { fresh with maxDim := idx.maxDim % 2 ^ 32 }) :=
    deserialize_of_noRows h hfresh hdim hmetric prefix_rfl
  rw [← emptyBytes_inj h, Reproduces]
  simp only [serialize_of_noRows floats pad h, some.injEq]
  constructor
  · rintro ⟨_, idx', rfl, hsecond, hwritten⟩
    obtain rfl := (Prod.mk.inj (some.inj (hload.symm.trans hsecond))).2
    rw [serialize_of_noRows floats padding' hloaded, hagain] at hwritten
    exact (some.inj hwritten).symm
  · intro heq
    refine ⟨_, _, rfl, hload, ?_⟩
    rw [serialize_of_noRows floats padding' hloaded, hagain, heq]

end

/-! ### Indexes that rows have been added to -/

section

variable {S : Type} [Cpp.FloatOps S]

lemma create_noRows (mmapped : Bool) (metricType : SparseMetricType) (algo : InvertedIndexAlgo)
    (k1 b avgdl : S) : (create mmapped metricType algo k1 b avgdl).NoRows :=
  ⟨rfl, rfl, rfl, rfl, rfl, rfl, rfl⟩

/-- **Writing what was read.**  The index of any `Add`s, read back from its file, is written as the
same file if and only if it has no rows and the padding bytes of its section headers have the same
contents in the memory of both writes. -/
theorem reproduces_iff (floats : FloatBytes S) (metricType : SparseMetricType)
    (algo : InvertedIndexAlgo) (k1 b avgdl : S) (batches : List (List (SparseRow S) × ℤ))
    (mmapped : Bool) (k1' b' avgdl' : S) (pad padding' : ℕ → BitVec 32) :
    ∃ idx, (create false metricType algo k1 b avgdl).addAll batches = .ok idx ∧
      (Reproduces floats pad padding' (create mmapped metricType algo k1' b' avgdl') idx ↔
        allRows batches = [] ∧ ∀ i < idx.nrSections, pad i = padding' i) := by
  obtain ⟨maxDim, hrun⟩ := addAll_create metricType algo k1 b avgdl batches
  refine ⟨_, hrun, ?_⟩
  by_cases hnone : allRows batches = []
  · have hempty : ((create false metricType algo k1 b avgdl).ofRows []
        (seenDims ([] : List (SparseRow S))) maxDim).NoRows := by
      cases metricType <;> cases algo <;> exact ⟨rfl, rfl, rfl, rfl, rfl, rfl, rfl⟩
    rw [hnone, and_iff_right rfl]
    exact reproduces_iff_of_noRows hempty (create_noRows ..) rfl rfl
  · refine iff_of_false (fun h => hnone ?_) (fun h => hnone h.1)
    exact length_eq_zero_iff.mp (nRows_eq_zero_of_reproduces rfl rfl h)

end

/-! ### One row -/

def floatBytes : FloatBytes ℚ where
  size := 4
  encode q := leBytes 4 (FloatCodec.ieee.toFloat q).toNat
  decode bs := FloatCodec.ieee.ofFloat (BitVec.ofNat 32 (leValue bs))
  length_encode _ := length_leBytes 4 _
  size_eq := rfl

/-- An index with one row is written, and it is read back, but what has been read cannot be
written. -/
theorem not_reproduces_oneRow :
    ∃ idx data idx', (create false .ip .taatNaive (1 : ℚ) 1 1).addAll [([[(0, 1)]], 1)] = .ok idx ∧
      serialize floatBytes idx (fun _ => 0) = some data ∧
      deserialize floatBytes (create false .ip .taatNaive (1 : ℚ) 1 1) data =
        some (.success, idx') ∧
      serialize floatBytes idx' (fun _ => 0) = none := by
  have hrun : (do
      let idx ← ((create false .ip .taatNaive (1 : ℚ) 1 1).addAll [([[(0, 1)]], 1)]).toOption
      let data ← serialize floatBytes idx (fun _ => 0)
      let (status, idx') ← deserialize floatBytes (create false .ip .taatNaive (1 : ℚ) 1 1) data
      return (status, (serialize floatBytes idx' fun _ => 0).isNone)) = some (.success, true) := by
    decide +kernel
  obtain ⟨idx, hidx, hrun⟩ := bind_eq_some_iff.mp hrun
  obtain ⟨data, hdata, hrun⟩ := bind_eq_some_iff.mp hrun
  obtain ⟨⟨status, idx'⟩, hload, hrun⟩ := bind_eq_some_iff.mp hrun
  obtain ⟨rfl, hnone⟩ := Prod.mk.inj (some.inj hrun)
  exact ⟨idx, data, idx', toOption_eq_some.mp hidx, hdata, hload, isNone_iff_eq_none.mp hnone⟩

end InvertedIndex

end Rvanns.Knowhere.Sparse
