import Rvanns.Knowhere.Equiv.MinHashLSHSearch

/-!
# The answers of a MinHash LSH index

A search without Jaccard re-ranking returns different ids of vectors that pass the selector and
share the hash of some band with the query, as many as there are or as were asked for.
-/

namespace Rvanns.Knowhere.MinHash

open Cpp List

section Search

variable {A : BloomArith} {hash : List UInt8 → UInt64} {S : StdSort KVPair} {p : BuildParams}
  {vecs : VecData} {index : MinHashLSH}

lemma fileBlockSize_lt_of_dataSize (hdim : p.dataSize < 2 ^ 29) :
    p.fileBlockSize / 16 < 2 ^ 31 := by
  have : p.fileBlockSize < 2 ^ 33 := fileBlockSize_lt (by omega)
  omega

lemma mem_sortedRow : e ∈ sortedRow hash p.lshParams S vecs.byte vecs.npts b ↔
      ∃ id < vecs.npts, e = ⟨getHashKey hash p.lshParams vecs.byte id b, id⟩ := by
  rw [sortedRow_perm.mem_iff, bandRow]
  simp only [mem_map, mem_range]
  exact exists_congr fun id => and_congr_right fun _ => eq_comm

variable (h : Represents A hash S p vecs index)

include h in
lemma Represents.searchable
    (hn : vecs.npts < 2 ^ 32) (hdim : p.dataSize < 2 ^ 29) (hb : b < p.lshParams.band) :
    ∃ band, index.bandIndex[b]? = some band ∧ SearchableBand band p.fileBlockSize vecs.npts
        (sortedRow hash p.lshParams S vecs.byte vecs.npts b) := by
  have hmin := p.blockSize_ge
  have hge := p.blockSize_le_fileBlockSize
  have hlen := h.bands.length_eq
  rw [length_range] at hlen
  have hrep := (List.forall₂_iff_get.mp h.bands).2 b (by simpa using hb) (by omega)
  simp only [get_eq_getElem, getElem_range] at hrep
  refine ⟨_, getElem?_eq_getElem (by omega), hrep, ?_, ?_, ?_, ?_, ?_, ?_⟩
  · exact length_sortedRow
  · exact S.sorted keyLt_strictWeak _
  · intro e he
    obtain ⟨id, hid, rfl⟩ := mem_sortedRow.mp he
    dsimp only
    omega
  · exact Nat.div_pos (by omega) (by decide)
  · exact fileBlockSize_lt_of_dataSize hdim
  · -- there are at least 256 entries in a block
    unfold blocksNum
    rw [Nat.div_lt_iff_lt_mul (by omega)]
    omega

include h in
lemma getHashKey_lshParams (query : ℕ → UInt8) (b : ℕ) :
    getHashKey hash index.lshParams query 0 b = getHashKey hash p.lshParams query 0 b := by
  have hband := h.band_eq
  have hr := h.r_eq
  have helement := h.elementSize_eq
  simp only [MinHashLSH.lshParams, hband, hr, helement]
  rfl

variable (hash S p vecs) in
def candidateIds (query : ℕ → UInt8) (selector : Option (ℤ → Bool)) (bands : List ℕ) : List ℤ :=
  bands.flatMap fun b => hitIds (getHashKey hash p.lshParams query 0 b) selector
    (sortedRow hash p.lshParams S vecs.byte vecs.npts b)

include h in
lemma Represents.searchBands
    (hn : vecs.npts < 2 ^ 32) (hdim : p.dataSize < 2 ^ 29) (query : ℕ → UInt8)
    (selector : Option (ℤ → Bool)) {bands : List ℕ}
      (hbands : ∀ b ∈ bands, b < p.lshParams.band) (res : ResultHandler) :
    index.searchBands hash A query selector bands res =
      some (pushAll res (candidateIds hash S p vecs query selector bands)) := by
  induction bands generalizing res with
  | nil => rfl
  | cons b bands ih =>
    have hb := hbands b mem_cons_self
    obtain ⟨band, hband, hsearch⟩ := h.searchable hn hdim hb
    obtain ⟨bloom, hbloom⟩ : ∃ bloom, index.bloom[b % index.bloom.length]? = some bloom :=
      ⟨_, getElem?_eq_getElem (Nat.mod_lt b h.bloom_pos)⟩
    set key := getHashKey hash p.lshParams query 0 b with hkey
    have hstep : (if bloom.contains A key then band.search key selector res else some res) =
        some (pushAll res (hitIds key selector
          (sortedRow hash p.lshParams S vecs.byte vecs.npts b))) := by
      split_ifs with hc
      · exact hsearch.search res
      · have hnone : ((sortedRow hash p.lshParams S vecs.byte vecs.npts b).filter fun e =>
            key == e.key) = [] := by
          refine filter_eq_nil_iff.mpr fun e he heq => hc ?_
          obtain ⟨bloom', hbloom', hcontains⟩ := h.bloom b hb e he
          obtain rfl : bloom' = bloom := Option.some.inj (hbloom'.symm.trans hbloom)
          rw [beq_iff_eq.mp heq]
          exact hcontains
        rw [hitIds, hnone]
        rfl
    unfold MinHashLSH.searchBands
    simp only [getHashKey_lshParams h, hband, hbloom, ← hkey, hstep, some_bind]
    rw [candidateIds, flatMap_cons, pushAll_append]
    split_ifs with hfull
    · rw [pushAll_of_full hfull]
    · exact ih (fun c hc => hbands c (mem_cons_of_mem b hc)) _

def isHit (hash : List UInt8 → UInt64) (p : BuildParams) (vecs : VecData) (query : ℕ → UInt8)
    (selector : Option (ℤ → Bool)) (id : ℕ) : Bool :=
  isMember selector id && (range p.lshParams.band).any fun b =>
    getHashKey hash p.lshParams query 0 b == getHashKey hash p.lshParams vecs.byte id b

lemma mem_candidateIds :
    v ∈ candidateIds hash S p vecs query selector (range p.lshParams.band) ↔
      ∃ id < vecs.npts, v = id ∧ isHit hash p vecs query selector id = true := by
  simp only [candidateIds, hitIds, selectedIds, mem_flatMap, mem_range, mem_filter,
    mem_map, mem_sortedRow, isHit, Bool.and_eq_true, any_eq_true, beq_iff_eq]
  constructor
  · rintro ⟨b, hb, ⟨_, ⟨⟨id, hid, rfl⟩, hkey⟩, rfl⟩, hmember⟩
    exact ⟨id, hid, rfl, hmember, b, hb, hkey⟩
  · rintro ⟨id, hid, rfl, hmember, b, hb, hkey⟩
    exact ⟨b, hb, ⟨_, ⟨⟨id, hid, rfl⟩, hkey⟩, rfl⟩, hmember⟩

include h in
lemma Represents.search (hn : vecs.npts < 2 ^ 32) (hdim : p.dataSize < 2 ^ 29)
    (jaccardByIds : (ℕ → UInt8) → List UInt8 → List ℤ → ℕ → List ℤ × List ℚ) (query : ℕ → UInt8)
    {sp : SearchParams} (hsp : sp.searchWithJaccard = false) :
    ∃ ids : List ℕ, index.search hash A jaccardByIds query sp =
        .ok (ids.map Nat.cast ++ replicate (sp.k - ids.length) (-1),
          replicate ids.length 1 ++ replicate (sp.k - ids.length) 0) ∧
      ids.Nodup ∧
      (∀ id ∈ ids, id < vecs.npts ∧ isHit hash p vecs query sp.idSelector id = true) ∧
      ids.length =
        min sp.k ((range vecs.npts).countP (isHit hash p vecs query sp.idSelector)) := by
  set cands := candidateIds hash S p vecs query sp.idSelector
    (range p.lshParams.band) with hcands
  have hmem : ∀ v, v ∈ cands ↔ ∃ id < vecs.npts, v = id ∧
      isHit hash p vecs query sp.idSelector id = true := fun v => mem_candidateIds
  have hnew : ResultHandler.new sp.k = handlerOf sp.k [] := by simp [ResultHandler.new, handlerOf]
  have hpush : pushAll (ResultHandler.new sp.k) cands =
      handlerOf sp.k (cands.foldl (pushId sp.k) []) := by
    rw [hnew]
    refine pushAll_handlerOf (Nat.zero_le _) fun v hv => ?_
    obtain ⟨id, -, rfl, -⟩ := (hmem v).mp hv
    omega
  obtain ⟨hnodup, hlen, -, hfrom, hall⟩ := foldl_pushId_spec sp.k cands nodup_nil (Nat.zero_le _)
  set kept := cands.foldl (pushId sp.k) [] with hkept
  have hkeptMem : ∀ v ∈ kept, v ∈ cands := fun v hv =>
    (hfrom v hv).resolve_left not_mem_nil
  -- the ids as the natural numbers they are
  obtain ⟨ids, hcast⟩ : ∃ ids : List ℕ, ids.map Nat.cast = kept := by
    refine CanLift.prf kept fun v hv => ?_
    obtain ⟨id, -, rfl, -⟩ := (hmem v).mp (hkeptMem v hv)
    exact Int.natCast_nonneg id
  have hidsLen : ids.length = kept.length := hcast ▸ (length_map _).symm
  have hidsMem : ∀ id ∈ ids, id < vecs.npts ∧
      isHit hash p vecs query sp.idSelector id = true := by
    intro id hid
    have hv : (id : ℤ) ∈ kept := by
      rw [← hcast]
      exact mem_map_of_mem hid
    obtain ⟨id', hlt, heq, hhit⟩ := (hmem id).mp (hkeptMem id hv)
    obtain rfl : id = id' := by omega
    exact ⟨hlt, hhit⟩
  have hidsNodup : ids.Nodup := by
    rw [← hcast] at hnodup
    exact hnodup.of_map _
  set hits := (range vecs.npts).filter (isHit hash p vecs query sp.idSelector) with hhits
  have hhitsNodup : hits.Nodup := nodup_range.filter _
  have hsub : ids ⊆ hits := fun id hid =>
    mem_filter.mpr ⟨mem_range.mpr (hidsMem id hid).1, (hidsMem id hid).2⟩
  have hle := (hidsNodup.subperm hsub).length_le
  refine ⟨ids, ?_, hidsNodup, hidsMem, ?_⟩
  · have hrange : ∀ b ∈ range p.lshParams.band, b < p.lshParams.band :=
      fun b hb => mem_range.mp hb
    have hbands := h.searchBands hn hdim query sp.idSelector hrange (ResultHandler.new sp.k)
    rw [hpush] at hbands
    unfold MinHashLSH.search
    simp only [hsp, Bool.false_and, Bool.false_eq_true, if_false, h.band_eq, hbands, orUndefined,
      bind, Except.bind, hcast, hidsLen]
    rfl
  · rw [countP_eq_length_filter, ← hhits]
    rcases hall with hfull | hevery
    · omega
    · have hback : hits ⊆ ids := by
        intro id hid
        obtain ⟨hlt, hhit⟩ := mem_filter.mp hid
        have := hevery ((hmem id).mpr ⟨id, mem_range.mp hlt, rfl, hhit⟩)
        rwa [← hcast, mem_map_of_injective Nat.cast_injective] at this
      have := (hhitsNodup.subperm hback).length_le
      omega

/-- **`Search` after `BuildAndSave` and `Load`.**  Without Jaccard re-ranking it returns different
ids that pass the selector and have the query's hash in some band, as many of them as there are or
as were asked for, and then `-1`.  Files have less than `2 ^ 63` bytes.  `Load` itself returns for
every dataset that is not empty, if the sizes of its Bloom filters are defined. -/
theorem search_buildAndSave {dataFile file : List UInt8} {vecs : VecData} (lp : LoadParams)
    (hvecs : loadVecData dataFile = .ok vecs)
    (hbuild : buildAndSave hash S p dataFile = .ok file) (hfile : file.length < 2 ^ 63) :
    (0 < vecs.npts → (A.rawSizes vecs.npts lp.falsePositiveProb).isSome →
      ∃ index, load A file lp = .ok index) ∧
    ∀ index, load A file lp = .ok index → ∀ jaccardByIds query (sp : SearchParams),
      sp.searchWithJaccard = false →
      ∃ ids : List ℕ, index.search hash A jaccardByIds query sp =
          .ok (ids.map Nat.cast ++ replicate (sp.k - ids.length) (-1),
            replicate ids.length 1 ++ replicate (sp.k - ids.length) 0) ∧
        ids.Nodup ∧
        (∀ id ∈ ids, id < vecs.npts ∧ isHit hash p vecs query sp.idSelector id = true) ∧
        ids.length =
          min sp.k ((range vecs.npts).countP (isHit hash p vecs query sp.idSelector)) := by
  refine ⟨fun hne hsizes => load_isOk lp hbuild hfile hvecs hne hsizes, ?_⟩
  intro index hload jaccardByIds query sp hsp
  obtain ⟨vecs', hvecs', hn, hdim, -, hrep⟩ := represents_of_load hbuild hfile hload
  obtain rfl : vecs' = vecs := ok_unique hvecs' hvecs
  exact hrep.search hn hdim jaccardByIds query hsp

/-- Two of three vectors have the query's hash, and there is room for three. -/
theorem search_three_vectors :
    ∃ (file : List UInt8) (index : MinHashLSH) (ids : List ℕ),
      buildAndSave byteHash StdSort.insertion (rawParams 1 (by decide))
        (vecFile 3 64 (replicate 8 1 ++ replicate 16 2)) = .ok file ∧
      load BloomFilter.hundredth file {} = .ok index ∧
      index.search byteHash BloomFilter.hundredth (fun _ _ _ _ => ([], [])) (fun _ => 2)
        { k := 3 } = .ok (ids.map Nat.cast ++ [-1], [1, 1, 0]) ∧
      ids.Nodup ∧ ids.length = 2 ∧ 0 ∉ ids := by
  obtain ⟨file, -, hbuild, hfile, -⟩ := exists_index 1 3 (by decide)
    (replicate 8 1 ++ replicate 16 2) (by decide)
    (by decide) (by decide) (by decide) (by unfold HeaderFits; decide) (by decide)
  have hspec := search_buildAndSave (A := BloomFilter.hundredth) {}
    (loadVecData_vecFile (by decide) (by decide) (by decide) (by decide)) hbuild hfile
  obtain ⟨index, hload⟩ := hspec.1 (by decide) rfl
  obtain ⟨ids, hsearch, hnodup, hhits, hlen⟩ :=
    hspec.2 index hload (fun _ _ _ _ => ([], [])) (fun _ => 2) { k := 3 } rfl
  have htwo : ids.length = 2 := hlen.trans (by decide +kernel)
  rw [htwo] at hsearch
  refine ⟨file, index, ids, hbuild, hload, hsearch, hnodup, htwo, fun hzero => ?_⟩
  exact absurd (hhits 0 hzero).2 (by decide +kernel)

end Search

end Rvanns.Knowhere.MinHash
