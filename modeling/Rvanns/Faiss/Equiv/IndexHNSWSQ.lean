import Rvanns.Faiss.Equiv.IndexHNSW
import Rvanns.Faiss.IndexIO

/-!
# Correctness of HNSW-SQ indexes

An index holds a list of rows: row `i` of the storage is the code of the `i`-th of them.
-/

namespace Rvanns.Faiss

open Cpp List Option

variable {V D R : Type} (B : Backend V D R)

namespace HnswSqIndex

/-- Row `i` of the storage is the code of the `i`-th of `rows`. -/
structure HoldsCodes (x : HnswSqIndex V D) (rows : List (List V)) : Prop where
  ntotal : x.info.ntotal = rows.length
  storage : ∃ st, (x.toIndexHNSW B).storage = some st ∧ st.Stores rows.length
  codeRow : ∀ (i : ℕ) row, rows[i]? = some row → x.codeRow B i = some (B.encode x.storage.sq row)

structure Holds (x : HnswSqIndex V D) (rows : List (List V)) :
    Prop extends x.HoldsCodes B rows where
  graph : GraphOk x.hnsw rows.length

/-- A cosine storage has a norm for every vector. -/
def HasNorms (x : HnswSqIndex V D) : Prop :=
  ∀ norms ∈ x.storage.inverseL2Norms, norms.length = x.info.ntotal

variable {B} {x x' : HnswSqIndex V D} {rows new : List (List V)}

lemma holds_nil (hn : x.info.ntotal = 0) (hst : x.storage.info.ntotal = 0)
    (hcodes : x.storage.codes = []) (hnorms : x.HasNorms) (hg : GraphOk x.hnsw 0) :
    x.Holds B [] where
  ntotal := hn
  graph := hg
  storage := by
    refine ⟨_, rfl, hst, ?_, .inl rfl, fun norms hmem => .inr ?_⟩
    · simp [hcodes]
    · exact (hnorms norms hmem).trans hn
  codeRow := by simp

lemma HoldsCodes.storage_ntotal (hx : x.HoldsCodes B rows) : x.storage.info.ntotal
    = rows.length := by
  obtain ⟨st, hst, hs⟩ := hx.storage
  cases hst
  exact hs.ntotal

lemma HoldsCodes.length_codes (hx : x.HoldsCodes B rows) :
    x.storage.codes.length = rows.length * x.storage.sq.codeSize B.hybridCodeSize := by
  obtain ⟨st, hst, hs⟩ := hx.storage
  cases hst
  exact hs.codes

lemma holds_new [Zero V] [One V] (d : ℕ) (qtype : QuantizerType) (m : ℕ) (metric : MetricType)
    (cosine : Bool) (ef : ℤ) :
    (HnswSqIndex.new B d qtype m metric cosine ef).Holds B []
      ∧ (HnswSqIndex.new B d qtype m metric cosine ef).HasNorms := by
  have hnorms : (HnswSqIndex.new B d qtype m metric cosine ef).HasNorms := by
    cases cosine <;> simp [HasNorms, HnswSqIndex.new, SqStorage.new]
  exact ⟨holds_nil rfl rfl rfl hnorms (B.newGraph_ok m), hnorms⟩

lemma Holds.train (hx : x.Holds B []) (hn : x.HasNorms) (h : x.train B rows = .ok x') :
    x'.Holds B [] ∧ x'.HasNorms := by
  obtain ⟨trained, -, ⟨⟩⟩ := bind_eq_ok.mp h
  have hcodes : x.storage.codes = [] := length_eq_zero_iff.mp (by simpa using hx.length_codes)
  exact ⟨holds_nil hx.ntotal hx.storage_ntotal hcodes hn hx.graph, hn⟩

lemma readRange_append_codes (hcodes : codes.length = n * c)
    {f : List V → List UInt8} (hf : ∀ row, (f row).length = c) (hrow : new[i]? = some row) :
    readRange (codes ++ new.flatMap f) ((n + i) * c) ((n + i) * c + c) = some (f row) := by
  have hget : (new.map f)[i]? = some (f row) := by simp [hrow]
  have hlen : ∀ r ∈ new.map f, r.length = c := by
    intro r hr
    obtain ⟨a, -, rfl⟩ := mem_map.mp hr
    exact hf a
  have hi : i ≤ (new.map f).length := by
    have hlt := lt_length hget
    omega
  have hoff : rowOffset (new.map f) i = i * c := rowOffset_of_length hlen hi
  have hend := rowOffset_add_le hget
  rw [hf] at hend
  rw [flatMap_def, readRange_of_le (by
      rw [length_append, add_mul]
      omega),
    Nat.add_sub_cancel_left, add_mul, ← hcodes, drop_length_add_append, ← hoff]
  have hcut := take_drop_rowOffset hget
  rw [hf] at hcut
  rw [hcut]

lemma HoldsCodes.add (hx : x.HoldsCodes B rows) (hn : x.HasNorms)
    (h : x.storage.add B new = .ok st) :
    ({ x with storage := st, info := { x.info with ntotal := st.info.ntotal } }
        : HnswSqIndex V D).HoldsCodes B (rows ++ new)
      ∧ ({ x with storage := st, info := { x.info with ntotal := st.info.ntotal } }
        : HnswSqIndex V D).HasNorms := by
  unfold SqStorage.add at h
  split_ifs at h
  cases h
  have hstn := hx.storage_ntotal
  have hlen := hx.length_codes
  have hnorms : ∀ norms ∈ x.storage.inverseL2Norms.map (· ++ new.map B.inverseNorm),
      norms.length = x.storage.info.ntotal + new.length := by
    intro norms hmem
    obtain ⟨old, hold, rfl⟩ := mem_map.mp hmem
    rw [length_append, length_map, hn old hold, hx.ntotal, hstn]
  refine ⟨⟨by simp [hstn], ⟨_, rfl, ?_⟩, fun i row hrow => ?_⟩, hnorms⟩
  · refine ⟨by simp [hstn], ?_, .inl rfl, fun norms hmem => .inr ?_⟩
    · simp [hlen, B.encode_length, add_mul]
    · simpa [hstn] using hnorms norms hmem
  · rcases lt_or_ge i rows.length with hi | hi
    · -- an old row
      rw [getElem?_append_left hi] at hrow
      have hend : i * x.storage.sq.codeSize B.hybridCodeSize
          + x.storage.sq.codeSize B.hybridCodeSize ≤ x.storage.codes.length := by
        rw [hlen, ← Nat.succ_mul]
        exact Nat.mul_le_mul_right _ hi
      exact (readRange_append hend _).trans (hx.codeRow i row hrow)
    · -- a new row
      rw [getElem?_append_right hi] at hrow
      have hread := readRange_append_codes hlen (B.encode_length x.storage.sq) hrow
      rwa [Nat.add_sub_cancel' hi] at hread

lemma Holds.add (hx : x.Holds B rows) (hn : x.HasNorms) (h : x.add B new = .ok x') :
    x'.Holds B (rows ++ new) ∧ x'.HasNorms := by
  unfold HnswSqIndex.add at h
  split_ifs at h with htrained hperm hempty
  · -- nothing to add: the graph stays
    obtain ⟨st, hst, ⟨⟩⟩ := bind_eq_ok.mp h
    obtain ⟨hcodes, hnorms⟩ := hx.toHoldsCodes.add hn hst
    obtain rfl := length_eq_zero_iff.mp hempty
    refine ⟨⟨hcodes, ?_⟩, hnorms⟩
    simpa using hx.graph
  · obtain ⟨st, hst, h⟩ := bind_eq_ok.mp h
    obtain ⟨g, hg, ⟨⟩⟩ := bind_eq_ok.mp h
    obtain ⟨hcodes, hnorms⟩ := hx.toHoldsCodes.add hn hst
    have hgraph := B.addVertices_ok _ _ g (by rw [hx.ntotal]; exact hx.graph) (by
      rw [hcodes.ntotal, hx.ntotal, length_append]
      omega) hg
    rw [hcodes.ntotal] at hgraph
    exact ⟨⟨⟨hcodes.ntotal, hcodes.storage, hcodes.codeRow⟩, hgraph⟩, hnorms⟩

section Layout

variable {S : StdSort ℕ} {F : Type}
  [LinearOrder F] [Zero F] [One F] [Add F] [Sub F] [Mul F] [Div F] [NatCast F]

lemma Holds.built (hx : x.Holds B rows) (hpos : 0 < rows.length) : (x.toIndexHNSW B).Built where
  graph := hx.graph.2 hpos
  nodes := hx.graph.1.trans hx.ntotal.symm
  storage := by
    obtain ⟨st, hst, hs⟩ := hx.storage
    exact ⟨st, hst, by rw [show (x.toIndexHNSW B).ntotal = rows.length from hx.ntotal]; exact hs⟩

/-- What a relabelling of the index does to its rows. -/
lemma Holds.withLayout (hx : x.Holds B rows) (hpos : 0 < rows.length)
    (hb : idx.Built) (hr : IsRelabelling (x.toIndexHNSW B) idx perm) :
    (x.withLayout idx).Holds B (perm.map (rows.getD · [])) := by
  have hn : (x.toIndexHNSW B).ntotal = rows.length := hx.ntotal
  have hp : IsNumbering perm rows.length := hn ▸ hr.numbering
  have hntotal : idx.ntotal = rows.length := hr.ntotal.trans hn
  have hlen : (perm.map (rows.getD · [])).length = rows.length := by rw [length_map, hp.length]
  obtain ⟨st, hst, hs⟩ := hb.storage
  rw [hntotal] at hs
  -- the code of a row, where the pass has put it
  have hcode : ∀ i < rows.length, st.codeRow i = x.codeRow B (perm.getD i 0) := by
    intro i hi
    have hpay := congrArg Payload.codeRow (hr.payload i (hn.symm ▸ hi))
    simpa [IndexHNSW.payload, hst, HnswSqIndex.codeRow] using hpay
  have hencode : ∀ i < rows.length, x.codeRow B (perm.getD i 0)
      = some (B.encode x.storage.sq (rows.getD (perm.getD i 0) [])) := by
    intro i hi
    apply hx.codeRow
    exact getElem?_eq_getD (hp.getD_lt hi) []
  have hsize : st.codeSize = x.storage.sq.codeSize B.hybridCodeSize := by
    obtain ⟨row, hrow, hlrow⟩ := hs.codeRow_eq hpos
    rw [hcode 0 hpos, hencode 0 hpos] at hrow
    rw [← hlrow, ← some.inj hrow, B.encode_length]
  have hcodes : (x.withLayout idx).storage.codes = st.codes := by simp [HnswSqIndex.withLayout, hst]
  have hnorms : (x.withLayout idx).storage.inverseL2Norms = st.inverseL2Norms := by
    simp [HnswSqIndex.withLayout, hst]
  refine ⟨⟨hx.ntotal.trans hlen.symm, ⟨_, rfl, ?_⟩, fun i row hrow => ?_⟩, ?_⟩
  · rw [hlen]
    refine ⟨hx.storage_ntotal, ?_, .inl rfl, ?_⟩
    · exact (congrArg List.length hcodes).trans (hsize ▸ hs.codes)
    · intro norms hmem
      exact hs.inverseNorms norms (hnorms ▸ hmem)
  · have hi : i < rows.length := by
      have hlt := lt_length hrow
      omega
    have hrow' : row = rows.getD (perm.getD i 0) [] := by
      rw [getElem?_map, hp.getElem?_eq hi] at hrow
      exact (some.inj hrow).symm
    have hread : (x.withLayout idx).codeRow B i = st.codeRow i := by
      show readRange (x.withLayout idx).storage.codes _ _ = _
      rw [hcodes]
      show readRange st.codes (i * x.storage.sq.codeSize B.hybridCodeSize)
        (i * x.storage.sq.codeSize B.hybridCodeSize + x.storage.sq.codeSize B.hybridCodeSize) = _
      rw [← hsize]
      rfl
    rw [hread, hcode i hi, hencode i hi, hrow']
    rfl
  · rw [hlen]
    exact ⟨hb.nodes.trans hntotal, fun _ => hb.graph⟩

lemma Holds.reorder (hx : x.Holds B rows) (h : x.reorder B S F method = .ok x') :
    IsNumbering x'.reorderPerm rows.length
      ∧ x'.Holds B (x'.reorderPerm.map (rows.getD · [])) ∧ x'.storage.sq = x.storage.sq := by
  have hn : (x.toIndexHNSW B).ntotal = rows.length := hx.ntotal
  unfold HnswSqIndex.reorder at h
  cases hrun : reorderGraphAfterBuild S F (x.toIndexHNSW B) 0 (some method) true with
  | error fault => simp [hrun, Except.map] at h
  | ok idx =>
    obtain rfl : x.withLayout idx = x' := by simpa [hrun, Except.map] using h
    obtain ⟨hperm, ⟨hempty, rfl⟩ | ⟨hne, m, hm⟩⟩ := reorderGraphAfterBuild_cases S F hrun
    · -- without nodes nothing happens
      have hrows : rows = [] := by
        by_contra hne
        have hpos := length_pos_iff.mpr hne
        have hentry := (hx.graph.2 hpos).entry_nonneg
        rcases hempty with h0 | h1
        · omega
        · rw [show (x.toIndexHNSW B).hnsw.entryPoint = x.hnsw.entryPoint from rfl] at h1
          omega
      subst hrows
      have hnil : (x.withLayout (x.toIndexHNSW B)).reorderPerm = [] := hperm
      rw [hnil]
      exact ⟨.refl _, hx, rfl⟩
    · have hpos : 0 < rows.length := by omega
      obtain ⟨idx', hidx', hb, hr⟩ := (hx.built hpos).applyLayout_spec S F m
      obtain rfl : idx' = idx := ok_unique hidx' hm
      exact ⟨hn ▸ hr.numbering, hx.withLayout hpos hb hr, rfl⟩

end Layout

end HnswSqIndex

namespace SqIndex

structure Holds (index : SqIndex V D R) (rows : List (List V)) : Prop where
  base : index.base.Holds B rows
  ntotal : index.info.ntotal = rows.length

variable {B} {index index' : SqIndex V D R} {rows new : List (List V)}

lemma Holds.train (hx : index.Holds B []) (hn : index.base.HasNorms)
    (h : index.train B rows = .ok index') : index'.Holds B [] ∧ index'.base.HasNorms := by
  cases index with
  | hnsw x =>
    obtain ⟨x', hx', ⟨⟩⟩ := bind_eq_ok.mp h
    obtain ⟨hbase, hnorms⟩ := hx.base.train hn hx'
    exact ⟨⟨hbase, hbase.ntotal⟩, hnorms⟩
  | refine info base refineIndex kFactor =>
    obtain ⟨base', hbase', h⟩ := bind_eq_ok.mp h
    obtain ⟨refineIndex', -, ⟨⟩⟩ := bind_eq_ok.mp h
    obtain ⟨hbase, hnorms⟩ := hx.base.train hn hbase'
    exact ⟨⟨hbase, hx.ntotal⟩, hnorms⟩

lemma Holds.add (hx : index.Holds B rows) (hn : index.base.HasNorms)
    (h : index.add B new = .ok index') : index'.Holds B (rows ++ new) ∧ index'.base.HasNorms := by
  cases index with
  | hnsw x =>
    obtain ⟨x', hx', ⟨⟩⟩ := bind_eq_ok.mp h
    obtain ⟨hbase, hnorms⟩ := hx.base.add hn hx'
    exact ⟨⟨hbase, hbase.ntotal⟩, hnorms⟩
  | refine info base refineIndex kFactor =>
    unfold SqIndex.add at h
    simp only at h
    split_ifs at h
    obtain ⟨base', hbase', h⟩ := bind_eq_ok.mp h
    obtain ⟨refineIndex', -, ⟨⟩⟩ := bind_eq_ok.mp h
    obtain ⟨hbase, hnorms⟩ := hx.base.add hn hbase'
    exact ⟨⟨hbase, hbase.ntotal⟩, hnorms⟩

end SqIndex

/-! ### Index files -/

section

variable {V D R : Type} {B : Backend V D R} {W : Formats V D R}

lemma readIndex_writeIndex (hw : writeIndex B W index = some bs) (rest : List UInt8) :
    readIndex B W (bs ++ rest)
      = readReply ((indexWire B W).refusal index.toFile) index.toFile.toIndex rest := by
  rw [readIndex, (indexWire B W).read_write hw]
  cases (indexWire B W).refusal index.toFile <;> rfl

lemma read_tag_writeIndex (hw : writeIndex B W index = some bs) :
    ∃ c : IndexClass, ∃ rest, (Wire.uint 4).read bs = .ok (c.tag, rest) := by
  obtain ⟨xs, ys, htag, rfl⟩ := Wire.write_choice hw
  exact ⟨_, ys, (Wire.uint 4).read_write htag ys⟩

lemma SqIndex.Holds.toIndex {index : SqIndex V D R}
    (hx : index.Holds B rows) : index.toFile.toIndex.Holds B rows := by
  cases index with
  | hnsw x => exact ⟨⟨⟨hx.base.ntotal, hx.base.storage, hx.base.codeRow⟩, hx.base.graph⟩, hx.ntotal⟩
  | refine info base refineIndex kFactor =>
    exact ⟨⟨⟨hx.base.ntotal, hx.base.storage, hx.base.codeRow⟩, hx.base.graph⟩, hx.ntotal⟩

lemma SqIndex.hasNorms_toIndex {index : SqIndex V D R} (hn : index.base.HasNorms) :
    index.toFile.toIndex.base.HasNorms := by
  cases index with
  | hnsw x => exact hn
  | refine info base refineIndex kFactor => exact hn

end

end Rvanns.Faiss
