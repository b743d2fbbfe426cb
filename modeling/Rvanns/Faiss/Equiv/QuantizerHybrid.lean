import Rvanns.Cpp.Patch
import Rvanns.Faiss.QuantizerHybrid

/-!
# Records of the hybrid quantiser

Encoding a vector is a sequence of writes into the record, one for the base byte of each component
and one for its difference if the component is in a pool.
-/

namespace Rvanns.Faiss.QuantizerHybrid

open Cpp Literals List Option

variable {K : Type} [Field K] [LinearOrder K] [FloorRing K]

structure WellFormed (q : QuantizerHybrid) : Prop where
  vmin : q.vmin.length = q.d
  vdiff : q.vdiff.length = q.d
  bits : q.pools.fp16.bits.length = q.d
  codeSize : q.codeSize = q.d + q.pools.fp16.count * 2 + q.pools.fp32.count * 4

lemma WellFormed.bits32 {q : QuantizerHybrid} (hq : q.WellFormed) :
    q.pools.fp32.bits.length = q.d :=
  q.pools.length_eq.symm.trans hq.bits

/-! ### The constructor -/

lemma wordBit_eq (words : List (BitVec 32)) (i : ℕ) :
    wordBit words i = words[i / 32]?.map fun w => w.getLsbD (i % 32) := by
  have hbit : ∀ w : BitVec 32, decide (w &&& 1#32 <<< (i % 32) ≠ 0) = w.getLsbD (i % 32) := by
    intro w
    have hlt : i % 32 < 32 := Nat.mod_lt i (by decide)
    rw [← BitVec.twoPow_eq, BitVec.and_twoPow]
    by_cases hw : w.getLsbD (i % 32) = true
    · rw [if_pos hw, hw]
      apply decide_eq_true
      intro hzero
      have hself := BitVec.getLsbD_twoPow (w := 32) (i := i % 32) (j := i % 32)
      rw [hzero] at hself
      simp [hlt] at hself
    · rw [if_neg hw]
      simpa using hw
  rw [wordBit]
  cases words[i / 32]? with
  | none => rfl
  | some w => exact congrArg some (hbit w)

lemma fillPools_eq_ok {d : ℕ} {words16 words32 : List (BitVec 32)} {p : ResidualPools}
    (h : fillPools d words16 words32 = .ok p) : p.fp16.bits.length = d
      ∧ (∀ i < d, wordBit words16 i = p.fp16.bits[i]?)
      ∧ ∀ i < d, wordBit words32 i = p.fp32.bits[i]? := by
  refine foldlM_range_eq_ok (P := fun n p => p.fp16.bits.length = n
    ∧ (∀ i < n, wordBit words16 i = p.fp16.bits[i]?)
    ∧ ∀ i < n, wordBit words32 i = p.fp32.bits[i]?) ?_ ⟨rfl, by simp, by simp⟩ h
  rintro n hn p p' ⟨hlen, h16, h32⟩ hturn
  obtain ⟨b16, hb16, hturn⟩ := bind_eq_ok.mp hturn
  obtain ⟨b32, hb32, hturn⟩ := bind_eq_ok.mp hturn
  rw [defined_eq_ok] at hb16 hb32
  split at hturn
  · cases hturn
  · cases hturn
    have hlen32 := p.length_eq.symm.trans hlen
    refine ⟨by simp [ResidualPools.push, RankedBits.push, hlen], fun i hi => ?_, fun i hi => ?_⟩
    · show _ = (p.fp16.bits ++ [b16])[i]?
      rcases Nat.lt_succ_iff_lt_or_eq.mp hi with hlt | rfl
      · rw [getElem?_append_left (by omega), h16 i hlt]
      · rw [← hlen, getElem?_concat_length, hlen, hb16]
    · show _ = (p.fp32.bits ++ [b32])[i]?
      rcases Nat.lt_succ_iff_lt_or_eq.mp hi with hlt | rfl
      · rw [getElem?_append_left (by omega), h32 i hlt]
      · rw [← hlen32, getElem?_concat_length, hlen32, hb32]

lemma exists_fillPools {d : ℕ} {words16 words32 : List (BitVec 32)}
    (h : ∀ i < d, ∃ b16 b32, wordBit words16 i = some b16 ∧ wordBit words32 i = some b32
      ∧ ¬ (b16 ∧ b32)) : ∃ p, fillPools d words16 words32 = .ok p := by
  induction d with
  | zero => exact ⟨_, rfl⟩
  | succ d ih =>
    obtain ⟨p, hp⟩ := ih fun i hi => h i (by omega)
    obtain ⟨b16, b32, h16, h32, hdisjoint⟩ := h d (by omega)
    refine ⟨p.push b16 b32 hdisjoint, ?_⟩
    rw [fillPools] at hp ⊢
    rw [range_succ, foldlM_append]
    refine bind_eq_ok.mpr ⟨p, hp, ?_⟩
    rw [foldlM_cons, h16, h32, defined_bind_some, defined_bind_some, dif_neg hdisjoint]
    rfl

lemma readWordCount_ofSize [IsStrictOrderedRing K] (F : FloatCodec K) (hn : n < 2 ^ 64) :
    readWordCount F (F.ofSize n) = .ok n ↔ 2 ^ (n.size - 24) ∣ n := by
  rw [← F.ofFloat_ofSize n hn, readWordCount]
  rw [F.isFinite_ofSize n hn]
  constructor
  · intro h
    split at h
    · cases h
    · rename_i hv
      rw [not_not] at hv
      obtain ⟨-, hnonneg, hfloor⟩ := hv
      split at h
      · cases h
      · have hnat := Except.ok.inj h
        have hint : ⌊F.ofFloat (F.ofSize n)⌋ = (n : ℤ) :=
          (Int.toNat_of_nonneg (Int.floor_nonneg.mpr hnonneg)).symm.trans (congrArg _ hnat)
        rw [← hfloor, hint, Int.cast_natCast]
  · intro h
    rw [h, Int.floor_natCast]
    rw [if_neg (by simp)]
    rw [if_neg (by omega)]
    rfl

def words16 (d : ℕ) (trained : List (BitVec 32)) : List (BitVec 32) :=
  (trained.drop (2 + 2 * d)).take ((d + 31) / 32)

def words32 (d : ℕ) (trained : List (BitVec 32)) : List (BitVec 32) :=
  (trained.drop (2 + 2 * d + (d + 31) / 32)).take ((d + 31) / 32)

structure Accepted (F : FloatCodec K) (d : ℕ) (trained : List (BitVec 32)) (q : QuantizerHybrid) :
    Prop where
  wellFormed : q.WellFormed
  d_eq : q.d = d
  count16 : ∃ v, trained[0]? = some v ∧ readWordCount F v = .ok ((d + 31) / 32)
  count32 : ∃ v, trained[1]? = some v ∧ readWordCount F v = .ok ((d + 31) / 32)
  length : 2 + 2 * d + (d + 31) / 32 + (d + 31) / 32 ≤ trained.length
  vmin : q.vmin = (trained.drop 2).take d
  vdiff : q.vdiff = (trained.drop (2 + d)).take d
  pools : fillPools d (words16 d trained) (words32 d trained) = .ok q.pools

lemma accepted_of_make {F : FloatCodec K} {d : ℕ} {trained : List (BitVec 32)}
    {q : QuantizerHybrid} (h : make F d trained = .ok q) : Accepted F d trained q := by
  rw [make] at h
  dsimp only at h
  split at h
  · cases h
  rename_i hheader
  obtain ⟨v0, hv0, h⟩ := bind_eq_ok.mp h
  obtain ⟨n0, hn0, h⟩ := bind_eq_ok.mp h
  obtain ⟨v1, hv1, h⟩ := bind_eq_ok.mp h
  obtain ⟨n1, hn1, h⟩ := bind_eq_ok.mp h
  rw [defined_eq_ok] at hv0 hv1
  split at h
  · cases h
  rename_i hwords
  obtain ⟨rfl, rfl⟩ := not_not.mp hwords
  split at h
  · cases h
  rename_i hpayload
  obtain ⟨p, hp, ⟨⟩⟩ := bind_eq_ok.mp h
  have hlen := (fillPools_eq_ok hp).1
  exact {
    wellFormed := {
      vmin := by
        dsimp only
        rw [length_take, length_drop]
        omega
      vdiff := by
        dsimp only
        rw [length_take, length_drop]
        omega
      bits := hlen
      codeSize := rfl }
    d_eq := rfl
    count16 := ⟨v0, hv0, hn0⟩
    count32 := ⟨v1, hv1, hn1⟩
    length := not_lt.mp hpayload
    vmin := rfl
    vdiff := rfl
    pools := hp }

lemma exists_make {F : FloatCodec K} {d : ℕ} {trained : List (BitVec 32)} {v0 v1 : BitVec 32}
    (h0 : trained[0]? = some v0) (hv0 : readWordCount F v0 = .ok ((d + 31) / 32))
    (h1 : trained[1]? = some v1) (hv1 : readWordCount F v1 = .ok ((d + 31) / 32))
    (hlen : 2 + 2 * d + (d + 31) / 32 + (d + 31) / 32 ≤ trained.length) {p : ResidualPools}
    (hp : fillPools d (words16 d trained) (words32 d trained) = .ok p) :
    ∃ q, make F d trained = .ok q := by
  rw [make]
  rw [if_neg (by omega), h0, h1, defined_bind_some, hv0, ok_bind, defined_bind_some, hv1, ok_bind,
    if_neg (not_not.mpr ⟨rfl, rfl⟩), if_neg (by omega)]
  exact ⟨_, bind_eq_ok.mpr ⟨p, hp, rfl⟩⟩

lemma make_eq_error {F : FloatCodec K} {d m : ℕ} {trained : List (BitVec 32)}
    {v0 v1 : BitVec 32} (h0 : trained[0]? = some v0) (hv0 : readWordCount F v0 = .ok m)
    (h1 : trained[1]? = some v1) (hv1 : readWordCount F v1 = .ok m)
    (hlen : 2 + 2 * d ≤ trained.length) (hm : m ≠ (d + 31) / 32) :
    make F d trained = .error (.thrown "MPMI bitmap dimensions do not match the quantizer") := by
  rw [make]
  rw [if_neg (by omega), h0, h1, defined_bind_some, hv0, ok_bind, defined_bind_some, hv1, ok_bind,
    if_pos (by tauto)]
  rfl

/-! ### What is stored for a component -/

section Stored

variable (F : FloatCodec K) (q : QuantizerHybrid)

def baseValue (i : ℕ) (c : BitVec 8) : K :=
  if degenerate F (q.vdiff.getD i 0) then F.ofFloat (q.vmin.getD i 0)
  else F.ofFloat (q.vmin.getD i 0) + (c.toNat : K) / 255 * F.ofFloat (q.vdiff.getD i 0)

def baseByte (i : ℕ) (v : K) : BitVec 8 :=
  if degenerate F (q.vdiff.getD i 0) then 0
  else quantize (F.ofFloat (q.vmin.getD i 0)) (F.ofFloat (q.vdiff.getD i 0)) v

def residual (i : ℕ) (v : K) : K := v - q.baseValue F i (q.baseByte F i v)

def storedResidual (i : ℕ) (v : K) : K :=
  if IsSet q.pools.fp16.bits i then F.ofHalf (F.toHalf (q.residual F i v))
  else if IsSet q.pools.fp32.bits i then F.ofFloat (F.toFloat (q.residual F i v))
  else 0

def slot16 (i : ℕ) : ℕ := q.d + q.pools.fp16.rank i % 2 ^ 32 * 2

def slot32 (i : ℕ) : ℕ := q.d + q.pools.fp16.count * 2 + q.pools.fp32.rank i % 2 ^ 32 * 4

def residualWrites (i : ℕ) (r : K) : List (Write (BitVec 8)) :=
  if IsSet q.pools.fp16.bits i then [⟨q.slot16 i, bytes16 (F.toHalf r)⟩]
  else if IsSet q.pools.fp32.bits i then [⟨q.slot32 i, bytes32 (F.toFloat r)⟩]
  else []

def writes (i : ℕ) (v : K) : List (Write (BitVec 8)) :=
  ⟨i, [q.baseByte F i v]⟩ :: q.residualWrites F i (q.residual F i v)

end Stored

/-! ### Reading -/

lemma load16_bytes16 (h : HoldsAt code o (bytes16 w)) : load16 code o = some w := by
  have h0 : code[o]? = some (w.extractLsb' 0 8) := holdsAt_iff.mp h 0 (by simp [bytes16])
  have h1 : code[o + 1]? = some (w.extractLsb' 8 8) := holdsAt_iff.mp h 1 (by simp [bytes16])
  rw [load16, h0, h1]
  show some (w.extractLsb' 8 8 ++ w.extractLsb' 0 8) = some w
  congr 1
  apply BitVec.eq_of_getLsbD_eq
  intro i hi
  simp only [BitVec.getLsbD_append, BitVec.getLsbD_extractLsb']
  interval_cases i <;> simp

lemma load32_bytes32 (h : HoldsAt code o (bytes32 w)) : load32 code o = some w := by
  have h0 : code[o]? = some (w.extractLsb' 0 8) := holdsAt_iff.mp h 0 (by simp [bytes32])
  have h1 : code[o + 1]? = some (w.extractLsb' 8 8) := holdsAt_iff.mp h 1 (by simp [bytes32])
  have h2 : code[o + 2]? = some (w.extractLsb' 16 8) := holdsAt_iff.mp h 2 (by simp [bytes32])
  have h3 : code[o + 3]? = some (w.extractLsb' 24 8) := holdsAt_iff.mp h 3 (by simp [bytes32])
  rw [load32, h0, h1, h2, h3]
  show some (w.extractLsb' 24 8 ++ (w.extractLsb' 16 8 ++ (w.extractLsb' 8 8 ++ w.extractLsb' 0 8)))
    = some w
  congr 1
  apply BitVec.eq_of_getLsbD_eq
  intro i hi
  simp only [BitVec.getLsbD_append, BitVec.getLsbD_extractLsb']
  interval_cases i <;> simp

section Read

variable {F : FloatCodec K} {q : QuantizerHybrid} (hq : q.WellFormed) {i : ℕ} (hi : i < q.d)
include hq hi

lemma offset16_eq : q.offset16 i = some (q.slot16 i) := by
  rw [offset16, q.pools.fp16.getElem?_ranks (hi.trans_eq hq.bits.symm)]
  rfl

lemma offset32_eq : q.offset32 i = some (q.slot32 i) := by
  rw [offset32, q.pools.fp32.getElem?_ranks (hi.trans_eq hq.bits32.symm)]
  rfl

lemma encodeBase_eq (v : K) : q.encodeBase F v i = some (q.baseByte F i v) := by
  rw [encodeBase, getElem?_eq_getD (hi.trans_eq hq.vdiff.symm) 0,
    getElem?_eq_getD (hi.trans_eq hq.vmin.symm) 0, baseByte]
  simp only [some_bind]
  split <;> rfl

omit [FloorRing K] in
lemma decodeBase_eq {code : Code} {c : BitVec 8} (hc : code[i]? = some c) :
    q.decodeBase F code i = some (q.baseValue F i c) := by
  rw [decodeBase, getElem?_eq_getD (hi.trans_eq hq.vdiff.symm) 0,
    getElem?_eq_getD (hi.trans_eq hq.vmin.symm) 0, hc, baseValue]
  simp only [some_bind]
  split <;> rfl

omit [LinearOrder K] [FloorRing K] in
lemma residualComponent_eq {code : Code} {r : K}
    (hholds : ∀ w ∈ q.residualWrites F i r, HoldsAt code w.pos w.vals) :
    q.residualComponent F code i = some (if IsSet q.pools.fp16.bits i then F.ofHalf (F.toHalf r)
        else if IsSet q.pools.fp32.bits i then F.ofFloat (F.toFloat r) else 0) := by
  have h16 := getElem?_eq_getD (hi.trans_eq hq.bits.symm) false
  have h32 := getElem?_eq_getD (hi.trans_eq hq.bits32.symm) false
  rw [residualComponent, offset16_eq hq hi, offset32_eq hq hi]
  rw [residualWrites] at hholds
  simp only [IsSet, h16, h32, some.injEq, some_bind] at hholds ⊢
  by_cases hb16 : q.pools.fp16.bits.getD i false = true
  · rw [if_pos hb16] at hholds ⊢
    rw [if_pos hb16, load16_bytes16 (hholds _ (mem_singleton_self _))]
    rfl
  · rw [if_neg hb16] at hholds ⊢
    rw [if_neg hb16]
    by_cases hb32 : q.pools.fp32.bits.getD i false = true
    · rw [if_pos hb32] at hholds ⊢
      rw [if_pos hb32, load32_bytes32 (hholds _ (mem_singleton_self _))]
      rfl
    · rw [if_neg hb32, if_neg hb32]
      rfl

end Read

/-! ### Slots -/

section Slots

variable {q : QuantizerHybrid}

lemma slot16_bounds (hset : IsSet q.pools.fp16.bits i) :
    q.d ≤ q.slot16 i ∧ q.slot16 i + 2 ≤ q.d + q.pools.fp16.count * 2 := by
  have hrank := q.pools.fp16.rank_lt_count hset
  rw [slot16]
  omega

lemma slot32_bounds (hq : q.WellFormed) (hset : IsSet q.pools.fp32.bits i) :
    q.d + q.pools.fp16.count * 2 ≤ q.slot32 i ∧ q.slot32 i + 4 ≤ q.codeSize := by
  have hrank := q.pools.fp32.rank_lt_count hset
  rw [slot32, hq.codeSize]
  omega

lemma slot16_apart (hcount : q.pools.fp16.count ≤ 2 ^ 32)
    (hi : IsSet q.pools.fp16.bits i) (hj : IsSet q.pools.fp16.bits j) (hij : i ≠ j) :
    q.slot16 i + 2 ≤ q.slot16 j ∨ q.slot16 j + 2 ≤ q.slot16 i := by
  have hne := mt (q.pools.fp16.rank_mod_injective hcount hi hj) hij
  rw [slot16, slot16]
  omega

lemma slot32_apart (hcount : q.pools.fp32.count ≤ 2 ^ 32)
    (hi : IsSet q.pools.fp32.bits i) (hj : IsSet q.pools.fp32.bits j) (hij : i ≠ j) :
    q.slot32 i + 4 ≤ q.slot32 j ∨ q.slot32 j + 4 ≤ q.slot32 i := by
  have hne := mt (q.pools.fp32.rank_mod_injective hcount hi hj) hij
  rw [slot32, slot32]
  omega

omit [LinearOrder K] [FloorRing K] in
lemma mem_residualWrites {F : FloatCodec K} {i : ℕ} {r : K} {w : Write (BitVec 8)}
    (hw : w ∈ q.residualWrites F i r) :
    (IsSet q.pools.fp16.bits i ∧ w.pos = q.slot16 i ∧ w.vals.length = 2)
      ∨ (IsSet q.pools.fp32.bits i ∧ w.pos = q.slot32 i ∧ w.vals.length = 4) := by
  rw [residualWrites] at hw
  split_ifs at hw with h16 h32
  · obtain rfl := mem_singleton.mp hw
    exact .inl ⟨h16, rfl, rfl⟩
  · obtain rfl := mem_singleton.mp hw
    exact .inr ⟨h32, rfl, rfl⟩
  · cases hw

end Slots

/-! ### Writing -/

section Encode

variable {F : FloatCodec K} {q : QuantizerHybrid} (hq : q.WellFormed)
include hq

lemma encodeComponent_eq {x : List K} (hi : i < q.d) (hx : x.length = q.d) (code : Code) :
    q.encodeComponent F x code i = writeAll (q.writes F i (x.getD i 0)) code := by
  have h16 := getElem?_eq_getD (hi.trans_eq hq.bits.symm) false
  have h32 := getElem?_eq_getD (hi.trans_eq hq.bits32.symm) false
  rw [encodeComponent, getElem?_eq_getD (hi.trans_eq hx.symm) 0, offset16_eq hq hi,
    offset32_eq hq hi, writes, writeAll_cons]
  simp only [bind_eq_bind, bind_some, encodeBase_eq hq hi, wr_eq_writeRange]
  apply Option.bind_congr
  intro code' hcode'
  have hbase : code'[i]? = some (q.baseByte F i (x.getD i 0)) := by
    have := holdsAt_of_writeRange hcode'
    rwa [holdsAt_singleton] at this
  rw [decodeBase_eq hq hi hbase, residualWrites]
  simp only [IsSet, h16, h32, some.injEq, bind_some]
  by_cases hb16 : q.pools.fp16.bits.getD i false = true
  · rw [if_pos hb16, if_pos hb16]
    rw [writeAll_singleton]
    rfl
  · rw [if_neg hb16, if_neg hb16]
    by_cases hb32 : q.pools.fp32.bits.getD i false = true
    · rw [if_pos hb32, if_pos hb32]
      rw [writeAll_singleton]
      rfl
    · rw [if_neg hb32, if_neg hb32]
      rfl

lemma writes_fit {i : ℕ} (hi : i < q.d) (v : K) :
    ∀ w ∈ q.writes F i v, w.pos + w.vals.length ≤ q.codeSize := by
  have hsize := hq.codeSize
  intro w hw
  rcases mem_cons.mp hw with rfl | hw
  · show i + 1 ≤ q.codeSize
    omega
  · rcases mem_residualWrites hw with ⟨hset, hpos, hlen⟩ | ⟨hset, hpos, hlen⟩
    · have hbounds := slot16_bounds hset
      omega
    · have hbounds := slot32_bounds hq hset
      omega

omit [LinearOrder K] [FloorRing K] in
lemma le_pos_of_mem_residualWrites {i : ℕ} {r : K} {w : Write (BitVec 8)}
    (hw : w ∈ q.residualWrites F i r) : q.d ≤ w.pos := by
  rcases mem_residualWrites hw with ⟨hset, hpos, -⟩ | ⟨hset, hpos, -⟩
  · have hbounds := slot16_bounds hset
    omega
  · have hbounds := slot32_bounds hq hset
    omega

variable (h16 : q.pools.fp16.count ≤ 2 ^ 32) (h32 : q.pools.fp32.count ≤ 2 ^ 32)

include h16 h32

omit [LinearOrder K] [FloorRing K] in
lemma residual_apart {i j : ℕ} (hij : i ≠ j) {r r' : K} {w w' : Write (BitVec 8)}
    (hw : w ∈ q.residualWrites F i r) (hw' : w' ∈ q.residualWrites F j r') : w.Apart w' := by
  rcases mem_residualWrites hw with ⟨hi, hpos, hlen⟩ | ⟨hi, hpos, hlen⟩ <;>
    rcases mem_residualWrites hw' with ⟨hj, hpos', hlen'⟩ | ⟨hj, hpos', hlen'⟩ <;>
    rw [Write.Apart, hpos, hpos', hlen, hlen']
  · exact slot16_apart h16 hi hj hij
  · exact .inl ((slot16_bounds hi).2.trans (slot32_bounds hq hj).1)
  · exact .inr ((slot16_bounds hj).2.trans (slot32_bounds hq hi).1)
  · exact slot32_apart h32 hi hj hij

lemma writes_apart (x : List K) :
    ((List.range q.d).flatMap fun i => q.writes F i (x.getD i 0)).Pairwise Write.Apart := by
  rw [pairwise_flatMap]
  constructor
  · intro i hi
    have hlt := mem_range.mp hi
    constructor
    · intro w hw
      exact .inl (hlt.trans_le (le_pos_of_mem_residualWrites hq hw))
    · rw [residualWrites]
      split
      · exact pairwise_singleton _ _
      · split
        · exact pairwise_singleton _ _
        · exact .nil
  · apply pairwise_lt_range.imp_of_mem
    intro i j hi hj hij w hw w' hw'
    have hi := mem_range.mp hi
    have hj := mem_range.mp hj
    rcases mem_cons.mp hw with rfl | hw <;> rcases mem_cons.mp hw' with rfl | hw'
    · exact .inl hij
    · exact .inl (hi.trans_le (le_pos_of_mem_residualWrites hq hw'))
    · exact .inr (hj.trans_le (le_pos_of_mem_residualWrites hq hw))
    · exact residual_apart hq h16 h32 hij.ne hw hw'

lemma returns_encodeVector (hx : x.length = q.d) (hcode : code.length = q.codeSize) :
    Returns (q.encodeVector F x code) fun code' => code'.length = q.codeSize
      ∧ ∀ i < q.d, ∀ w ∈ q.writes F i (x.getD i 0), HoldsAt code' w.pos w.vals := by
  have hloop : q.encodeVector F x code
      = writeAll ((List.range q.d).flatMap fun i => q.writes F i (x.getD i 0)) code :=
    foldlM_eq_writeAll (fun i hi code => encodeComponent_eq hq (mem_range.mp hi) hx code) code
  rw [hloop]
  refine (returns_writeAll (fun w hw => ?_) (writes_apart hq h16 h32 x)).mono fun code' h => ?_
  · obtain ⟨i, hi, hw⟩ := mem_flatMap.mp hw
    rw [hcode]
    exact writes_fit hq (mem_range.mp hi) _ w hw
  · refine ⟨h.1.trans hcode, fun i hi w hw => h.2 w (mem_flatMap.mpr ⟨i, ?_, hw⟩)⟩
    exact mem_range.mpr hi

end Encode

/-! ### Decoding an encoded vector -/

section Decode

variable {F : FloatCodec K} {q : QuantizerHybrid}

structure Faithful (F : FloatCodec K) (q : QuantizerHybrid) : Prop where
  /-- The three regions of the record follow each other, and the slots are in theirs. -/
  slots16 : ∀ i, IsSet q.pools.fp16.bits i → ∃ o, q.offset16 i = some o
    ∧ q.d ≤ o ∧ o + 2 ≤ q.d + q.pools.fp16.count * 2
  slots32 : ∀ i, IsSet q.pools.fp32.bits i → ∃ o, q.offset32 i = some o
    ∧ q.d + q.pools.fp16.count * 2 ≤ o ∧ o + 4 ≤ q.codeSize
  /-- No two components share a slot. -/
  own_slot16 : ∀ i j o, IsSet q.pools.fp16.bits i → IsSet q.pools.fp16.bits j →
    q.offset16 i = some o → q.offset16 j = some o → i = j
  own_slot32 : ∀ i j o, IsSet q.pools.fp32.bits i → IsSet q.pools.fp32.bits j →
    q.offset32 i = some o → q.offset32 j = some o → i = j
  /-- Encoding stays inside the record, and decoding finds the base and the stored residual. -/
  decode : ∀ (x : List K) (code : Code), x.length = q.d → code.length = q.codeSize →
    Returns (q.encodeVector F x code) fun code' => code'.length = q.codeSize
      ∧ ∀ i < q.d, ∃ c, code'[i]? = some c ∧ q.reconstructComponent F code' i
        = some (q.baseValue F i c + q.storedResidual F i (x.getD i 0))
  /-- Components in a pool that stores their residual without loss come back exactly. -/
  exact : ∀ (x : List K) (code : Code), x.length = q.d → code.length = q.codeSize →
    Returns (q.encodeVector F x code) fun code' => ∀ i,
      IsSet q.pools.fp16.bits i ∨ IsSet q.pools.fp32.bits i →
      q.storedResidual F i (x.getD i 0) = q.residual F i (x.getD i 0) →
        q.reconstructComponent F code' i = some (x.getD i 0)
  /-- The others come back within half a quantisation step. -/
  half_step : ∀ (x : List K) (code : Code), x.length = q.d → code.length = q.codeSize →
    Returns (q.encodeVector F x code) fun code' => ∀ i < q.d,
      ¬ (IsSet q.pools.fp16.bits i ∨ IsSet q.pools.fp32.bits i) → F.isFinite (q.vdiff.getD i 0) →
      F.ofFloat (q.vmin.getD i 0) ≤ x.getD i 0 →
      x.getD i 0 ≤ F.ofFloat (q.vmin.getD i 0) + F.ofFloat (q.vdiff.getD i 0) →
        ∃ y, q.reconstructComponent F code' i = some y
          ∧ |y - x.getD i 0| ≤ F.ofFloat (q.vdiff.getD i 0) / 255 / 2

lemma reconstructComponent_eq (hq : q.WellFormed) (hi : i < q.d)
    (hholds : ∀ w ∈ q.writes F i v, HoldsAt code w.pos w.vals) :
    code[i]? = some (q.baseByte F i v) ∧ q.reconstructComponent F code i
      = some (q.baseValue F i (q.baseByte F i v) + q.storedResidual F i v) := by
  obtain ⟨hbase, hres⟩ := forall_mem_cons.mp hholds
  rw [holdsAt_singleton] at hbase
  refine ⟨hbase, ?_⟩
  rw [reconstructComponent, decodeBase_eq hq hi hbase, residualComponent_eq hq hi hres]
  rfl

variable [IsStrictOrderedRing K]

lemma toNat_quantize {lo diff v : K} (hpos : 0 < diff) (hlow : lo ≤ v) (hhigh : v ≤ lo + diff) :
    (((quantize lo diff v).toNat : ℕ) : K) = (round ((v - lo) / diff * 255) : ℤ) := by
  have hn0 : 0 ≤ (v - lo) / diff := div_nonneg (by linarith) hpos.le
  have hn1 : (v - lo) / diff ≤ 1 := by
    rw [div_le_one hpos]
    linarith
  have hround := abs_le.mp (abs_sub_round ((v - lo) / diff * 255))
  have hlow' : (-1 : ℤ) < round ((v - lo) / diff * 255) := by
    have : ((-1 : ℤ) : K) < (round ((v - lo) / diff * 255) : ℤ) := by linarith
    exact_mod_cast this
  have hhigh' : round ((v - lo) / diff * 255) < (256 : ℤ) := by
    have : (round ((v - lo) / diff * 255) : K) < ((256 : ℤ) : K) := by linarith
    exact_mod_cast this
  dsimp only [quantize]
  rw [min_eq_right hn1, max_eq_right hn0, BitVec.toNat_ofNat, Nat.mod_eq_of_lt (by omega)]
  have hcast : ((round ((v - lo) / diff * 255)).toNat : ℤ) = round ((v - lo) / diff * 255) :=
    Int.toNat_of_nonneg (by omega)
  exact_mod_cast congrArg (Int.cast : ℤ → K) hcast

lemma abs_baseValue_sub_le {i : ℕ} {v : K} (hfinite : F.isFinite (q.vdiff.getD i 0))
    (hlow : F.ofFloat (q.vmin.getD i 0) ≤ v)
    (hhigh : v ≤ F.ofFloat (q.vmin.getD i 0) + F.ofFloat (q.vdiff.getD i 0)) :
    |q.baseValue F i (q.baseByte F i v) - v| ≤ F.ofFloat (q.vdiff.getD i 0) / 255 / 2 := by
  rw [baseValue, baseByte]
  generalize F.ofFloat (q.vmin.getD i 0) = lo at hlow hhigh ⊢
  by_cases hdeg : degenerate F (q.vdiff.getD i 0) = true
  · -- the range is a single point
    have hzero : F.ofFloat (q.vdiff.getD i 0) = 0 := by
      simp only [degenerate, hfinite, not_true_eq_false, or_false, decide_eq_true_eq,
        not_lt] at hdeg
      linarith
    rw [hzero]
    rw [hzero, add_zero] at hhigh
    rw [le_antisymm hhigh hlow]
    simp
  · rw [if_neg hdeg, if_neg hdeg]
    have hpos : 0 < F.ofFloat (q.vdiff.getD i 0) := by
      by_contra hneg
      exact hdeg (decide_eq_true (.inl hneg))
    generalize F.ofFloat (q.vdiff.getD i 0) = diff at hhigh hpos ⊢
    have hstep : lo + (round ((v - lo) / diff * 255) : ℤ) / 255 * diff - v
        = (round ((v - lo) / diff * 255) - (v - lo) / diff * 255) * (diff / 255) := by
      field_simp
      ring
    have hunit : 0 < diff / 255 := by positivity
    have hround : |(round ((v - lo) / diff * 255) : K) - (v - lo) / diff * 255| ≤ 1 / 2 := by
      rw [abs_sub_comm]
      exact abs_sub_round _
    calc |lo + ((quantize lo diff v).toNat : K) / 255 * diff - v|
        = |(round ((v - lo) / diff * 255) : K) - (v - lo) / diff * 255| * (diff / 255) := by
          rw [toNat_quantize hpos hlow hhigh, hstep, abs_mul, abs_of_pos hunit]
      _ ≤ 1 / 2 * (diff / 255) := mul_le_mul_of_nonneg_right hround hunit.le
      _ = diff / 255 / 2 := by ring

lemma faithful_of_count_le (hq : q.WellFormed) (h16 : q.pools.fp16.count ≤ 2 ^ 32)
    (h32 : q.pools.fp32.count ≤ 2 ^ 32) : Faithful F q where
  slots16 i hset :=
    ⟨_, offset16_eq hq ((q.pools.fp16.lt_length hset).trans_eq hq.bits), slot16_bounds hset⟩
  slots32 i hset :=
    ⟨_, offset32_eq hq ((q.pools.fp32.lt_length hset).trans_eq hq.bits32), slot32_bounds hq hset⟩
  own_slot16 i j o hi hj hoi hoj := by
    rw [offset16_eq hq ((q.pools.fp16.lt_length hi).trans_eq hq.bits), some.injEq] at hoi
    rw [offset16_eq hq ((q.pools.fp16.lt_length hj).trans_eq hq.bits), some.injEq] at hoj
    by_contra hij
    have := slot16_apart h16 hi hj hij
    omega
  own_slot32 i j o hi hj hoi hoj := by
    rw [offset32_eq hq ((q.pools.fp32.lt_length hi).trans_eq hq.bits32), some.injEq] at hoi
    rw [offset32_eq hq ((q.pools.fp32.lt_length hj).trans_eq hq.bits32), some.injEq] at hoj
    by_contra hij
    have := slot32_apart h32 hi hj hij
    omega
  decode x code hx hcode := by
    refine (returns_encodeVector hq h16 h32 hx hcode).mono fun code' h => ⟨h.1, fun i hi => ?_⟩
    exact ⟨_, reconstructComponent_eq hq hi (h.2 i hi)⟩
  exact x code hx hcode := by
    refine (returns_encodeVector hq h16 h32 hx hcode).mono fun code' h i hset hlossless => ?_
    have hi : i < q.d := by
      rcases hset with hset | hset
      · exact (q.pools.fp16.lt_length hset).trans_eq hq.bits
      · exact (q.pools.fp32.lt_length hset).trans_eq hq.bits32
    rw [(reconstructComponent_eq hq hi (h.2 i hi)).2, hlossless, residual]
    congr 1
    ring
  half_step x code hx hcode := by
    refine (returns_encodeVector hq h16 h32 hx hcode).mono
      fun code' h i hi hset hfinite hlow hhigh => ⟨_,
        (reconstructComponent_eq hq hi (h.2 i hi)).2, ?_⟩
    rw [not_or] at hset
    rw [storedResidual, if_neg hset.1, if_neg hset.2, add_zero]
    exact abs_baseValue_sub_le hfinite hlow hhigh

end Decode

end Rvanns.Faiss.QuantizerHybrid
