import Rvanns.Faiss.Equiv.QuantizerHybrid
import Rvanns.Faiss.QuantizerHybridRvv
import Rvanns.Simd.Equiv.DistancesRvv

/-!
# The tile decoder against the scalar one

A tile is decoded strip by strip, and so its components do not depend on the answers of the
hardware.
-/

namespace Rvanns.Faiss.QuantizerHybrid

open Cpp Literals Rvv List Vsetvl

variable {K : Type} [Field K]

/-! ### Values of a record -/

def halfAtPos (code : Code) (o : ℕ) : BitVec 16 := code.getD (o + 1) 0 ++ code.getD o 0

def wordAtPos (code : Code) (o : ℕ) : BitVec 32 :=
  code.getD (o + 3) 0 ++ (code.getD (o + 2) 0 ++ (code.getD (o + 1) 0 ++ code.getD o 0))

lemma load16_eq (h : o + 2 ≤ code.length) : load16 code o = some (halfAtPos code o) := by
  rw [load16, getElem?_eq_getD (show o < code.length by omega) 0,
    getElem?_eq_getD (show o + 1 < code.length by omega) 0]
  rfl

lemma load32_eq (h : o + 4 ≤ code.length) : load32 code o = some (wordAtPos code o) := by
  rw [load32, getElem?_eq_getD (show o < code.length by omega) 0, getElem?_eq_getD (show o + 1 <
    code.length by omega) 0, getElem?_eq_getD (show o + 2 < code.length by omega) 0,
    getElem?_eq_getD (show o + 3 < code.length by omega) 0]
  rfl

section Values

variable (F : FloatCodec K) (q : QuantizerHybrid) (code : Code)

def residualValue (slot i : ℕ) : K :=
  if IsSet q.pools.fp16.bits i then F.ofHalf (halfAtPos code slot)
  else if IsSet q.pools.fp32.bits i then F.ofFloat (wordAtPos code (q.slot32 i))
  else 0

def tileBase (i : ℕ) : K :=
  ((code.getD i 0).toNat : K) * (1 / 255) * F.ofFloat (q.vdiff.getD i 0)
    + F.ofFloat (q.vmin.getD i 0)

def tileSlot16 (i : ℕ) : ℕ := q.d + q.pools.fp16.rank i * 2

def tileValue (i : ℕ) : K := q.tileBase F code i + q.residualValue F code (q.tileSlot16 i) i

end Values

variable {F : FloatCodec K} {q : QuantizerHybrid} (hq : q.WellFormed) {code : Code}
  (hcode : code.length = q.codeSize) {start count : ℕ}

include hq hcode in
lemma residualComponent_eq_value (hi : i < q.d) :
    q.residualComponent F code i = some (q.residualValue F code (q.slot16 i) i) := by
  have hsize := hq.codeSize
  rw [residualComponent, residualValue, offset16_eq hq hi, offset32_eq hq hi]
  by_cases hb16 : IsSet q.pools.fp16.bits i
  · have hload : load16 code (q.slot16 i) = some (halfAtPos code (q.slot16 i)) := by
      have hbounds := slot16_bounds hb16
      exact load16_eq (by omega)
    rw [if_pos hb16, hb16]
    simp only [some_bind, if_true, hload]
    rfl
  · rw [if_neg hb16, getElem?_of_not_isSet (hi.trans_eq hq.bits.symm) hb16]
    simp only [some_bind, Bool.false_eq_true, if_false]
    by_cases hb32 : IsSet q.pools.fp32.bits i
    · have hload : load32 code (q.slot32 i) = some (wordAtPos code (q.slot32 i)) := by
        have hbounds := slot32_bounds hq hb32
        exact load32_eq (by omega)
      rw [if_pos hb32, hb32]
      simp only [hload]
      rfl
    · rw [if_neg hb32, getElem?_of_not_isSet (hi.trans_eq hq.bits32.symm) hb32]
      rfl

/-! ### Tiles -/

def half (F : FloatCodec K) (q : QuantizerHybrid) (code : Code) (i : ℕ) : K :=
  if IsSet q.pools.fp16.bits i then F.ofHalf (halfAtPos code (q.tileSlot16 i)) else 0

def word (F : FloatCodec K) (q : QuantizerHybrid) (code : Code) (i : ℕ) : K :=
  if IsSet q.pools.fp32.bits i then F.ofFloat (wordAtPos code (q.slot32 i)) else 0

lemma half_add_word (F : FloatCodec K) (q : QuantizerHybrid) (code : Code) (i : ℕ) :
    half F q code i + word F q code i = q.residualValue F code (q.tileSlot16 i) i := by
  rw [half, word, residualValue]
  by_cases h16 : IsSet q.pools.fp16.bits i
  · have h32 : ¬ IsSet q.pools.fp32.bits i := fun h32 => q.pools.disjoint i ⟨h16, h32⟩
    rw [if_pos h16, if_pos h16, if_neg h32, add_zero]
  · rw [if_neg h16, if_neg h16, zero_add]

section Tile

variable (htile : start + count ≤ q.d)
include hq hcode htile

lemma decodeStrips_eq (V : Vsetvl v) : (V.strips 0 count).foldlM (q.decodeStrip F code start) []
      = some ((range count).map fun k => q.tileBase F code (start + k)) := by
  have hsize := hq.codeSize
  apply V.foldlM_append_strips
  intro out s hs
  rw [decodeStrip, vle_eq_getD (by omega) 0, vle_eq_getD (by rw [hq.vmin]; omega) 0,
    vle_eq_getD (by rw [hq.vdiff]; omega) 0]
  simp only [some_bind, map_map]
  rw [vfmadd_map]
  congr 3
  funext k
  simp only [Function.comp, tileBase, add_assoc]

lemma addFp32Tile_eq (e : ℕ → K) :
    (range count).foldlM (q.addFp32 F code start) ((range count).map e)
      = some ((range count).map fun k => e k + word F q code (start + k)) := by
  refine foldlM_modifyAt (h := fun k a => a + word F q code (start + k)) ?_ e
  intro i hi out hout
  have hlt : start + i < q.d := by omega
  rw [addFp32, offset32_eq hq hlt]
  by_cases hset : IsSet q.pools.fp32.bits (start + i)
  · have hbounds := slot32_bounds hq hset
    rw [hset, word, if_pos hset]
    simp [load32_eq (hcode ▸ hbounds.2)]
  · rw [getElem?_of_not_isSet (hlt.trans_eq hq.bits32.symm) hset, word, if_neg hset]
    simp only [some_bind, add_zero, modifyAt, Bool.false_eq_true,
      if_false]
    rw [getElem?_eq_getElem (by omega), Option.map_some, set_getElem_self]
    rfl

lemma addResidualScalar_eq (e : ℕ → K) :
    (range count).foldlM (q.addResidual F code start) ((range count).map e)
      = some ((range count).map fun k =>
        e k + q.residualValue F code (q.slot16 (start + k)) (start + k)) := by
  refine foldlM_modifyAt (h := fun k a =>
    a + q.residualValue F code (q.slot16 (start + k)) (start + k)) ?_ e
  intro i hi out _
  rw [addResidual, residualComponent_eq_value hq hcode (by omega)]
  rfl

end Tile

/-! ### The 16-bit differences of a tile -/

structure RanksFit (q : QuantizerHybrid) (start count : ℕ) : Prop where
  le : start + count ≤ q.d
  pos : 0 < count
  rank_lt : q.pools.fp16.rank start < 2 ^ 32
  rank_end_lt : start + count < q.d → q.pools.fp16.rank (start + count) < 2 ^ 32

section Fp16

variable (hfit : RanksFit q start count)
include hq hfit

lemma tileRanks_eq : q.tileRanks start count
    = some (q.pools.fp16.rank start, q.pools.fp16.rank (start + count)) := by
  have hle := hfit.le
  have hpos := hfit.pos
  have hbits := hq.bits
  rw [tileRanks, q.pools.fp16.getElem?_ranks (by omega), Nat.mod_eq_of_lt hfit.rank_lt]
  simp only [some_bind]
  by_cases hend : start + count = q.d
  · rw [if_pos hend, hend, ← hbits, q.pools.fp16.rank_length]
    rfl
  · rw [if_neg hend, q.pools.fp16.getElem?_ranks (by omega),
      Nat.mod_eq_of_lt (hfit.rank_end_lt (by omega))]
    rfl

include hcode

lemma loadPacked_eq (hcount : count ≤ tileSize) :
    loadPacked code (q.d + q.pools.fp16.rank start * 2)
        (q.pools.fp16.rank (start + count) - q.pools.fp16.rank start)
      = some ((range (q.pools.fp16.rank (start + count) - q.pools.fp16.rank start)).map fun k =>
        halfAtPos code (q.d + (q.pools.fp16.rank start + k) * 2)) := by
  have hadd := q.pools.fp16.rank_add_le start count
  have hle : q.pools.fp16.rank (start + count) ≤ q.pools.fp16.count :=
    q.pools.fp16.rank_le_count (hfit.le.trans_eq hq.bits.symm)
  have hsize := hq.codeSize
  rw [loadPacked, if_neg (by omega)]
  apply mapM_eq_some_map
  intro k hk
  have hk := mem_range.mp hk
  rw [add_assoc, ← add_mul]
  apply load16_eq
  omega

omit hq hfit hcode in
lemma widen_eq (V : Vsetvl v) (n : ℕ) (g : ℕ → BitVec 16) :
    widen F V ((range n).map g) = some ((range n).map fun k => F.ofHalf (g k)) := by
  rw [widen, length_map, length_range]
  apply V.foldlM_append_strips
  intro out s hs
  have hload : vle ((range n).map g) s.offset s.len
      = some ((range s.len).map fun k => g (s.offset + k)) := by
    apply vle_eq_some
    intro k hk
    exact getElem?_range_map (by omega)
  rw [hload, some_bind, map_map]
  rfl

omit hq hfit hcode in
lemma scatter_eq (hbits : start + count ≤ q.pools.fp16.bits.length) (e : ℕ → K)
    (hwidened : widened = (range (q.pools.fp16.rank (start + count)
      - q.pools.fp16.rank start)).map fun k =>
        F.ofHalf (halfAtPos code (q.d + (q.pools.fp16.rank start + k) * 2))) :
    (range count).foldlM (q.scatter start widened) ((range count).map e, 0)
      = some ((range count).map fun k => e k + half F q code (start + k),
        q.pools.fp16.rank (start + count) - q.pools.fp16.rank start) := by
  -- what has been read of `widened` is the rank gained since `start`
  have hloop := Returns.foldlM_range (f := q.scatter start widened)
    (P := fun i state => state = ((range count).map fun k =>
      if k < i then e k + half F q code (start + k) else e k,
      q.pools.fp16.rank (start + i) - q.pools.fp16.rank start)) count ?_
    (s := ((range count).map e, 0)) (by simp)
  · obtain ⟨state, hstate, rfl⟩ := hloop
    rw [hstate]
    congr 2
    apply map_congr_left
    intro k hk
    rw [if_pos (mem_range.mp hk)]
  · rintro i hi _ rfl
    have hlow := q.pools.fp16.rank_mono (Nat.le_add_right start i)
    have hsucc := q.pools.fp16.rank_succ (start + i)
    rw [scatter]
    by_cases hset : IsSet q.pools.fp16.bits (start + i)
    · rw [if_pos hset] at hsucc
      have hhigh : q.pools.fp16.rank (start + i) < q.pools.fp16.rank (start + count) := by
        have := q.pools.fp16.rank_mono (show start + i + 1 ≤ start + count by omega)
        omega
      have hread : widened[q.pools.fp16.rank (start + i) - q.pools.fp16.rank start]?
          = some (half F q code (start + i)) := by
        have hlt : q.pools.fp16.rank (start + i) - q.pools.fp16.rank start
            < q.pools.fp16.rank (start + count) - q.pools.fp16.rank start := by omega
        rw [hwidened, getElem?_range_map hlt, half,
          if_pos hset, tileSlot16, Nat.add_sub_cancel' hlow]
      rw [hset]
      simp only [some_bind, if_true, hread, modifyAt_range_map hi]
      refine .pure (Prod.ext ?_ ?_)
      · apply map_congr_left
        intro k _
        by_cases hk : k = i
        · simp [hk]
        · have hiff : k < i + 1 ↔ k < i := by omega
          simp [hk, hiff]
      · show q.pools.fp16.rank (start + i) - q.pools.fp16.rank start + 1 = _
        rw [← add_assoc, hsucc]
        omega
    · rw [if_neg hset] at hsucc
      rw [getElem?_of_not_isSet (by omega) hset]
      simp only [some_bind, Bool.false_eq_true, if_false]
      refine .pure (Prod.ext ?_ ?_)
      · apply map_congr_left
        intro k _
        by_cases hk : k = i
        · simp [hk, half, hset]
        · have hiff : k < i + 1 ↔ k < i := by omega
          simp [hiff]
      · show q.pools.fp16.rank (start + i) - q.pools.fp16.rank start = _
        rw [← add_assoc, hsucc]
        rfl

lemma addFp16Tile_eq (V : Vsetvl v) (hcount : count ≤ tileSize) (e : ℕ → K) :
    q.addFp16Tile F V code start count ((range count).map e)
      = .ok ((range count).map fun k => e k + half F q code (start + k)) := by
  have hmono := q.pools.fp16.rank_mono (Nat.le_add_right start count)
  have hbits : start + count ≤ q.pools.fp16.bits.length := by
    rw [hq.bits]
    exact hfit.le
  rw [addFp16Tile, tileRanks_eq hq hfit, defined_bind_some]
  dsimp only
  rw [if_neg (by omega)]
  by_cases hzero : q.pools.fp16.rank (start + count) - q.pools.fp16.rank start = 0
  · -- no component of the tile is in the pool
    rw [if_pos hzero]
    show Except.ok _ = Except.ok _
    congr 1
    apply map_congr_left
    intro k hk
    have hk := mem_range.mp hk
    have hnot : ¬ IsSet q.pools.fp16.bits (start + k) := by
      intro hset
      have hsucc := q.pools.fp16.rank_succ (start + k)
      have hlow := q.pools.fp16.rank_mono (Nat.le_add_right start k)
      have hhigh := q.pools.fp16.rank_mono (show start + k + 1 ≤ start + count by omega)
      rw [if_pos hset] at hsucc
      omega
    rw [half, if_neg hnot, add_zero]
  · rw [if_neg hzero, loadPacked_eq hq hcode hfit hcount, defined_bind_some, widen_eq,
      defined_bind_some, scatter_eq hbits e rfl, defined_bind_some]
    dsimp only
    rw [if_neg (not_not.mpr rfl)]
    rfl

end Fp16

/-! ### The tiles of a vector -/

def lastTile (d : ℕ) : ℕ := tileSize * ((d - 1) / tileSize)

lemma mem_tiles {d : ℕ} {s : Strip} (h : s ∈ tiles d) : 0 < s.len ∧ s.len ≤ tileSize
    ∧ s.offset + s.len ≤ d ∧ s.offset ≤ lastTile d
    ∧ (s.offset + s.len < d → s.offset + s.len ≤ lastTile d) := by
  obtain ⟨hpos, hmax, -, hle⟩ := mem_strips _ h
  obtain ⟨j, hoffset, hlen⟩ := mem_greedy_strips _ h
  rw [lastTile, tileSize] at *
  omega

lemma ranksFit_of_mem_tiles (hrank : q.pools.fp16.rank (lastTile q.d) < 2 ^ 32)
    (hs : s ∈ tiles q.d) : RanksFit q s.offset s.len where
  le := (mem_tiles hs).2.2.1
  pos := (mem_tiles hs).1
  rank_lt := (q.pools.fp16.rank_mono (mem_tiles hs).2.2.2.1).trans_lt hrank
  rank_end_lt hlt := (q.pools.fp16.rank_mono ((mem_tiles hs).2.2.2.2 hlt)).trans_lt hrank

/-! ### Distances -/

section Distance

variable (G : Leftovers K) (sim : Similarity)

lemma accumulateStrip_eq {f g : ℕ → K} (ha : ∀ i < n, a[i]? = some (f i))
    (hb : ∀ i < n, b[i]? = some (g i)) (hpos : 0 < s.len) (hs : s.offset + s.len ≤ n)
    (total : K) : accumulateStrip G sim a b total s = some (total + ∑ k ∈ Finset.range s.len,
        sim.term (f (s.offset + k)) (g (s.offset + k))) := by
  have hva : vle a s.offset s.len = some ((range s.len).map fun k => f (s.offset + k)) :=
    vle_eq_some fun k hk => ha _ (by omega)
  have hvb : vle b s.offset s.len = some ((range s.len).map fun k => g (s.offset + k)) :=
    vle_eq_some fun k hk => hb _ (by omega)
  have hsum : ∀ f' g' : ℕ → K, laneSum s.len (vfmacc (splat 0) ((range s.len).map f')
      ((range s.len).map g') (G.tail 0 s.offset)) = ∑ k ∈ Finset.range s.len, f' k * g' k := by
    intro f' g'
    apply Finset.sum_congr rfl
    intro k hk
    rw [vfmacc_map]
    show (if k < s.len then splat 0 k + f' k * g' k else _) = _
    rw [if_pos (Finset.mem_range.mp hk), splat, zero_add]
  rw [accumulateStrip, hva, hvb]
  simp only [some_bind, vfredusum, if_neg hpos.ne']
  cases sim with
  | l2 =>
    simp only [Similarity.factors, vfsub_map, hsum]
    rfl
  | ip =>
    simp only [Similarity.factors, hsum]
    rfl

lemma accumulateTile_eq (lmul : Option Lmul) (H : Hardware) {f g : ℕ → K}
    (ha : ∀ i < n, a[i]? = some (f i)) (hb : ∀ i < n, b[i]? = some (g i)) :
    accumulateTile G sim lmul H a b n = some (∑ k ∈ Finset.range n, sim.term (f k) (g k)) := by
  cases lmul with
  | none =>
    apply foldlM_sum
    intro i hi acc
    rw [ha i hi, hb i hi]
    rfl
  | some l =>
    have hloop := (H.vsetvl l).foldlM_strips (accumulateStrip G sim a b)
      (fun p => ∑ k ∈ Finset.range p, sim.term (f k) (g k)) 0 n fun s hpos _ _ hs => by
        rw [accumulateStrip_eq G sim ha hb hpos (by omega), Finset.sum_range_add]
        rfl
    rwa [zero_add] at hloop

lemma foldlM_tiles {d : ℕ} {body : K → Strip → Except Fault K} {t : ℕ → K}
    (h : ∀ s ∈ tiles d, ∀ total,
      body total s = .ok (total + ∑ k ∈ Finset.range s.len, t (s.offset + k))) :
    (tiles d).foldlM body 0 = .ok (∑ i ∈ Finset.range d, t i) := by
  rw [foldlM_eq_foldl (g := fun total s => total + ∑ k ∈ Finset.range s.len, t (s.offset + k))
    fun total s hs => h s hs total]
  have hsum := sum_strips (greedy tileSize (by decide)) t 0 d
  simp only [zero_add] at hsum
  show Except.ok _ = Except.ok _
  rw [← hsum, sum_eq_foldl, foldl_map]
  rfl

lemma fvecRef_eq {x y : List K} {f g : ℕ → K} {d : ℕ} (hx : ∀ i < d, x[i]? = some (f i))
    (hy : ∀ i < d, y[i]? = some (g i)) :
    (match sim with
      | .l2 => Simd.fvecL2sqrRef x y d
      | .ip => Simd.fvecInnerProductRef x y d) = some (∑ i ∈ Finset.range d, sim.term (f i)
        (g i)) := by
  cases sim with
  | l2 =>
    apply Simd.sumRef_eq
    intro i hi
    simp [Simd.l2sqrTerm, Simd.component, hx i hi, hy i hi, Similarity.term]
  | ip =>
    apply Simd.sumRef_eq
    intro i hi
    simp [Simd.innerProductTerm, Simd.component, hx i hi, hy i hi, Similarity.term]

end Distance

/-! ### Decoding -/

section Decode

variable [LinearOrder K]

def scalarValue (F : FloatCodec K) (q : QuantizerHybrid) (code : Code) (i : ℕ) : K :=
  q.baseValue F i (code.getD i 0) + q.residualValue F code (q.slot16 i) i

include hq hcode

lemma decodeBase_eq_value (hi : i < q.d) :
    q.decodeBase F code i = some (q.baseValue F i (code.getD i 0)) := by
  have hsize := hq.codeSize
  exact decodeBase_eq hq hi (getElem?_eq_getD (by omega) 0)

lemma decodeVector_eq : q.decodeVector F code = some ((range q.d).map (q.scalarValue F code)) := by
  apply mapM_eq_some_map
  intro i hi
  have hi := mem_range.mp hi
  rw [reconstructComponent, decodeBase_eq_value hq hcode hi, residualComponent_eq_value hq hcode hi]
  rfl

lemma decodeTile_scalar (hle : start + count ≤ q.d) (hpos : 0 < count) (H : TileHardware) :
    q.decodeTile F none H code start count
      = .ok ((range count).map fun k => q.scalarValue F code (start + k)) := by
  have hbase : ((range count).mapM fun i => q.decodeBase F code (start + i))
      = some ((range count).map fun k =>
        q.baseValue F (start + k) (code.getD (start + k) 0)) := by
    apply mapM_eq_some_map
    intro i hi
    have hi := mem_range.mp hi
    exact decodeBase_eq_value hq hcode (by omega)
  rw [decodeTile]
  dsimp only
  rw [hbase, defined_bind_some, addResidualTile, if_neg hpos.ne', if_neg (by omega)]
  dsimp only
  rw [addResidualScalar_eq hq hcode hle]
  rfl

lemma decodeTile_vector (hfit : RanksFit q start count) (hcount : count ≤ tileSize) (l : Lmul)
    (H : TileHardware) : q.decodeTile F (some l) H code start count
      = .ok ((range count).map fun k => q.tileValue F code (start + k)) := by
  have hle := hfit.le
  rw [decodeTile]
  dsimp only
  rw [decodeStrips_eq hq hcode hle, defined_bind_some, addResidualTile, if_neg hfit.pos.ne',
    if_neg (by omega)]
  dsimp only
  rw [if_neg (by omega), addFp16Tile_eq hq hcode hfit _ hcount, ok_bind,
    addFp32Tile_eq hq hcode hle]
  simp only [add_assoc, half_add_word]
  rfl

end Decode

/-! ### The distance computer -/

section Exact

variable [LinearOrder K]

/-- The tiles are those of the scalar decoder, and both distances are the scalar ones. -/
structure TilesExact (F : FloatCodec K) (q : QuantizerHybrid) (dec acc : Option Lmul) : Prop where
  decodeTile : ∀ code : Code, code.length = q.codeSize → ∃ v, q.decodeVector F code = some v
    ∧ ∀ H, ∀ s ∈ tiles q.d,
      q.decodeTile F dec H code s.offset s.len = .ok ((v.drop s.offset).take s.len)
  queryToCode : ∀ A G sim x (code : Code), x.length = q.d → code.length = q.codeSize →
    ∃ t, q.computeDistance F sim x code = some t
      ∧ q.computeDistanceRvv F dec acc A G sim x code = .ok t
  symmetricDis : ∀ A G sim (codeI codeJ : Code), codeI.length = q.codeSize →
    codeJ.length = q.codeSize → ∃ t, q.symmetricDis F sim codeI codeJ = some t
      ∧ q.symmetricDisRvv F dec acc A G sim codeI codeJ = .ok t

/-- Every width is zero, or finite and positive.  `train` sees to it. -/
def SoundWidths (F : FloatCodec K) (q : QuantizerHybrid) : Prop :=
  ∀ v ∈ q.vdiff, F.ofFloat v = 0 ∨ 0 < F.ofFloat v ∧ F.isFinite v = true

/-- The ranks of the first pool that the tile decoder looks up fit into its table of `uint32_t`. -/
structure RanksNumbered (q : QuantizerHybrid) : Prop where
  count : q.pools.fp16.count ≤ 2 ^ 32
  last : q.pools.fp16.rank (lastTile q.d) < 2 ^ 32

lemma ranksNumbered_of_count_lt {q : QuantizerHybrid} (hq : q.WellFormed)
    (h : q.pools.fp16.count < 2 ^ 32) : q.RanksNumbered := by
  have hlast : lastTile q.d ≤ q.pools.fp16.bits.length := by
    rw [hq.bits]
    exact (Nat.mul_div_le _ _).trans (Nat.sub_le _ _)
  exact ⟨h.le, (q.pools.fp16.rank_le_count hlast).trans_lt h⟩

/-- The tiles of every record, for every answer of the hardware. -/
def SameTiles (F : FloatCodec K) (q : QuantizerHybrid) (dec : Option Lmul) : Prop :=
  ∀ code : Code, code.length = q.codeSize → ∀ H, ∀ s ∈ tiles q.d,
    q.decodeTile F dec H code s.offset s.len
      = .ok ((range s.len).map fun k => q.scalarValue F code (s.offset + k))

lemma tileSlot16_eq (hcount : q.pools.fp16.count ≤ 2 ^ 32)
    (hset : IsSet q.pools.fp16.bits i) : q.tileSlot16 i = q.slot16 i := by
  have hlt := (q.pools.fp16.rank_lt_count hset).trans_le hcount
  rw [tileSlot16, slot16, Nat.mod_eq_of_lt hlt]

omit [LinearOrder K] in
lemma residualValue_eq (hcount : q.pools.fp16.count ≤ 2 ^ 32) (code : Code) (i : ℕ) :
    q.residualValue F code (q.tileSlot16 i) i = q.residualValue F code (q.slot16 i) i := by
  by_cases hset : IsSet q.pools.fp16.bits i
  · rw [tileSlot16_eq hcount hset]
  · rw [residualValue, residualValue, if_neg hset, if_neg hset]

include hq

lemma tilesExact_of_sameTiles {dec acc : Option Lmul} (h : SameTiles F q dec) :
    TilesExact F q dec acc where
  decodeTile code hcode := by
    refine ⟨_, decodeVector_eq hq hcode, fun H s hs => ?_⟩
    have hle := (mem_tiles hs).2.2.1
    rw [h code hcode H s hs, drop_range_map, take_range_map, min_eq_left (by omega)]
  queryToCode A G sim x code hx hcode := by
    have hquery : ∀ i < q.d, x[i]? = some (x.getD i 0) := fun i hi => getElem?_eq_getD (by omega) 0
    refine ⟨∑ i ∈ Finset.range q.d, sim.term (x.getD i 0) (q.scalarValue F code i), ?_, ?_⟩
    · rw [computeDistance, decodeVector_eq hq hcode]
      exact fvecRef_eq sim hquery fun _ => getElem?_range_map
    · apply foldlM_tiles
      intro s hs total
      have hle := (mem_tiles hs).2.2.1
      have htile : ∀ k < s.len, (x.drop s.offset)[k]? = some (x.getD (s.offset + k) 0) :=
        fun k hk => by rw [getElem?_drop, hquery _ (by omega)]
      rw [h code hcode _ s hs, ok_bind,
        accumulateTile_eq G sim acc _ htile fun _ => getElem?_range_map]
      rfl
  symmetricDis A G sim codeI codeJ hI hJ := by
    refine ⟨∑ i ∈ Finset.range q.d, sim.term (q.scalarValue F codeI i) (q.scalarValue F codeJ i),
      ?_, ?_⟩
    · rw [QuantizerHybrid.symmetricDis, decodeVector_eq hq hI, decodeVector_eq hq hJ]
      exact fvecRef_eq sim (fun _ => getElem?_range_map) fun _ => getElem?_range_map
    · apply foldlM_tiles
      intro s hs total
      rw [h codeI hI _ s hs, ok_bind, h codeJ hJ _ s hs, ok_bind,
        accumulateTile_eq G sim acc _ (fun _ => getElem?_range_map) fun _ => getElem?_range_map]
      rfl

lemma sameTiles_none : SameTiles F q none := by
  intro code hcode H s hs
  obtain ⟨hpos, -, hle, -⟩ := mem_tiles hs
  exact decodeTile_scalar hq hcode hle hpos H

omit hq in
lemma tileBase_eq (hwidths : SoundWidths F q) (hi : i < q.vdiff.length) (code : Code) :
    q.tileBase F code i = q.baseValue F i (code.getD i 0) := by
  rcases hwidths _ (mem_of_getElem? (getElem?_eq_getD hi 0)) with hzero | ⟨hpos, hfinite⟩
  · have hdegenerate : degenerate F (q.vdiff.getD i 0) = true :=
      decide_eq_true (.inl (not_lt.mpr hzero.le))
    rw [tileBase, baseValue, if_pos hdegenerate, hzero, mul_zero, zero_add]
  · have hdegenerate : ¬ degenerate F (q.vdiff.getD i 0) = true := fun h =>
      (of_decide_eq_true h).elim (fun hnot => hnot hpos) fun hnot => hnot hfinite
    rw [tileBase, baseValue, if_neg hdegenerate]
    ring

lemma sameTiles_some (hwidths : SoundWidths F q) (hfit : q.RanksNumbered) (l : Lmul) :
    SameTiles F q (some l) := by
  intro code hcode H s hs
  rw [decodeTile_vector hq hcode (ranksFit_of_mem_tiles hfit.last hs) (mem_tiles hs).2.1]
  congr 1
  apply map_congr_left
  intro k hk
  have hlt : s.offset + k < q.vdiff.length := by
    have := mem_range.mp hk
    have := (mem_tiles hs).2.2.1
    rw [hq.vdiff]
    omega
  rw [tileValue, scalarValue, residualValue_eq hfit.count, tileBase_eq hwidths hlt]

/-- **The tile decoder is exact**, for every quantiser whose widths are zero or finite and positive
and whose first pool can be numbered with 32 bits: on every record of the code size, for every
answer of the hardware, it gives the components of the scalar decoder, and the distances computed
from its tiles are the scalar ones. -/
theorem tilesExact (hwidths : SoundWidths F q) (hfit : q.RanksNumbered) (dec acc : Option Lmul) :
    TilesExact F q dec acc := by
  apply tilesExact_of_sameTiles hq
  cases dec with
  | none => exact sameTiles_none hq
  | some l => exact sameTiles_some hq hwidths hfit l

end Exact

def oneInEachPool : QuantizerHybrid where
  d := 2
  vmin := [0, 0]
  vdiff := [0x3F800000, 0]
  pools := (ResidualPools.empty.push true false (by simp)).push false true (by simp)
  codeSize := 8

theorem tilesExact_oneInEachPool :
    TilesExact FloatCodec.ieee oneInEachPool (some .m4) (some .m8) := by
  have hwellFormed : oneInEachPool.WellFormed := ⟨rfl, rfl, rfl, rfl⟩
  have hwidths : SoundWidths FloatCodec.ieee oneInEachPool := by
    unfold SoundWidths oneInEachPool
    rw [forall_mem_cons, forall_mem_singleton]
    decide +kernel
  exact tilesExact hwellFormed hwidths ⟨by decide, by decide⟩ (some .m4) (some .m8)

end Rvanns.Faiss.QuantizerHybrid
