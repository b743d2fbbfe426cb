import Rvanns.Faiss.ScalarQuantizerCodecRvv

/-!
# Decoding one component and decoding a strip

`Quantizer.value` is the number that a component of a code stands for.
-/

namespace Rvanns.Faiss

open Cpp Literals Rvv List Codec6bit

variable {K : Type} [Field K]

/-! ### The value of a component -/

/-- A byte of a code, and `0` behind its end. -/
def byteAt (code : Code) (i : ℕ) : BitVec 8 := code.getD i 0

/-- The upper or lower half of a byte. -/
def nibbleAt (code : Code) (i : ℕ) : BitVec 8 :=
  if i % 2 = 0 then byteAt code (i / 2) &&& 0x0f#8 else byteAt code (i / 2) >>> 4

/-- The six bits of component `i`. -/
def sextetAt (code : Code) (i : ℕ) : BitVec 8 :=
  match i % 4 with
  | 0 => byteAt code (i / 4 * 3) &&& 0x3f#8
  | 1 => byteAt code (i / 4 * 3) >>> 6 ||| (byteAt code (i / 4 * 3 + 1) &&& 0xf#8) <<< 2
  | 2 => byteAt code (i / 4 * 3 + 1) >>> 4 ||| (byteAt code (i / 4 * 3 + 2) &&& 3#8) <<< 4
  | _ => byteAt code (i / 4 * 3 + 2) >>> 2

def Quantizer.vmin (Q : Quantizer K) (scaling : Scaling) (i : ℕ) : K :=
  match scaling with
  | .uniform => Q.trained.getD 0 0
  | .nonUniform => Q.trained.getD i 0

def Quantizer.vdiff (Q : Quantizer K) (scaling : Scaling) (i : ℕ) : K :=
  match scaling with
  | .uniform => Q.trained.getD 1 0
  | .nonUniform => Q.trained.getD (Q.d + i) 0

/-- The number that component `i` of a code stands for. -/
def Quantizer.value (F : FloatFormat K) (Q : Quantizer K) (code : Code) (i : ℕ) : K :=
  match Q.kind with
  | .codec8bit s => Q.vmin s i + ((byteAt code i).toNat + 1 / 2) / 255 * Q.vdiff s i
  | .codec4bit s => Q.vmin s i + ((nibbleAt code i).toNat + 1 / 2) / 15 * Q.vdiff s i
  | .codec6bit =>
    Q.vmin .nonUniform i + ((sextetAt code i).toNat + 1 / 2) / 63 * Q.vdiff .nonUniform i
  | .fp16 => F.ofHalf (byteAt code (2 * i + 1) ++ byteAt code (2 * i))
  | .bf16 => F.ofBf16 (byteAt code (2 * i + 1) ++ byteAt code (2 * i))
  | .direct8bit => (byteAt code i).toNat
  | .directSigned8bit => (byteAt code i).toNat - 128

structure Quantizer.Fits (Q : Quantizer K) (code : Code) : Prop where
  trained : Q.trained.length = Q.kind.trainedSize Q.d
  code : code.length = Q.kind.codeSize Q.d

/-! ### One component -/

lemma intIndex_of_lt (h : i < 2 ^ 31) : intIndex i = some i := by
  rw [intIndex, Nat.mod_eq_of_lt (by omega), if_pos h]

lemma getElem?_eq_byteAt (h : i < code.length) : code[i]? = some (byteAt code i) :=
  getElem?_eq_getD h 0

lemma Codec4bit.decodeComponent_eq (h : i / 2 < code.length) :
    Codec4bit.decodeComponent code i = some (((nibbleAt code i).toNat + 1 / 2 : K) / 15) := by
  have hbits : ∀ c : BitVec 8, (c >>> 4) &&& 0xf#8 = c >>> 4 := by decide
  rw [Codec4bit.decodeComponent, getElem?_eq_byteAt h, nibbleAt]
  rcases Nat.mod_two_eq_zero_or_one i with hi | hi
  · simp [Nat.and_one_is_mod, hi]
  · simp [Nat.and_one_is_mod, hi, hbits]

lemma mod_four_cases (i : ℕ) : i % 4 = 0 ∨ i % 4 = 1 ∨ i % 4 = 2 ∨ i % 4 = 3 := by
  omega

lemma Codec6bit.bits_eq (hcode : code.length = (d * 6 + 7) / 8)
    (h : i < d) : bits code i = some (sextetAt code i) := by
  have hread : ∀ b, b < (d * 6 + 7) / 8 → code[b]? = some (byteAt code b) :=
    fun b hb => getElem?_eq_byteAt (hb.trans_eq hcode.symm)
  rcases mod_four_cases i with hi | hi | hi | hi <;>
    simp only [bits, sextetAt, hi]
  · rw [hread _ (by omega)]
    rfl
  · rw [hread _ (by omega), hread _ (by omega)]
    rfl
  · rw [hread _ (by omega), hread _ (by omega)]
    rfl
  · rw [hread _ (by omega)]
    rfl

lemma halfAt_eq (h : code.length = d * 2) (hi : i < d) :
    halfAt code i = some (byteAt code (2 * i + 1) ++ byteAt code (2 * i)) := by
  rw [halfAt, getElem?_eq_byteAt (by omega), getElem?_eq_byteAt (by omega)]
  rfl

section Component

variable {Q : Quantizer K} {i : ℕ}

lemma Quantizer.scale_eq (h : Q.trained.length = s.trainedSize Q.d) (hi : i < Q.d)
    (xi : K) : Q.scale s i xi = some (Q.vmin s i + xi * Q.vdiff s i) := by
  have hread : ∀ k, k < Q.trained.length → Q.trained[k]? = some (Q.trained.getD k 0) :=
    fun k hk => getElem?_eq_getD hk 0
  cases s with
  | uniform =>
    have hlen : Q.trained.length = 2 := h
    rw [Quantizer.scale, hread 0 (by omega), hread 1 (by omega)]
    rfl
  | nonUniform =>
    have hlen : Q.trained.length = 2 * Q.d := h
    rw [Quantizer.scale, hread i (by omega), hread (Q.d + i) (by omega)]
    rfl

lemma Quantizer.reconstructComponent_eq (F : FloatFormat K) (hfits : Q.Fits code)
    (hi : i < Q.d) (hint : i < 2 ^ 31) :
    Q.reconstructComponent F code i = some (Q.value F code i) := by
  obtain ⟨htrained, hcode⟩ := hfits
  rw [Quantizer.reconstructComponent, intIndex_of_lt hint, Option.bind_eq_bind, Quantizer.value]
  cases hkind : Q.kind with
  | codec8bit s =>
    rw [hkind] at htrained hcode
    have hlen : i < code.length := hi.trans_eq hcode.symm
    simp only [Codec8bit.decodeComponent, getElem?_eq_byteAt hlen, some_bind,
      Option.bind_some, Option.pure_def]
    exact Quantizer.scale_eq htrained hi _
  | codec4bit s =>
    rw [hkind] at htrained hcode
    have hlen : i / 2 < code.length := by rw [hcode]; dsimp only [QuantizerKind.codeSize]; omega
    simp only [Codec4bit.decodeComponent_eq hlen, Option.bind_some]
    exact Quantizer.scale_eq htrained hi _
  | codec6bit =>
    rw [hkind] at htrained hcode
    simp only [decodeComponent, bits_eq hcode hi, some_bind, Option.bind_some,
      Option.pure_def]
    exact Quantizer.scale_eq htrained hi _
  | fp16 =>
    rw [hkind] at hcode
    simp [halfAt_eq hcode hi]
  | bf16 =>
    rw [hkind] at hcode
    simp [halfAt_eq hcode hi]
  | direct8bit =>
    rw [hkind] at hcode
    have hlen : i < code.length := hi.trans_eq hcode.symm
    simp [getElem?_eq_byteAt hlen]
  | directSigned8bit =>
    rw [hkind] at hcode
    have hlen : i < code.length := hi.trans_eq hcode.symm
    simp [getElem?_eq_byteAt hlen]

end Component

/-! ### A strip of components -/

lemma setWidth_sextet_low (a b : BitVec 8) :
    (a.setWidth 32 >>> 6 ||| b.setWidth 32 <<< 2) &&& 0x3f#32
      = (a >>> 6 ||| (b &&& 0xf#8) <<< 2).setWidth 32 := by
  apply BitVec.eq_of_getLsbD_eq
  intro i hi
  interval_cases i <;> simp

lemma setWidth_sextet_high (a b : BitVec 8) :
    (a.setWidth 32 >>> 4 ||| b.setWidth 32 <<< 4) &&& 0x3f#32
      = (a >>> 4 ||| (b &&& 3#8) <<< 4).setWidth 32 := by
  apply BitVec.eq_of_getLsbD_eq
  intro i hi
  interval_cases i <;> simp

lemma Codec6bit.unpack_eq (hcode : code.length = (d * 6 + 7) / 8)
    (h : i < d) : unpack code i = some ((sextetAt code i).setWidth 32) := by
  have hread : ∀ b, b < (d * 6 + 7) / 8 → code[b]? = some (byteAt code b) :=
    fun b hb => getElem?_eq_byteAt (hb.trans_eq hcode.symm)
  have hfirst : ∀ c : BitVec 8, c.setWidth 32 &&& 0x3f#32 = (c &&& 0x3f#8).setWidth 32 := by decide
  have hlast : ∀ c : BitVec 8, c.setWidth 32 >>> 2 &&& 0x3f#32 = (c >>> 2).setWidth 32 := by decide
  rcases mod_four_cases i with hi | hi | hi | hi <;>
    simp only [unpack, sextetAt, hi]
  · rw [hread _ (by omega)]
    exact congrArg some (hfirst _)
  · rw [hread _ (by omega), hread _ (by omega)]
    exact congrArg some (setWidth_sextet_low _ _)
  · rw [hread _ (by omega), hread _ (by omega)]
    exact congrArg some (setWidth_sextet_high _ _)
  · rw [hread _ (by omega)]
    exact congrArg some (hlast _)

section Components

variable {Q : Quantizer K} {H : Hardware} {code : Code} {i vl : ℕ}

lemma Codec8bit.decodeComponents_eq (h : i + vl ≤ code.length) :
    Codec8bit.decodeComponents code i vl = some
      ((range vl).map fun k => ((byteAt code (i + k)).toNat + 1 / 2 : K) / 255) := by
  rw [Codec8bit.decodeComponents, vle_eq_getD h 0, some_bind, map_map]
  refine congrArg some (map_congr_left fun k _ => ?_)
  show ((byteAt code (i + k)).toNat : K) * (1 / 255) + 1 / 2 / 255 = _
  ring

lemma Codec4bit.decodeComponents_eq (h : (i + vl + 1) / 2 ≤ code.length) :
    Codec4bit.decodeComponents code i vl = some
      ((range vl).map fun k => ((nibbleAt code (i + k)).toNat + 1 / 2 : K) / 15) := by
  have hunpack : (range vl).mapM (fun j => (do
      let byte ← code[(i + j) / 2]?
      return if (i + j) % 2 = 0 then byte &&& 0x0f#8 else byte >>> 4 : Option (BitVec 8)))
        = some ((range vl).map fun k => nibbleAt code (i + k)) := by
    apply mapM_eq_some_map
    intro k hk
    have hlt := mem_range.mp hk
    rw [getElem?_eq_byteAt (by omega)]
    rfl
  rw [Codec4bit.decodeComponents, hunpack, some_bind, map_map]
  refine congrArg some (map_congr_left fun k _ => ?_)
  show (((nibbleAt code (i + k)).toNat : K) + 1 / 2) * (1 / 15) = _
  ring

lemma Codec6bit.decodeComponents_eq (hbuffer : H.vlmax .m4 ≤ 512)
    (hcode : code.length = (d * 6 + 7) / 8) (h : i + vl ≤ d) :
    decodeComponents H code i vl = .ok
      ((range vl).map fun k => ((sextetAt code (i + k)).toNat + 1 / 2 : K) / 63) := by
  have hguard : ¬ rvvCodecStackThreshold < H.vlmax .m4 := not_lt.mpr hbuffer
  rw [decodeComponents, if_neg hguard]
  have hloop := (Vsetvl.greedy (H.vlmax .m4) (H.vlmax_pos .m4)).foldlM_strips
    (m := Except Fault) (fun out chunk => do
      let unpacked ← defined ((range chunk.len).mapM fun j =>
        unpack code (i + chunk.offset + j))
      return out ++ unpacked.map fun x => (x.toNat : K) * (1 / 63) + 1 / 2 / 63)
    (fun p => (range p).map fun k => ((sextetAt code (i + k)).toNat + 1 / 2 : K) / 63) 0 vl
    ?_
  · rw [zero_add] at hloop
    exact hloop
  · intro s _ _ _ hs
    have hunpack : (range s.len).mapM (fun j => unpack code (i + s.offset + j))
        = some ((range s.len).map fun j => (sextetAt code (i + s.offset + j)).setWidth 32) := by
      apply mapM_eq_some_map
      intro j hj
      have hlt := mem_range.mp hj
      exact unpack_eq hcode (by omega)
    rw [hunpack, defined_bind_some, range_add, map_append, map_map, map_map]
    congr 2
    refine map_congr_left fun k _ => ?_
    have hnat : ((sextetAt code (i + s.offset + k)).setWidth 32).toNat
        = (sextetAt code (i + s.offset + k)).toNat :=
      BitVec.toNat_setWidth_of_le (by decide)
    show ((((sextetAt code (i + s.offset + k)).setWidth 32).toNat : K)) * (1 / 63) + 1 / 2 / 63
      = ((sextetAt code (i + (s.offset + k))).toNat + 1 / 2) / 63
    rw [hnat, add_assoc]
    ring

lemma Quantizer.scaleComponents_eq (h : Q.trained.length = s.trainedSize Q.d)
    (hi : i + vl ≤ Q.d) (g : ℕ → K) :
    Q.scaleComponents s i ((range vl).map g)
      = some ((range vl).map fun k => Q.vmin s (i + k) + g k * Q.vdiff s (i + k)) := by
  cases s with
  | uniform =>
    have hlen : Q.trained.length = 2 := h
    have hread : ∀ k, k < Q.trained.length → Q.trained[k]? = some (Q.trained.getD k 0) :=
      fun k hk => getElem?_eq_getD hk 0
    rw [Quantizer.scaleComponents, hread 0 (by omega), hread 1 (by omega)]
    simp only [some_bind, map_map]
    exact congrArg some (map_congr_left fun k _ => add_comm _ _)
  | nonUniform =>
    have hlen : Q.trained.length = 2 * Q.d := h
    rw [Quantizer.scaleComponents, length_map, length_range, vle_eq_getD (by omega) 0,
      vle_eq_getD (by omega) 0]
    simp only [some_bind, vfmadd_map]
    refine congrArg some (map_congr_left fun k _ => ?_)
    show _ = Q.trained.getD (i + k) 0 + g k * Q.trained.getD (Q.d + (i + k)) 0
    rw [add_assoc, add_comm]

lemma Quantizer.scaleChunks_eq (h : Q.trained.length = 2 * Q.d) (hi : i + vl ≤ Q.d) (g : ℕ → K) :
    Q.scaleChunks H i ((range vl).map g) = some ((range vl).map fun k =>
      Q.vmin .nonUniform (i + k) + g k * Q.vdiff .nonUniform (i + k)) := by
  rw [Quantizer.scaleChunks, length_map, length_range]
  have hloop := (Vsetvl.greedy (H.vlmax .m4) (H.vlmax_pos .m4)).foldlM_strips
    (m := Option) (fun scaled chunk => do
      let xi ← vle ((range vl).map g) chunk.offset chunk.len
      return scaled ++ (← Q.scaleComponents .nonUniform (i + chunk.offset) xi))
    (fun p => (range p).map fun k =>
      Q.vmin .nonUniform (i + k) + g k * Q.vdiff .nonUniform (i + k)) 0 vl ?_
  · rw [Nat.zero_add] at hloop
    exact hloop
  · intro s _ _ _ hs
    have hload : vle ((range vl).map g) s.offset s.len
        = some ((range s.len).map fun k => g (s.offset + k)) := by
      apply vle_eq_some
      intro k hk
      have hlt : s.offset + k < vl := by omega
      simp [hlt]
    rw [hload, some_bind, Quantizer.scaleComponents_eq h (by omega), some_bind, range_add,
      map_append, map_map]
    congr 2
    refine map_congr_left fun k _ => ?_
    simp [Nat.add_assoc]

lemma loadHalves_eq (hcode : code.length = d * 2) (h : i + vl ≤ d) :
    loadHalves code i vl = some ((range vl).map fun k =>
      byteAt code (2 * (i + k) + 1) ++ byteAt code (2 * (i + k))) := by
  apply mapM_eq_some_map
  intro k hk
  have hlt := mem_range.mp hk
  exact halfAt_eq hcode (by omega)

lemma Quantizer.reconstructComponents_eq (F : FloatFormat K) (hfits : Q.Fits code)
    (hbuffer : Q.kind = .codec6bit → H.vlmax .m4 ≤ 512) (h : i + vl ≤ Q.d) (hint : i < 2 ^ 31) :
    Q.reconstructComponents F H code i vl
      = .ok ((range vl).map fun k => Q.value F code (i + k)) := by
  obtain ⟨htrained, hcode⟩ := hfits
  rw [Quantizer.reconstructComponents, intIndex_of_lt hint, defined_bind_some]
  simp only [Quantizer.value]
  cases hkind : Q.kind with
  | codec8bit s =>
    rw [hkind] at htrained hcode
    have hlen : i + vl ≤ code.length := h.trans_eq hcode.symm
    simp only [Codec8bit.decodeComponents_eq hlen, some_bind,
      Quantizer.scaleComponents_eq htrained h]
    rfl
  | codec4bit s =>
    rw [hkind] at htrained hcode
    have hlen : (i + vl + 1) / 2 ≤ code.length := by
      rw [hcode]
      dsimp only [QuantizerKind.codeSize]
      omega
    simp only [Codec4bit.decodeComponents_eq hlen, some_bind,
      Quantizer.scaleComponents_eq htrained h]
    rfl
  | codec6bit =>
    rw [hkind] at htrained hcode
    simp only [decodeComponents_eq (hbuffer hkind) hcode h]
    exact defined_eq_ok.mpr (Quantizer.scaleChunks_eq htrained h _)
  | fp16 =>
    rw [hkind] at hcode
    simp only [loadHalves_eq hcode h, some_bind, map_map]
    rfl
  | bf16 =>
    rw [hkind] at hcode
    simp only [loadHalves_eq hcode h, some_bind, map_map]
    rfl
  | direct8bit =>
    rw [hkind] at hcode
    have hlen : i + vl ≤ code.length := h.trans_eq hcode.symm
    simp only [vle_eq_getD hlen 0, some_bind, map_map]
    rfl
  | directSigned8bit =>
    rw [hkind] at hcode
    have hlen : i + vl ≤ code.length := h.trans_eq hcode.symm
    simp only [vle_eq_getD hlen 0, some_bind, map_map]
    rfl

/-- Without room for a chunk the 6-bit quantiser throws. -/
lemma Quantizer.reconstructComponents_throws (F : FloatFormat K) (hkind : Q.kind = .codec6bit)
    (hbuffer : 512 < H.vlmax .m4) (hint : i < 2 ^ 31) :
    Q.reconstructComponents F H code i vl
      = .error (.thrown "RVV max_chunk exceeds stack buffer") := by
  have hguard : rvvCodecStackThreshold < H.vlmax .m4 := hbuffer
  rw [Quantizer.reconstructComponents, intIndex_of_lt hint, hkind]
  simp only [decodeComponents, if_pos hguard]
  rfl

end Components

end Rvanns.Faiss
