import Rvanns.Knowhere.BitsetView

/-!
# What a bitset finds and counts

`get_first_valid_index` goes through the bits in words of 64 and then in bytes.
-/

namespace Rvanns.Knowhere

open List Option

namespace BitsetView

variable {b : BitsetView}

/-- Bit `x` of the bytes. -/
def bit (b : BitsetView) (x : ℕ) : Bool := (b.bits (x >>> 3)).toNat.testBit (x &&& 7)

lemma bit_eq (b : BitsetView) (x : ℕ) : b.bit x = (b.bits (x / 8)).toNat.testBit (x % 8) := by
  rw [bit, Nat.shiftRight_eq_div_pow, show 7 = 2 ^ 3 - 1 from rfl, Nat.and_two_pow_sub_one_eq_mod]

lemma testBit_eq_false_iff : b.testBit x = false ↔ x < b.numBits ∧ b.bit x = false := by
  simp [testBit, bit]

section OutIds

variable (b : BitsetView) (outIds : ℕ → ℕ) (m k : ℕ)

@[simp] lemma testBit_setOutIds (x : ℕ) : (b.setOutIds outIds m k).testBit x = b.testBit x := by
  unfold setOutIds
  split <;> rfl

@[simp] lemma numBits_setOutIds : (b.setOutIds outIds m k).numBits = b.numBits := by
  unfold setOutIds
  split <;> rfl

@[simp] lemma empty_setOutIds : (b.setOutIds outIds m k).empty = b.empty := by
  rw [empty, numBits_setOutIds, empty]

@[simp] lemma idOffset_setOutIds : (b.setOutIds outIds m k).idOffset = b.idOffset := by
  unfold setOutIds
  split <;> rfl

@[simp] lemma outIds_setOutIds : (b.setOutIds outIds m k).outIds = some outIds := by
  unfold setOutIds
  split <;> rfl

@[simp] lemma numInternalIds_setOutIds : (b.setOutIds outIds m k).numInternalIds = m := by
  unfold setOutIds
  split <;> rfl

@[simp] lemma size_setOutIds : (b.setOutIds outIds m k).size = m := by
  rw [size, outIds_setOutIds, numInternalIds_setOutIds]
  rfl

@[simp] lemma testBit_setIdOffset (o x : ℕ) : (b.setIdOffset o).testBit x = b.testBit x := rfl

@[simp] lemma size_setIdOffset (o : ℕ) : (b.setIdOffset o).size = b.size := rfl

@[simp] lemma count_setIdOffset (o : ℕ) : (b.setIdOffset o).count = b.count := rfl

/-- A row is tested through the map. -/
lemma test_of_outIds {b : BitsetView} {outIds : ℕ → ℕ} (h : b.outIds = some outIds) (i : ℕ) :
    b.test i = b.testBit (outIds (i + b.idOffset)) := by
  rw [test, h]

lemma test_setIdOffset {b : BitsetView} {outIds : ℕ → ℕ} (h : b.outIds = some outIds) (o i : ℕ) :
    (b.setIdOffset o).test i = b.testBit (outIds (i + o)) := by
  rw [setIdOffset, h]
  rfl

lemma count_setOutIds (hne : b.empty = false) : (b.setOutIds outIds m k).count = if 0 < k then k
        else (range m).countP fun i => b.testBit (outIds (i + b.idOffset)) := by
  unfold setOutIds
  split_ifs with hk
  · rfl
  · have hempty : { b with outIds := some outIds, numInternalIds := m }.empty = false := hne
    show getFilteredOutNum _ = _
    rw [getFilteredOutNum, hempty]
    rfl

end OutIds

def word (b : BitsetView) (width first : ℕ) : ℕ :=
  ((range width).map fun j => (b.bits (first + j)).toNat <<< (8 * j)).sum

lemma word_succ (b : BitsetView) (width first : ℕ) : b.word (width + 1) first
      = 2 ^ (8 * width) * (b.bits (first + width)).toNat + b.word width first := by
  simp only [word, range_succ, map_append, map_cons, map_nil, sum_append,
    sum_cons, sum_nil, Nat.shiftLeft_eq]
  rw [add_zero, add_comm, mul_comm]

lemma word_lt (b : BitsetView) (width first : ℕ) : b.word width first < 2 ^ (8 * width) := by
  induction width with
  | zero => simp [word]
  | succ width ih =>
    have hbyte : (b.bits (first + width)).toNat < 2 ^ 8 := UInt8.toNat_lt _
    calc b.word (width + 1) first
        < 2 ^ (8 * width) * (b.bits (first + width)).toNat + 2 ^ (8 * width) := by
          rw [word_succ]
          omega
      _ = 2 ^ (8 * width) * ((b.bits (first + width)).toNat + 1) := (Nat.mul_succ _ _).symm
      _ ≤ 2 ^ (8 * width) * 2 ^ 8 := Nat.mul_le_mul_left _ hbyte
      _ = 2 ^ (8 * (width + 1)) := by rw [← pow_add, Nat.mul_succ]

lemma testBit_word (hj : j < 8 * width) :
    (b.word width first).testBit j = b.bit (8 * first + j) := by
  induction width with
  | zero => omega
  | succ width ih =>
    rw [word_succ, Nat.testBit_two_pow_mul_add _ (b.word_lt width first)]
    split_ifs with hlt
    · exact ih hlt
    · rw [bit_eq, show (8 * first + j) / 8 = first + width by omega,
        show (8 * first + j) % 8 = j - 8 * width by omega]

/-- `i` is the first clear bit from `start` on. -/
def FirstClearFrom (b : BitsetView) (start i : ℕ) : Prop :=
  start ≤ i ∧ b.bit i = false ∧ ∀ x, start ≤ x → b.bit x = false → i ≤ x

lemma firstClear_eq (b : BitsetView) (width first : ℕ) : b.firstClear width first =
      if 2 ^ (8 * width) - (b.word width first + 1) = 0 then none
      else some (8 * first + ctz (8 * width) (2 ^ (8 * width) - (b.word width first + 1))) := by
  rw [show 2 ^ (8 * width) - (b.word width first + 1)
    = 2 ^ (8 * width) - 1 - b.word width first by omega]
  rfl

lemma testBit_inverted (b : BitsetView) (first : ℕ) (hj : j < 8 * width) :
    (2 ^ (8 * width) - (b.word width first + 1)).testBit j = !b.bit (8 * first + j) := by
  rw [Nat.testBit_two_pow_sub_succ (b.word_lt width first), testBit_word hj]
  simp [hj]

lemma bit_of_firstClear_eq_none (h : b.firstClear width first = none)
    (hge : 8 * first ≤ x) (hlt : x < 8 * (first + width)) : b.bit x = true := by
  rw [firstClear_eq] at h
  have hzero : 2 ^ (8 * width) - (b.word width first + 1) = 0 := by
    by_contra hne
    rw [if_neg hne] at h
    cases h
  have hbit := b.testBit_inverted first (show x - 8 * first < 8 * width by omega)
  rw [hzero, show 8 * first + (x - 8 * first) = x by omega] at hbit
  simpa using hbit.symm

lemma firstClearFrom_of_firstClear (h : b.firstClear width first = some i) :
    b.FirstClearFrom (8 * first) i := by
  rw [firstClear_eq] at h
  split_ifs at h with hne
  cases h
  set value := 2 ^ (8 * width) - (b.word width first + 1) with hvalue
  -- some bit of the inverted word is set, and it is not behind the word
  have hlt : value < 2 ^ (8 * width) := by omega
  obtain ⟨j, hj⟩ := Nat.exists_testBit_of_ne_zero hne
  have hjlt : j < 8 * width := by
    by_contra hge
    rw [Nat.testBit_lt_two_pow (lt_of_lt_of_le hlt (Nat.pow_le_pow_right (by omega) (by omega)))]
      at hj
    cases hj
  have hfound : ((range (8 * width)).find? value.testBit).isSome := by
    rw [find?_isSome]
    exact ⟨j, mem_range.mpr hjlt, hj⟩
  obtain ⟨k, hk⟩ := isSome_iff_exists.mp hfound
  have hctz : ctz (8 * width) value = k := by rw [ctz, hk, getD_some]
  obtain ⟨hset, hklt, hbefore⟩ := find?_range_eq_some.mp hk
  rw [hctz]
  refine ⟨by omega, ?_, fun x hx hclear => ?_⟩
  · rw [testBit_inverted _ _ (mem_range.mp hklt)] at hset
    simpa using hset
  · by_contra hxlt
    have hnot := hbefore (x - 8 * first) (by omega)
    have := mem_range.mp hklt
    rw [hvalue, testBit_inverted _ _ (by omega), show 8 * first + (x - 8 * first) = x by omega,
      hclear]
      at hnot
    cases hnot

/-- The loop over `m` words from byte `first` on. -/
lemma findSome?_firstClear (b : BitsetView) (width first m : ℕ) :
    match (range m).findSome? fun i => b.firstClear width (first + width * i) with
    | some i => b.FirstClearFrom (8 * first) i
    | none => ∀ x, 8 * first ≤ x → x < 8 * (first + width * m) → b.bit x = true := by
  induction m with
  | zero =>
    intro x hge hlt
    omega
  | succ m ih =>
    rw [range_succ, findSome?_append]
    cases hfront : (range m).findSome? fun i => b.firstClear width (first + width * i) with
    | some i =>
      rw [hfront] at ih
      exact ih
    | none =>
      rw [hfront] at ih
      simp only [findSome?_cons, findSome?_nil, none_or]
      cases hlast : b.firstClear width (first + width * m) with
      | some i =>
        obtain ⟨hge, hclear, hfirst⟩ := firstClearFrom_of_firstClear hlast
        refine ⟨by omega, hclear, fun x hx hxclear => hfirst x ?_ hxclear⟩
        -- the words before have no clear bit
        by_contra hlt
        rw [ih x hx (by omega)] at hxclear
        cases hxclear
      | none =>
        intro x hge hlt
        rcases lt_or_ge x (8 * (first + width * m)) with hx | hx
        · exact ih x hge hx
        · exact bit_of_firstClear_eq_none hlast hx (by rw [Nat.mul_succ] at hlt; omega)

/-- **The first valid index is valid**, if any index is. -/
lemma testBit_getFirstValidIndex (hout : b.outIds = none) (hx : b.testBit x = false) :
    b.testBit b.getFirstValidIndex = false := by
  obtain ⟨hlt, hclear⟩ := testBit_eq_false_iff.mp hx
  have hfirst : b.FirstClearFrom 0 b.getFirstValidIndex := by
    have hwords := b.findSome?_firstClear 8 0 (((b.numBits + 8 - 1) >>> 3) >>> 3)
    have hbytes := b.findSome?_firstClear 1 (((b.numBits + 8 - 1) >>> 3) >>> 3 <<< 3)
      ((b.numBits + 8 - 1) >>> 3 - ((b.numBits + 8 - 1) >>> 3) >>> 3 <<< 3)
    simp only [zero_add, one_mul, mul_zero] at hwords hbytes
    rw [getFirstValidIndex, hout]
    simp only [isSome_none, Bool.false_eq_true, if_false]
    cases hfound : (range (((b.numBits + 8 - 1) >>> 3) >>> 3)).findSome?
        fun i => b.firstClear 8 (8 * i) with
    | some i =>
      rw [hfound] at hwords
      exact hwords
    | none =>
      rw [hfound] at hwords
      have hbefore : ∀ y, b.bit y = false → 8 * (((b.numBits + 8 - 1) >>> 3) >>> 3 <<< 3) ≤ y := by
        intro y hy
        by_contra hlt
        rw [hwords y (by omega) (by rw [Nat.shiftLeft_eq] at hlt; omega)] at hy
        cases hy
      cases hrest : (range ((b.numBits + 8 - 1) >>> 3
          - ((b.numBits + 8 - 1) >>> 3) >>> 3 <<< 3)).findSome?
          fun i => b.firstClear 1 (((b.numBits + 8 - 1) >>> 3) >>> 3 <<< 3 + i) with
      | some i =>
        rw [hrest] at hbytes
        obtain ⟨-, hi, hmin⟩ := hbytes
        exact ⟨by omega, hi, fun y _ hy => hmin y (hbefore y hy) hy⟩
      | none =>
        rw [hrest] at hbytes
        rw [hbytes x (hbefore x hclear) (by omega)] at hclear
        cases hclear
  exact testBit_eq_false_iff.mpr ⟨lt_of_le_of_lt (hfirst.2.2 x (by omega) hclear) hlt, hfirst.2.1⟩

end BitsetView

end Rvanns.Knowhere
