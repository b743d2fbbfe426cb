import Rvanns.Faiss.Equiv.QuantizerHybridRvv
import Rvanns.Faiss.HybridTraining

/-!
# What training the hybrid quantiser achieves

The components are ranked by what the base of the quantiser misses of them, and the ranking is cut
into the two pools and the rest.
-/

namespace Rvanns.Faiss.HybridTraining

open Cpp QuantizerHybrid Option FloatCodec
open List hiding getElem?_set_of_lt

variable {K : Type} [Field K]

/-- The least values and the widths of the components. -/
abbrev Ranges := List (BitVec 32) × List (BitVec 32)

/-! ### Metadata -/

section Metadata

variable {F : FloatCodec K} {d : ℕ} {rs : Ranges}
  {w16 w32 : List (BitVec 32)}

variable (h1 : rs.1.length = d)

include h1

lemma vmin_metadata : ((metadata F d rs w16 w32).drop 2).take d = rs.1 := by
  simp [metadata, h1]

lemma vdiff_metadata (h2 : rs.2.length = d) :
    ((metadata F d rs w16 w32).drop (2 + d)).take d = rs.2 := by
  simp [metadata, ← drop_drop, h1, h2]

lemma words16_metadata (h2 : rs.2.length = d)
    (h16 : w16.length = (d + 31) / 32) : words16 d (metadata F d rs w16 w32) = w16 := by
  have hd : 2 + 2 * d = 2 + d + d := by omega
  simp [words16, metadata, hd, ← drop_drop, h1, h2, h16]

lemma words32_metadata (h2 : rs.2.length = d)
    (h16 : w16.length = (d + 31) / 32) (h32 : w32.length = (d + 31) / 32) :
    words32 d (metadata F d rs w16 w32) = w32 := by
  have hd : 2 + 2 * d = 2 + d + d := by omega
  simp [words32, metadata, hd, ← drop_drop, h1, h2, h16, h32]

end Metadata

variable [LinearOrder K] [FloorRing K]

/-! ### Errors -/

section Errors

/-- The component is a number in every training vector. -/
def Numeric (x : List (Sample K)) (n d col : ℕ) : Prop :=
  ∀ row < n, x.getD (row * d + col) .nan ≠ .nan

omit [Field K] [LinearOrder K] [FloorRing K] in
lemma numeric_succ_iff {x : List (Sample K)} {n d col : ℕ} :
    Numeric x (n + 1) d col ↔ Numeric x n d col ∧ x.getD (n * d + col) .nan ≠ .nan := by
  simp only [Numeric, Nat.forall_lt_succ_right]

variable (F : FloatCodec K) (rs : Ranges) (d : ℕ)
  (x : List (Sample K))

def squaredError (row col : ℕ) : Error K :=
  squaredResidual (F.ofFloat (rs.1.getD col 0)) (F.ofFloat (rs.2.getD col 0))
    (x.getD (row * d + col) .nan)

def baseError : (n col : ℕ) → Error K
  | 0, _ => some 0
  | n + 1, col => Option.map₂ (· + ·) (baseError n col) (squaredError F rs d x n col)

variable {F rs d x}

section

variable (h1 : rs.1.length = d) (h2 : rs.2.length = d)

include h1 h2

lemma addError_eq (hcol : col < d) (hx : row * d + col < x.length)
    (hs : sse[col]? = some s) : addError F rs d x row sse col
      = some (sse.set col (map₂ (· + ·) s (squaredError F rs d x row col))) := by
  rw [addError, getElem?_eq_getD hx .nan, getElem?_eq_getD (hcol.trans_eq h1.symm) 0,
    getElem?_eq_getD (hcol.trans_eq h2.symm) 0]
  simp only [some_bind, modifyAt, hs, map_some]
  rfl

lemma returns_addErrors (hx : (row + 1) * d ≤ x.length) {e : ℕ → Error K} (hlen : sse.length = d)
    (hsse : ∀ col < d, sse[col]? = some (e col)) :
    Returns ((range d).foldlM (addError F rs d x row) sse) fun sse' =>
      sse'.length = d ∧ ∀ col < d, sse'[col]? = some
        (map₂ (· + ·) (e col) (squaredError F rs d x row col)) := by
  have hloop := Returns.foldlM_range (f := addError F rs d x row)
    (P := fun c sse => sse.length = d ∧ ∀ col < d, sse[col]? = some
      (if col < c then map₂ (· + ·) (e col) (squaredError F rs d x row col) else e col)) d ?_
    (s := sse) ⟨hlen, by simpa using hsse⟩
  · refine hloop.mono fun sse' h => ⟨h.1, fun col hcol => ?_⟩
    rw [h.2 col hcol, if_pos hcol]
  · rintro c hc sse ⟨hlen, hsse⟩
    have hbound : row * d + c < x.length := by
      rw [Nat.succ_mul] at hx
      omega
    have hcur := hsse c hc
    rw [if_neg (lt_irrefl c)] at hcur
    refine .of_eq (addError_eq h1 h2 hc hbound hcur) ⟨by simpa using hlen, ?_⟩
    intro col hcol
    rw [getElem?_set_of_lt (by omega)]
    by_cases hcc : c = col
    · subst hcc
      rw [if_pos rfl, if_pos (by omega)]
    · rw [if_neg hcc, hsse col hcol]
      by_cases hlt : col < c
      · rw [if_pos hlt, if_pos (by omega)]
      · rw [if_neg hlt, if_neg (by omega)]

lemma returns_residualSse (hx : n * d ≤ x.length) : Returns (residualSse F rs n d x) fun sse =>
      sse.length = d ∧ ∀ col < d, sse[col]? = some (baseError F rs d x n col) := by
  refine .foldlM_range (P := fun n (sse : List (Error K)) => sse.length = d ∧ ∀ col < d,
    sse[col]? = some (baseError F rs d x n col)) n ?_ ⟨by simp, ?_⟩
  · rintro row hrow sse ⟨hlen, hsse⟩
    have hle : (row + 1) * d ≤ x.length := (Nat.mul_le_mul_right d hrow).trans hx
    refine (returns_addErrors h1 h2 hle hlen hsse).mono fun sse' h => ⟨h.1, fun col hcol => ?_⟩
    rw [h.2 col hcol, baseError]
  · intro col hcol
    simp [hcol, baseError]

end

lemma isSome_baseError_iff (n col : ℕ) :
    (baseError F rs d x n col).isSome ↔ Numeric x n d col := by
  induction n with
  | zero => exact iff_of_true rfl fun row hrow => absurd hrow row.not_lt_zero
  | succ n ih =>
    have hsample : (squaredError F rs d x n col).isSome ↔ x.getD (n * d + col) .nan ≠ .nan := by
      rw [squaredError]
      cases x.getD (n * d + col) .nan <;> simp [squaredResidual]
    rw [baseError, numeric_succ_iff, ← ih, ← hsample]
    cases baseError F rs d x n col <;> cases squaredError F rs d x n col <;> simp

end Errors

/-! ### Ranking -/

omit [Field K] [FloorRing K] in
lemma ranksBefore_iff {a b : Error K × ℕ} (ha : a.1 = some u) (hb : b.1 = some v) :
    ranksBefore a b ↔ toLex (OrderDual.toDual u, a.2) < toLex (OrderDual.toDual v, b.2) := by
  rw [Prod.Lex.toLex_lt_toLex, ranksBefore, ha, hb]
  by_cases h : u = v
  · simp [h]
  · simp [h]

omit [Field K] [FloorRing K] in
lemma isSome_of_ranksBefore {a b : Error K × ℕ} (h : ranksBefore a b) :
    a.1.isSome ∧ b.1.isSome := by
  rw [ranksBefore] at h
  split at h
  · rename_i ha hb
    rw [ha, hb]
    exact ⟨rfl, rfl⟩
  · cases h

/-- All errors are numbers, or at most one of them is. -/
def Rankable (d : ℕ) (number : ℕ → Prop) : Prop :=
  (∀ i < d, number i) ∨ ∀ i < d, ∀ j < d, number i → number j → i = j

omit [FloorRing K] in
/-- The comparison orders the entries of a ranking exactly when they are rankable: what is no number
is equivalent to every number, and no two numbers are equivalent. -/
lemma strictWeakOn_ranksBefore_iff {d : ℕ} {error : ℕ → Error K} :
    StrictWeakOn ranksBefore ((range d).map fun i => (error i, i))
      ↔ Rankable d fun i => (error i).isSome := by
  constructor
  · intro hw
    by_contra hnot
    simp only [Rankable, not_or, not_forall] at hnot
    obtain ⟨⟨m, hm, hnan⟩, i, hi, j, hj, hi', hj', hij⟩ := hnot
    -- `m` is equivalent to `i` and to `j`, which are not equivalent
    have hmem : ∀ {i}, i < d → (error i, i) ∈ (range d).map fun i => (error i, i) :=
      fun hi => mem_map.mpr ⟨_, mem_range.mpr hi, rfl⟩
    have hnever : ∀ {i j}, i < d → j < d → ¬ ranksBefore (error i, i) (error j, j) :=
      fun hi hj => hw.negTrans _ (hmem hi) _ (hmem hm) _ (hmem hj)
        (fun h => hnan (isSome_of_ranksBefore h).2) fun h => hnan (isSome_of_ranksBefore h).1
    obtain ⟨u, hu⟩ := isSome_iff_exists.mp hi'
    obtain ⟨v, hv⟩ := isSome_iff_exists.mp hj'
    have h1 := hnever hi hj
    have h2 := hnever hj hi
    rw [ranksBefore_iff hu hv, not_lt] at h1
    rw [ranksBefore_iff hv hu, not_lt] at h2
    have heq := toLex.injective (le_antisymm h2 h1)
    exact hij (congrArg Prod.snd heq)
  · rintro (hall | hone)
    · refine .of_key (fun a => toLex (OrderDual.toDual (a.1.getD 0), a.2)) fun a ha b hb => ?_
      obtain ⟨i, hi, rfl⟩ := mem_map.mp ha
      obtain ⟨j, hj, rfl⟩ := mem_map.mp hb
      obtain ⟨u, hu⟩ := isSome_iff_exists.mp (hall i (mem_range.mp hi))
      obtain ⟨v, hv⟩ := isSome_iff_exists.mp (hall j (mem_range.mp hj))
      rw [ranksBefore_iff hu hv, hu, hv]
      rfl
    · -- nothing ranks before anything
      have hnever : ∀ a ∈ (range d).map fun i => (error i, i),
          ∀ b ∈ (range d).map fun i => (error i, i), ¬ ranksBefore a b := by
        intro a ha b hb hab
        obtain ⟨i, hi, rfl⟩ := mem_map.mp ha
        obtain ⟨j, hj, rfl⟩ := mem_map.mp hb
        obtain ⟨hu, hv⟩ := isSome_of_ranksBefore hab
        obtain rfl := hone i (mem_range.mp hi) j (mem_range.mp hj) hu hv
        obtain ⟨u, hu⟩ := isSome_iff_exists.mp hu
        exact lt_irrefl _ ((ranksBefore_iff hu hu).mp hab)
      exact ⟨fun a ha b hb hab => absurd hab (hnever a ha b hb),
        fun a ha b hb c hc _ _ => hnever a ha c hc⟩

section Ranking

variable {S : StdSort (Error K × ℕ)} {n d : ℕ} {sse : List (Error K)}
  {ranked : List (Error K × ℕ)}

omit [FloorRing K] in
lemma ranking_perm (h : ranking S n d sse = some ranked) :
    (ranked.map Prod.snd).Perm (range d) := by
  obtain ⟨entries, hentries, h⟩ := bind_eq_some_iff.mp h
  have hdims : entries.map Prod.snd = range d := by
    apply map_eq_of_mapM_eq_some hentries
    intro i e he
    obtain ⟨s, -, he⟩ := bind_eq_some_iff.mp he
    exact (congrArg Prod.snd (some.inj he)).symm
  exact hdims ▸ (S.sortRange_perm h).map Prod.snd

omit [FloorRing K] in
lemma ranking_eq (hn : 0 < n) {error : ℕ → Error K} (hsse : ∀ i < d, sse[i]? = some (error i)) :
    ranking S n d sse = S.sortRange ranksBefore
      ((range d).map fun i => ((error i).map (WithTop.map (· / (n : K))), i)) := by
  have hlist : ((range d).mapM fun i => do
      let s ← sse[i]?
      return ((if n = 0 then some 0 else s.map (WithTop.map (· / (n : K))) : Error K), i))
      = some ((range d).map fun i => ((error i).map (WithTop.map (· / (n : K))), i)) := by
    rw [mapM_eq_some_map_iff]
    intro i hi
    rw [hsse i (mem_range.mp hi)]
    simp only [some_bind, if_neg hn.ne']
    rfl
  rw [ranking, hlist]
  rfl

variable (hn : 0 < n) {error : ℕ → Error K} (hsse : ∀ i < d, sse[i]? = some (error i))

include hn hsse

omit [FloorRing K] in
lemma exists_ranking_iff :
    (∃ ranked, ranking S n d sse = some ranked) ↔ Rankable d fun i => (error i).isSome := by
  simp only [ranking_eq hn hsse, StdSort.sortRange_eq_some_iff, exists_and_left, exists_eq',
    and_true, strictWeakOn_ranksBefore_iff, isSome_map]

lemma ranking_sorted [IsStrictOrderedRing K] (h : ranking S n d sse = some ranked) :
    (ranked.map Prod.snd).Pairwise fun i j =>
      ∀ u v, error i = some u → error j = some v → v ≤ u := by
  rw [ranking_eq hn hsse] at h
  have hmem : ∀ a ∈ ranked, a.1 = (error a.2).map (WithTop.map (· / (n : K))) := by
    intro a ha
    obtain ⟨i, -, rfl⟩ := mem_map.mp ((S.sortRange_perm h).mem_iff.mp ha)
    rfl
  rw [pairwise_map]
  refine (S.sortRange_sorted h).imp_of_mem fun {a b} ha hb hab u v hu hv => ?_
  have ha' := hmem a ha
  have hb' := hmem b hb
  rw [hu, map_some] at ha'
  rw [hv, map_some] at hb'
  rw [ranksBefore_iff hb' ha', not_lt, Prod.Lex.toLex_le_toLex] at hab
  have hle : WithTop.map (· / (n : K)) v ≤ WithTop.map (· / (n : K)) u := by
    rcases hab with hlt | ⟨heq, -⟩
    · exact (OrderDual.toDual_lt_toDual.mp hlt).le
    · exact (OrderDual.toDual_inj.mp heq).ge
  rwa [WithTop.map_le_iff] at hle
  intro p q
  exact div_le_div_iff_of_pos_right (by exact_mod_cast hn)

end Ranking

/-! ### Selection -/

lemma returns_setWordBit (h : dim / 32 < words.length) :
    Returns (setWordBit words dim) fun words' => words'.length = words.length
      ∧ ∀ i, wordBit words' i = if i = dim then some true else wordBit words i := by
  obtain ⟨w, hw⟩ : ∃ w, words[dim / 32]? = some w := ⟨_, getElem?_eq_getElem h⟩
  refine .of_eq (by rw [setWordBit, modifyAt, hw]; rfl) ⟨length_set, fun i => ?_⟩
  rw [wordBit_eq, wordBit_eq, getElem?_set_of_lt h]
  by_cases hword : dim / 32 = i / 32
  · rw [if_pos hword, ← hword, hw, map_some, BitVec.getLsbD_or,
      ← BitVec.twoPow_eq, BitVec.getLsbD_twoPow]
    have hlt : dim % 32 < 32 := Nat.mod_lt _ (by decide)
    by_cases hi : i = dim
    · simp [hi, hlt]
    · have hne : dim % 32 ≠ i % 32 := by omega
      simp [hi, hne]
  · have hi : i ≠ dim := by
      rintro rfl
      exact hword rfl
    rw [if_neg hword, if_neg hi]

omit [Field K] [LinearOrder K] [FloorRing K] in
lemma returns_selectDims {ranked : List (Error K × ℕ)} (first count : ℕ)
    (hlen : first + count ≤ ranked.length) (hdim : ∀ e ∈ ranked, e.2 / 32 < L) :
    Returns (selectDims ranked first count (replicate L 0)) fun words => words.length = L
      ∧ ∀ i, i / 32 < L →
        wordBit words i = some (decide (i ∈ ((ranked.map Prod.snd).drop first).take count)) := by
  refine .foldlM_range (P := fun k (words : List (BitVec 32)) => words.length = L
    ∧ ∀ i, i / 32 < L →
      wordBit words i = some (decide (i ∈ ((ranked.map Prod.snd).drop first).take k))) count ?_ ?_
  · rintro k hk words ⟨hwords, hbits⟩
    obtain ⟨e, he⟩ : ∃ e, ranked[first + k]? = some e := ⟨_, getElem?_eq_getElem (by omega)⟩
    have hin : e.2 / 32 < words.length := hwords ▸ hdim e (mem_of_getElem? he)
    rw [he]
    refine (returns_setWordBit hin).mono fun words' h => ⟨h.1.trans hwords, fun i hi => ?_⟩
    have hnext : ((ranked.map Prod.snd).drop first)[k]? = some e.2 := by
      rw [getElem?_drop, getElem?_map, he]
      rfl
    rw [h.2 i, hbits i hi, take_add_one, hnext]
    by_cases hie : i = e.2
    · simp [hie]
    · simp [hie]
  · refine ⟨length_replicate, fun i hi => ?_⟩
    rw [wordBit_eq, getElem?_replicate, if_pos hi]
    simp

/-! ### Ranges -/

structure CleanRanges (F : FloatCodec K) (d : ℕ) (rs : Ranges) :
    Prop where
  vmin : rs.1.length = d
  vdiff : rs.2.length = d
  finite : ∀ v ∈ rs.2, F.isFinite v
  nonneg : ∀ v ∈ rs.2, 0 ≤ F.ofFloat v

omit [Field K] [LinearOrder K] [FloorRing K] in
lemma trainNonUniform_eq_ok {R : RangeTrainer K} {n d : ℕ} {x : List (Sample K)}
    {v : List (BitVec 32)} (h : trainNonUniform R n d x = .ok v) (hlen : v.length = 2 * d) :
    d < 2 ^ 30 := by
  obtain ⟨d', hd', h⟩ := bind_eq_ok.mp h
  split at h
  · cases h
  · rename_i hsmall
    cases h
    rw [R.length_run] at hlen
    omega

lemma baseRanges_eq_ok [IsStrictOrderedRing K] {F : FloatCodec K} {R : RangeTrainer K} {n d : ℕ}
    {x : List (Sample K)} {rs : Ranges}
    (h : baseRanges F R n d x = .ok rs) : CleanRanges F d rs ∧ (n ≠ 0 → d < 2 ^ 30) := by
  rw [baseRanges] at h
  split at h
  · rename_i hn
    obtain ⟨v, hv, h⟩ := bind_eq_ok.mp h
    split at h
    · cases h
    · rename_i hlen
      rw [not_not] at hlen
      cases h
      refine ⟨⟨by simp; omega, by simp; omega, ?_, ?_⟩, fun _ => trainNonUniform_eq_ok hv hlen⟩
      · intro w hw
        obtain ⟨u, -, rfl⟩ := mem_map.mp hw
        rw [cleanDiff]
        split
        · exact F.isFinite_zero
        · simp_all
      · intro w hw
        obtain ⟨u, -, rfl⟩ := mem_map.mp hw
        rw [cleanDiff]
        split
        · exact F.ofFloat_zero.ge
        · rename_i hu
          exact (not_le.mp (not_or.mp hu).2).le
  · rename_i hn
    cases h
    refine ⟨⟨by simp, by simp, ?_, ?_⟩, fun hn' => absurd hn' hn⟩
    · intro w hw
      rw [eq_of_mem_replicate hw]
      exact F.isFinite_one
    · intro w hw
      rw [eq_of_mem_replicate hw, F.ofFloat_one]
      exact zero_le_one

omit [FloorRing K] in
lemma exists_baseRanges (F : FloatCodec K) (R : RangeTrainer K) (n : ℕ) {d : ℕ} (hd : d < 2 ^ 30)
    (x : List (Sample K)) : ∃ rs, baseRanges F R n d x = .ok rs := by
  rw [baseRanges]
  split
  · have hrun : trainNonUniform R n d x = .ok (R.run n d x) := by
      rw [trainNonUniform, intIndex, Nat.mod_eq_of_lt (by omega), if_pos (by omega),
        defined_bind_some, if_neg (by omega)]
      rfl
    rw [hrun, ok_bind, if_neg (not_not.mpr (R.length_run n d x))]
    exact ⟨_, rfl⟩
  · exact ⟨_, rfl⟩

/-! ### Runs -/

variable {F : FloatCodec K} {R : RangeTrainer K} {S : StdSort (Error K × ℕ)} {n d : ℕ}
  {x : List (Sample K)} {t : Trained} {rs : Ranges} {ranked : List (Error K × ℕ)}
  {w16 w32 : List (BitVec 32)}

/-- A training that succeeds, with its intermediate results. -/
structure Run (F : FloatCodec K) (R : RangeTrainer K) (S : StdSort (Error K × ℕ)) (n d : ℕ)
    (x : List (Sample K)) (t : Trained) (rs : Ranges) (ranked : List (Error K × ℕ))
    (w16 w32 : List (BitVec 32)) : Prop where
  ranges_eq : baseRanges F R n d x = .ok rs
  ranked_eq : ∃ sse, residualSse F rs n d x = some sse ∧ ranking S n d sse = some ranked
  words32_eq : selectDims ranked 0 (fp32Dims n d) (List.replicate ((d + 31) / 32) 0) = some w32
  words16_eq : selectDims ranked (fp32Dims n d) (fp16Dims n d) (List.replicate ((d + 31) / 32) 0)
    = some w16
  trained_eq : t.trained = metadata F d rs w16 w32
  codeSize_eq : hybridCodeSizeFromTrained F d t.trained = .ok t.codeSize

lemma train_eq_ok_iff : train F R S n d x = .ok t
    ↔ ∃ rs ranked w16 w32, Run F R S n d x t rs ranked w16 w32 := by
  constructor
  · intro h
    obtain ⟨rs, hranges, h⟩ := bind_eq_ok.mp h
    obtain ⟨sse, hsse, h⟩ := bind_eq_ok.mp h
    obtain ⟨ranked, hranked, h⟩ := bind_eq_ok.mp h
    obtain ⟨w32, hw32, h⟩ := bind_eq_ok.mp h
    obtain ⟨w16, hw16, h⟩ := bind_eq_ok.mp h
    obtain ⟨codeSize, hcodeSize, ⟨⟩⟩ := bind_eq_ok.mp h
    rw [defined_eq_ok] at hsse hranked hw32 hw16
    exact ⟨rs, ranked, w16, w32, hranges, ⟨sse, hsse, hranked⟩, hw32, hw16, rfl, hcodeSize⟩
  · rintro ⟨rs, ranked, w16, w32, hrun⟩
    obtain ⟨sse, hsse, hranked⟩ := hrun.ranked_eq
    have hsize : setDerivedSizes F d (metadata F d rs w16 w32) = .ok t.codeSize := by
      rw [← hrun.codeSize_eq, hrun.trained_eq]
      rfl
    dsimp only [train]
    rw [hrun.ranges_eq, ok_bind, hsse, defined_bind_some, hranked, defined_bind_some,
      hrun.words32_eq, defined_bind_some, hrun.words16_eq, defined_bind_some, hsize,
      ← hrun.trained_eq]
    rfl

/-! ### The bitmaps -/

lemma dims_le (n d : ℕ) : fp32Dims n d + fp16Dims n d ≤ d := by
  have h32 : fp32Dims n d ≤ d := min_le_right _ _
  have h16 : fp16Dims n d ≤ d - fp32Dims n d := min_le_right _ _
  omega

/-- The bitmaps cut the ranked components into the two pools and the rest. -/
structure Divides (dims : List ℕ) (n d : ℕ) (w16 w32 : List (BitVec 32)) : Prop where
  length16 : w16.length = (d + 31) / 32
  length32 : w32.length = (d + 31) / 32
  bit16 : ∀ i, i / 32 < (d + 31) / 32 →
    wordBit w16 i = some (decide (i ∈ (dims.drop (fp32Dims n d)).take (fp16Dims n d)))
  bit32 : ∀ i, i / 32 < (d + 31) / 32 →
    wordBit w32 i = some (decide (i ∈ dims.take (fp32Dims n d)))

/-- Where the words of a bitmap have their bits, a pool made of them has them too. -/
lemma isSet_iff_of_words {r : RankedBits w} {words : List (BitVec 32)} {chosen : List ℕ}
    (hlen : r.bits.length = d) (hbits : ∀ i < d, wordBit words i = r.bits[i]?)
    (hchosen : ∀ i ∈ chosen, i < d)
    (hwords : ∀ i, i / 32 < (d + 31) / 32 → wordBit words i = some (decide (i ∈ chosen))) (i : ℕ) :
    IsSet r.bits i ↔ i ∈ chosen := by
  constructor
  · intro hset
    have hi : i < d := (r.lt_length hset).trans_eq hlen
    rw [IsSet, ← hbits i hi, hwords i (by omega)] at hset
    simpa using hset
  · intro hmem
    have hi := hchosen i hmem
    rw [IsSet, ← hbits i hi, hwords i (by omega), decide_eq_true hmem]

section Divides

variable {dims : List ℕ}

omit [Field K] [LinearOrder K] [FloorRing K] in
lemma exists_divides (hperm : (ranked.map Prod.snd).Perm (range d)) :
    ∃ w16 w32, selectDims ranked 0 (fp32Dims n d) (replicate ((d + 31) / 32) 0) = some w32
      ∧ selectDims ranked (fp32Dims n d) (fp16Dims n d) (replicate ((d + 31) / 32) 0)
        = some w16
      ∧ Divides (ranked.map Prod.snd) n d w16 w32 := by
  have hlen : ranked.length = d := by simpa using hperm.length_eq
  have hdims := dims_le n d
  have hdim : ∀ e ∈ ranked, e.2 / 32 < (d + 31) / 32 := by
    intro e he
    have hmem : e.2 ∈ range d := hperm.mem_iff.mp (mem_map_of_mem he)
    have hlt := mem_range.mp hmem
    omega
  obtain ⟨w32, hw32, hlen32, hbit32⟩ := returns_selectDims 0 (fp32Dims n d) (by omega) hdim
  obtain ⟨w16, hw16, hlen16, hbit16⟩ :=
    returns_selectDims (fp32Dims n d) (fp16Dims n d) (by omega) hdim
  exact ⟨w16, w32, hw32, hw16, hlen16, hlen32, hbit16, hbit32⟩

variable (hperm : dims.Perm (List.range d)) (hdiv : Divides dims n d w16 w32)
include hperm hdiv

lemma Divides.exists_fillPools : ∃ p, fillPools d w16 w32 = .ok p := by
  apply QuantizerHybrid.exists_fillPools
  intro i hi
  refine ⟨_, _, hdiv.bit16 i (by omega), hdiv.bit32 i (by omega), ?_⟩
  rw [decide_eq_true_eq, decide_eq_true_eq]
  rintro ⟨h16, h32⟩
  have hnodup : dims.Nodup := hperm.nodup_iff.mpr nodup_range
  rw [← take_append_drop (fp32Dims n d) dims, nodup_append] at hnodup
  exact hnodup.2.2 i h32 i (mem_of_mem_take h16) rfl

variable {p : ResidualPools} (hp : fillPools d w16 w32 = .ok p)
include hp

lemma Divides.isSet16_iff (i : ℕ) :
    IsSet p.fp16.bits i ↔ i ∈ (dims.drop (fp32Dims n d)).take (fp16Dims n d) := by
  obtain ⟨hlen, h16, -⟩ := fillPools_eq_ok hp
  exact isSet_iff_of_words hlen h16
    (fun i hi => mem_range.mp (hperm.mem_iff.mp (mem_of_mem_drop (mem_of_mem_take hi))))
    hdiv.bit16 i

lemma Divides.isSet32_iff (i : ℕ) : IsSet p.fp32.bits i ↔ i ∈ dims.take (fp32Dims n d) := by
  obtain ⟨hlen, -, h32⟩ := fillPools_eq_ok hp
  exact isSet_iff_of_words (p.length_eq.symm.trans hlen) h32
    (fun i hi => mem_range.mp (hperm.mem_iff.mp (mem_of_mem_take hi))) hdiv.bit32 i

lemma Divides.count_eq : p.fp16.count = fp16Dims n d ∧ p.fp32.count = fp32Dims n d := by
  have hnodup : dims.Nodup := hperm.nodup_iff.mpr nodup_range
  have hlen : dims.length = d := by simpa using hperm.length_eq
  have hdims := dims_le n d
  rw [p.fp16.count_eq_length ((hnodup.sublist (drop_sublist _ _)).sublist
    (take_sublist _ _)) (hdiv.isSet16_iff hperm hp), p.fp32.count_eq_length
    (hnodup.sublist (take_sublist _ _)) (hdiv.isSet32_iff hperm hp), length_take, length_take,
    length_drop]
  omega

end Divides

/-! ### Trained quantisers -/

/-- The square of what the base of the quantiser misses of a training value. -/
def sampleError (F : FloatCodec K) (q : QuantizerHybrid) (i : ℕ) : Sample K → WithTop K
  | .finite v => ↑(q.residual F i v ^ 2)
  | _ => ⊤

def trainingError (F : FloatCodec K) (q : QuantizerHybrid) (n : ℕ) (x : List (Sample K)) (i : ℕ) :
    WithTop K :=
  ∑ row ∈ Finset.range n, sampleError F q i (x.getD (row * q.d + i) .nan)

/-- The error of `j` is not larger than that of `i`.  One that is no number compares to none. -/
def NoLarger (F : FloatCodec K) (q : QuantizerHybrid) (n : ℕ) (x : List (Sample K)) (j i : ℕ) :
    Prop :=
  Numeric x n q.d j → Numeric x n q.d i → trainingError F q n x j ≤ trainingError F q n x i

section

variable {q : QuantizerHybrid}
  (hclean : CleanRanges F q.d rs) (hmin : q.vmin = rs.1) (hdiff : q.vdiff = rs.2)
  {i : ℕ} (hi : i < q.d)

include hclean hdiff hi

omit [FloorRing K] in
lemma degenerate_iff : degenerate F (q.vdiff.getD i 0) = true
    ↔ ¬ 0 < F.ofFloat (q.vdiff.getD i 0) := by
  have hvdiff : q.vdiff.getD i 0 ∈ rs.2 := by
    rw [hdiff]
    exact mem_of_getElem? (getElem?_eq_getD (hi.trans_eq hclean.vdiff.symm) 0)
  rw [degenerate, hclean.finite _ hvdiff, decide_eq_true_eq]
  exact ⟨fun h => h.resolve_right (not_not.mpr rfl), .inl⟩

include hmin

lemma reconstructed_eq (v : K) :
    reconstructed (F.ofFloat (rs.1.getD i 0)) (F.ofFloat (rs.2.getD i 0)) v
      = q.baseValue F i (q.baseByte F i v) := by
  have hdegenerate := degenerate_iff hclean hdiff hi
  rw [reconstructed, baseValue, baseByte, ← hmin, ← hdiff]
  by_cases hpos : 0 < F.ofFloat (q.vdiff.getD i 0)
  · have hnot : ¬ degenerate F (q.vdiff.getD i 0) = true := fun h => hdegenerate.mp h hpos
    rw [if_pos hpos, if_neg hnot, if_neg hnot]
  · rw [if_neg hpos, if_pos (hdegenerate.mpr hpos)]
    simp

lemma squaredResidual_eq {v : Sample K} (hv : v ≠ .nan) :
    squaredResidual (F.ofFloat (rs.1.getD i 0)) (F.ofFloat (rs.2.getD i 0)) v
      = some (sampleError F q i v) := by
  cases v with
  | finite v =>
    rw [squaredResidual, reconstructed_eq hclean hmin hdiff hi, sampleError, sq]
    rfl
  | infinite => rfl
  | nan => exact absurd rfl hv

lemma baseError_eq (hnum : Numeric x n q.d i) :
    baseError F rs q.d x n i = some (trainingError F q n x i) := by
  induction n with
  | zero => rfl
  | succ n ih =>
    rw [numeric_succ_iff] at hnum
    rw [baseError, ih hnum.1, squaredError, squaredResidual_eq hclean hmin hdiff hi hnum.2,
      map₂_some_some]
    exact congrArg some (Finset.sum_range_succ _ n).symm

end

section Trained

variable (hrun : Run F R S n d x t rs ranked w16 w32)

include hrun in
lemma Run.perm : (ranked.map Prod.snd).Perm (range d) := by
  obtain ⟨sse, -, hranked⟩ := hrun.ranked_eq
  exact ranking_perm hranked

include hrun in
lemma Run.divides : Divides (ranked.map Prod.snd) n d w16 w32 := by
  obtain ⟨v16, v32, hv32, hv16, hdiv⟩ := exists_divides (n := n) hrun.perm
  rw [hrun.words32_eq, some.injEq] at hv32
  rw [hrun.words16_eq, some.injEq] at hv16
  rwa [hv16, hv32]

variable [IsStrictOrderedRing K]

include hrun in
lemma Run.exists_make :
    ∃ q, make F d t.trained = .ok q ∧ q.codeSize = t.codeSize ∧ Accepted F d t.trained q
      ∧ q.vmin = rs.1 ∧ q.vdiff = rs.2 ∧ fillPools d w16 w32 = .ok q.pools := by
  obtain ⟨q, hq, hsize⟩ := bind_eq_ok.mp hrun.codeSize_eq
  have hacc := accepted_of_make hq
  have hclean := (baseRanges_eq_ok hrun.ranges_eq).1
  have hpools := hacc.pools
  refine ⟨q, hq, Except.ok.inj hsize, hacc, ?_, ?_, ?_⟩
  · rw [hacc.vmin, hrun.trained_eq, vmin_metadata hclean.vmin]
  · rw [hacc.vdiff, hrun.trained_eq, vdiff_metadata hclean.vmin hclean.vdiff]
  · rwa [hrun.trained_eq, words16_metadata hclean.vmin hclean.vdiff hrun.divides.length16,
      words32_metadata hclean.vmin hclean.vdiff hrun.divides.length16 hrun.divides.length32]
      at hpools

/-- What the tile decoder relies on: `train` leaves no width that is negative or not finite, and
numbers the components of the first pool with 32 bits. -/
lemma train_sound (h : train F R S n d x = .ok t) : ∃ q, make F d t.trained = .ok q
    ∧ q.WellFormed ∧ SoundWidths F q ∧ q.RanksNumbered := by
  obtain ⟨rs, ranked, w16, w32, hrun⟩ := train_eq_ok_iff.mp h
  obtain ⟨q, hq, -, hacc, -, hdiff, hpools⟩ := hrun.exists_make
  obtain ⟨hclean, hd⟩ := baseRanges_eq_ok hrun.ranges_eq
  refine ⟨q, hq, hacc.wellFormed, ?_, ranksNumbered_of_count_lt hacc.wellFormed ?_⟩
  · intro v hv
    rw [hdiff] at hv
    rcases (hclean.nonneg v hv).eq_or_lt with hzero | hpos
    · exact .inl hzero.symm
    · exact .inr ⟨hpos, hclean.finite v hv⟩
  · have hdims := dims_le n d
    rw [(hrun.divides.count_eq hrun.perm hpools).1]
    rcases Nat.eq_zero_or_pos n with rfl | hn
    · simp [fp16Dims]
    · omega

/-- **Trained quantisers are faithful.** -/
theorem train_faithful (h : train F R S n d x = .ok t) : ∃ q, make F d t.trained = .ok q
    ∧ (∀ v ∈ q.vdiff, F.isFinite v) ∧ Faithful F q := by
  obtain ⟨rs, ranked, w16, w32, hrun⟩ := train_eq_ok_iff.mp h
  obtain ⟨q, hq, -, hacc, -, hdiff, hpools⟩ := hrun.exists_make
  obtain ⟨hclean, hd⟩ := baseRanges_eq_ok hrun.ranges_eq
  have hdims := dims_le n d
  obtain ⟨h16, h32⟩ := hrun.divides.count_eq hrun.perm hpools
  -- the number of dimensions is limited only if there was something to train with
  have hsmall : fp32Dims n d + fp16Dims n d ≤ 2 ^ 32 := by
    rcases Nat.eq_zero_or_pos n with rfl | hn
    · simp [fp32Dims, fp16Dims]
    · omega
  refine ⟨q, hq, hdiff ▸ hclean.finite, faithful_of_count_le hacc.wellFormed ?_ ?_⟩
  · omega
  · omega

structure WellTrained (F : FloatCodec K) (n d : ℕ) (x : List (Sample K)) (t : Trained)
    (q : QuantizerHybrid) :
    Prop where
  accepted : make F d t.trained = .ok q
  disjoint : ∀ i, ¬ (IsSet q.pools.fp16.bits i ∧ IsSet q.pools.fp32.bits i)
  count32 : q.pools.fp32.count = ⌈(d : ℚ) / 100⌉₊
  count16 : q.pools.fp16.count = min ⌈(d : ℚ) / 10⌉₊ (d - ⌈(d : ℚ) / 100⌉₊)
  /-- What is in no pool has no larger error than what is in one. -/
  selected : ∀ i < d, IsSet q.pools.fp16.bits i ∨ IsSet q.pools.fp32.bits i →
    ∀ j < d, ¬ (IsSet q.pools.fp16.bits j ∨ IsSet q.pools.fp32.bits j) →
      NoLarger F q n x j i
  /-- What is stored in 16 bits has no larger error than what is stored in 32. -/
  fp32_first : ∀ i j, IsSet q.pools.fp32.bits i → IsSet q.pools.fp16.bits j →
    NoLarger F q n x j i
  /-- The bits of a bitmap's last word that stand for no component are not set. -/
  no_bit_beyond : ∀ i, d ≤ i → i < 32 * ((d + 31) / 32) →
    wordBit (words16 d t.trained) i = some false ∧ wordBit (words32 d t.trained) i = some false
  codeSize : hybridCodeSizeFromTrained F d t.trained = .ok t.codeSize

lemma fp32Dims_eq (hn : 0 < n) (d : ℕ) : fp32Dims n d = ⌈(d : ℚ) / 100⌉₊ := by
  have hle : ⌈(d : ℚ) / 100⌉₊ ≤ d := by
    rw [Nat.ceil_le]
    linarith
  rw [fp32Dims]
  rcases Nat.eq_zero_or_pos d with rfl | hd
  · simp
  · rw [if_neg (by omega), min_eq_left hle]

lemma fp16Dims_eq (hn : 0 < n) (d : ℕ) :
    fp16Dims n d = min ⌈(d : ℚ) / 10⌉₊ (d - ⌈(d : ℚ) / 100⌉₊) := by
  rw [fp16Dims, fp32Dims_eq hn]
  rcases Nat.eq_zero_or_pos d with rfl | hd
  · simp
  · rw [if_neg (by omega)]

section

variable (hrun : Run F R S n d x t rs ranked w16 w32)

include hrun

lemma Run.sorted (hn : 0 < n)
    (hx : x.length = n * d) {q : QuantizerHybrid} (hd : q.d = d) (hmin : q.vmin = rs.1)
    (hdiff : q.vdiff = rs.2) :
    (ranked.map Prod.snd).Pairwise fun i j => NoLarger F q n x j i := by
  have hclean := (baseRanges_eq_ok hrun.ranges_eq).1
  obtain ⟨sse, hsse, hranked⟩ := hrun.ranked_eq
  obtain ⟨sse', hsse', -, herrors⟩ := returns_residualSse (F := F) hclean.vmin hclean.vdiff hx.ge
  obtain rfl := mem_unique hsse hsse'
  refine (ranking_sorted hn herrors hranked).imp_of_mem fun {i j} hi hj hij hnumj hnumi => ?_
  subst hd
  exact hij _ _
    (baseError_eq hclean hmin hdiff (mem_range.mp (hrun.perm.mem_iff.mp hi)) hnumi)
    (baseError_eq hclean hmin hdiff (mem_range.mp (hrun.perm.mem_iff.mp hj)) hnumj)

lemma Run.rankable (hn : 0 < n) (hx : x.length = n * d) : Rankable d (Numeric x n d) := by
  have hclean := (baseRanges_eq_ok hrun.ranges_eq).1
  obtain ⟨sse, hsse, hranked⟩ := hrun.ranked_eq
  obtain ⟨sse', hsse', -, herrors⟩ := returns_residualSse (F := F) hclean.vmin hclean.vdiff hx.ge
  obtain rfl := mem_unique hsse hsse'
  simpa only [isSome_baseError_iff] using (exists_ranking_iff hn herrors).mp ⟨_, hranked⟩

lemma Run.wellTrained (hn : 0 < n) (hx : x.length = n * d) : ∃ q, WellTrained F n d x t q := by
  obtain ⟨q, hq, -, hacc, hmin, hdiff, hpools⟩ := hrun.exists_make
  have hclean := (baseRanges_eq_ok hrun.ranges_eq).1
  have hdiv := hrun.divides
  have hperm := hrun.perm
  have hsorted := hrun.sorted hn hx hacc.d_eq hmin hdiff
  have h16 := hdiv.isSet16_iff hperm hpools
  have h32 := hdiv.isSet32_iff hperm hpools
  -- the ranking is cut into the two pools and the rest
  set dims := ranked.map Prod.snd
  set rest := dims.drop (fp32Dims n d)
  have hcut : dims = dims.take (fp32Dims n d) ++ (rest.take (fp16Dims n d)
      ++ rest.drop (fp16Dims n d)) := by
    rw [take_append_drop, take_append_drop]
  rw [hcut, pairwise_append, pairwise_append] at hsorted
  obtain ⟨-, ⟨-, -, hmiddle⟩, hfirst⟩ := hsorted
  have hrest : ∀ j < d, ¬ (IsSet q.pools.fp16.bits j ∨ IsSet q.pools.fp32.bits j) →
      j ∈ rest.drop (fp16Dims n d) := by
    intro j hj hnot
    have hmem : j ∈ dims := hperm.mem_iff.mpr (mem_range.mpr hj)
    rw [hcut, mem_append, mem_append, ← h16, ← h32] at hmem
    tauto
  refine ⟨q, {
    accepted := hq
    disjoint := q.pools.disjoint
    count32 := (hdiv.count_eq hperm hpools).2.trans (fp32Dims_eq hn d)
    count16 := (hdiv.count_eq hperm hpools).1.trans (fp16Dims_eq hn d)
    selected := ?_
    fp32_first := ?_
    no_bit_beyond := ?_
    codeSize := hrun.codeSize_eq }⟩
  · intro i _ hset j hj hnot
    rcases hset with hset | hset
    · exact hmiddle i ((h16 i).mp hset) j (hrest j hj hnot)
    · exact hfirst i ((h32 i).mp hset) j (mem_append_right _ (hrest j hj hnot))
  · intro i j hi hj
    exact hfirst i ((h32 i).mp hi) j (mem_append_left _ ((h16 j).mp hj))
  · intro i hlow hhigh
    have hnot : i ∉ dims := by
      rw [hperm.mem_iff, mem_range]
      omega
    rw [hrun.trained_eq, words16_metadata hclean.vmin hclean.vdiff hdiv.length16,
      words32_metadata hclean.vmin hclean.vdiff hdiv.length16 hdiv.length32,
      hdiv.bit16 i (by omega), hdiv.bit32 i (by omega)]
    exact ⟨congrArg some (decide_eq_false fun h =>
        hnot (mem_of_mem_drop (mem_of_mem_take h))),
      congrArg some (decide_eq_false fun h => hnot (mem_of_mem_take h))⟩

lemma Run.words_dvd
    (hd : (d + 31) / 32 < 2 ^ 64) : 2 ^ (((d + 31) / 32).size - 24) ∣ (d + 31) / 32 := by
  obtain ⟨q, -, -, hacc, -⟩ := hrun.exists_make
  obtain ⟨v, hv, hcount⟩ := hacc.count16
  rw [hrun.trained_eq] at hv
  cases hv
  exact (readWordCount_ofSize F hd).mp hcount

end

lemma exists_train_eq (F : FloatCodec K) (R : RangeTrainer K) (S : StdSort (Error K × ℕ))
    (hn : 0 < n) (hx : x.length = n * d) (hd : d < 2 ^ 30)
    (hrankable : Rankable d (Numeric x n d)) : ∃ rs w16 w32 p,
      fillPools d (words16 d (metadata F d rs w16 w32))
        (words32 d (metadata F d rs w16 w32))
        = .ok p
      ∧ (metadata F d rs w16 w32).length = 2 + 2 * d + (d + 31) / 32 + (d + 31) / 32
      ∧ train F R S n d x = hybridCodeSizeFromTrained F d (metadata F d rs w16 w32) >>= fun s =>
        .ok ⟨metadata F d rs w16 w32, s⟩ := by
  obtain ⟨rs, hranges⟩ := exists_baseRanges F R n hd x
  have hclean := (baseRanges_eq_ok hranges).1
  obtain ⟨sse, hsse, -, herrors⟩ := returns_residualSse (F := F) hclean.vmin hclean.vdiff hx.ge
  obtain ⟨ranked, hranked⟩ := (exists_ranking_iff (S := S) hn herrors).mpr
    (by simpa only [isSome_baseError_iff] using hrankable)
  have hperm := ranking_perm hranked
  obtain ⟨w16, w32, hw32, hw16, hdiv⟩ := exists_divides (n := n) hperm
  obtain ⟨p, hp⟩ := hdiv.exists_fillPools hperm
  refine ⟨rs, w16, w32, p, ?_, ?_, ?_⟩
  · rwa [words16_metadata hclean.vmin hclean.vdiff hdiv.length16,
      words32_metadata hclean.vmin hclean.vdiff hdiv.length16 hdiv.length32]
  · simp only [metadata, length_append, hclean.vmin, hclean.vdiff, hdiv.length16,
      hdiv.length32, length_cons, length_nil]
    omega
  · dsimp only [train]
    rw [hranges, ok_bind, hsse, defined_bind_some, hranked, defined_bind_some, hw32, hw16,
      defined_bind_some]
    rfl

lemma exists_train (F : FloatCodec K) (R : RangeTrainer K) (S : StdSort (Error K × ℕ))
    (hn : 0 < n) (hx : x.length = n * d) (hd : d < 2 ^ 30)
    (hwords : 2 ^ (((d + 31) / 32).size - 24) ∣ (d + 31) / 32)
    (hrankable : Rankable d (Numeric x n d)) : ∃ t, train F R S n d x = .ok t := by
  obtain ⟨rs, w16, w32, p, hp, hlen, htrain⟩ := exists_train_eq F R S hn hx hd hrankable
  have hcount := (readWordCount_ofSize F (n := (d + 31) / 32) (by omega)).mpr hwords
  obtain ⟨q, hq⟩ := exists_make rfl hcount rfl hcount hlen.ge hp
  refine ⟨⟨metadata F d rs w16 w32, q.codeSize⟩, ?_⟩
  rw [htrain, hybridCodeSizeFromTrained, hq]
  rfl

/-- **Training** gives a quantiser that keeps to its budgets, and spends them on the components with
the largest errors, if and only if the dimension is below `2 ^ 30`, the number of words of a bitmap
is a `float`, and values that are no numbers do not keep two components from being compared. -/
theorem wellTrained_iff (F : FloatCodec K) (R : RangeTrainer K) (S : StdSort (Error K × ℕ))
    (hn : 0 < n) (hx : x.length = n * d) :
    (∃ t q, train F R S n d x = .ok t ∧ WellTrained F n d x t q)
      ↔ d < 2 ^ 30 ∧ 2 ^ (((d + 31) / 32).size - 24) ∣ (d + 31) / 32
        ∧ Rankable d (Numeric x n d) := by
  constructor
  · rintro ⟨t, q, htrain, -⟩
    obtain ⟨rs, ranked, w16, w32, hrun⟩ := train_eq_ok_iff.mp htrain
    have hd : d < 2 ^ 30 := (baseRanges_eq_ok hrun.ranges_eq).2 hn.ne'
    exact ⟨hd, hrun.words_dvd (by omega), hrun.rankable hn hx⟩
  · rintro ⟨hd, hwords, hrankable⟩
    obtain ⟨t, hok⟩ := exists_train F R S hn hx hd hwords hrankable
    obtain ⟨rs, ranked, w16, w32, hrun⟩ := train_eq_ok_iff.mp hok
    obtain ⟨q, hwell⟩ := hrun.wellTrained hn hx
    exact ⟨t, q, hok, hwell⟩

end Trained

/-- Every component ranges over the unit interval. -/
def unitRanges : RangeTrainer K where
  run _ d _ := List.replicate d 0 ++ List.replicate d 0x3F800000
  length_run _ d _ := by
    rw [List.length_append, List.length_replicate, List.length_replicate]
    omega

/-- Two training vectors, whose errors grow with the component; one component is infinite. -/
def twoVectors : List (Sample ℚ) :=
  (List.range 24).map fun k => if k = 5 then .infinite true else .finite (k / 7)

lemma numeric_twoVectors : Rankable 12 (Numeric twoVectors 2 12) := by
  refine .inl ?_
  unfold Numeric
  decide +kernel

theorem train_two_vectors : ∃ t q,
    train FloatCodec.ieee unitRanges StdSort.insertion 2 12 twoVectors = .ok t
      ∧ WellTrained FloatCodec.ieee 2 12 twoVectors t q :=
  (wellTrained_iff ieee unitRanges StdSort.insertion (by decide) rfl).mpr
    ⟨by decide, by decide, numeric_twoVectors⟩

/-- In this dimension a bitmap has `2 ^ 24 + 1` words, which is no `float`. -/
theorem train_rejected :
    train FloatCodec.ieee unitRanges StdSort.insertion 1 536870944
      (List.replicate 536870944 (.finite 0))
      = .error (.thrown "MPMI bitmap dimensions do not match the quantizer") := by
  have hrankable : Rankable 536870944
      (Numeric (replicate 536870944 (Sample.finite (0 : ℚ))) 1 536870944) := by
    refine .inl fun i hi row hrow => ?_
    rw [List.getD_eq_getElem?_getD, getElem?_replicate, if_pos (by omega)]
    exact nofun
  obtain ⟨rs, w16, w32, p, -, hlen, htrain⟩ := exists_train_eq ieee
    unitRanges StdSort.insertion (n := 1) (d := 536870944)
    (x := replicate 536870944 (.finite 0)) (by decide) length_replicate (by decide) hrankable
  have hcount : readWordCount ieee (ieee.ofSize 16777217) = .ok 16777216 := by
    decide +kernel
  have hmake : make ieee 536870944 (metadata ieee 536870944 rs w16 w32)
      = .error (.thrown "MPMI bitmap dimensions do not match the quantizer") :=
    make_eq_error rfl hcount rfl hcount (by omega) (by decide)
  rw [htrain, hybridCodeSizeFromTrained, hmake]
  rfl

theorem train_faithful_two_vectors : ∃ t,
    train FloatCodec.ieee unitRanges StdSort.insertion 2 12 twoVectors = .ok t
      ∧ ∃ q, make FloatCodec.ieee 12 t.trained = .ok q
        ∧ (∀ v ∈ q.vdiff, FloatCodec.ieee.isFinite v) ∧ Faithful FloatCodec.ieee q := by
  obtain ⟨t, ht⟩ := exists_train ieee unitRanges StdSort.insertion (n := 2) (d := 12)
    (x := twoVectors) (by decide) rfl (by decide) (by decide) numeric_twoVectors
  exact ⟨t, ht, train_faithful ht⟩

end Rvanns.Faiss.HybridTraining
