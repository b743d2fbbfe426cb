import Rvanns.Faiss.Equiv.ScalarQuantizerCodec
import Rvanns.Rvv.Pieces

/-!
# The vector distance computer against the scalar one

Each operand of a distance delivers the values of its components (`Operand.Reads`), so that the
loops of `DCTemplate_rvv` are sums in four accumulators, of which each turn adds some pieces.
-/

namespace Rvanns.Faiss

open Cpp Literals Rvv List

variable {K : Type} [Field K]

/-! ### The scalar computer -/

section Scalar

variable {F : FloatFormat K} {Q : Quantizer K} {sim : Similarity} (hd : Q.d ≤ 2 ^ 31)
include hd

lemma Quantizer.computeDistance_eq {x : List K} {code : Code} (hfits : Q.Fits code)
    (hx : x.length = Q.d) : Q.computeDistance F sim x code
      = some (∑ i ∈ Finset.range Q.d, sim.term (x.getD i 0) (Q.value F code i)) := by
  apply foldlM_sum
  intro i hi accu
  rw [Q.reconstructComponent_eq F hfits hi (by omega), getElem?_eq_getD (hi.trans_eq hx.symm) 0]
  rfl

lemma Quantizer.computeCodeDistance_eq {code1 code2 : Code} (h1 : Q.Fits code1)
    (h2 : Q.Fits code2) : Q.computeCodeDistance F sim code1 code2
      = some (∑ i ∈ Finset.range Q.d, sim.term (Q.value F code1 i) (Q.value F code2 i)) := by
  apply foldlM_sum
  intro i hi accu
  rw [Q.reconstructComponent_eq F h1 hi (by omega), Q.reconstructComponent_eq F h2 hi (by omega)]
  rfl

end Scalar

lemma Quantizer.le_of_computeDistance {Q : Quantizer K}
    (h : Q.computeDistance F sim x code = some v) : Q.d ≤ 2 ^ 31 := by
  by_contra hd
  obtain ⟨n, hn⟩ : ∃ n, Q.d = 2 ^ 31 + 1 + n := ⟨Q.d - (2 ^ 31 + 1), by omega⟩
  rw [Quantizer.computeDistance, hn, range_add, foldlM_append] at h
  obtain ⟨accu, haccu, -⟩ := Option.bind_eq_some_iff.mp h
  rw [range_succ, foldlM_append] at haccu
  obtain ⟨accu', -, ⟨⟩⟩ := Option.bind_eq_some_iff.mp haccu

/-! ### Operands -/

structure Operand.Reads (H : Hardware) (narrow : Bool) (a : Operand K) (g : ℕ → K) (d : ℕ) :
    Prop where
  four : ∀ i, i + 4 * H.vlmax .m2 ≤ d → a.four i = .ok
    ![(range (H.vlmax .m2)).map fun k => g (i + k),
      (range (H.vlmax .m2)).map fun k => g (i + H.vlmax .m2 + k),
      (range (H.vlmax .m2)).map fun k => g (i + 2 * H.vlmax .m2 + k),
      (range (H.vlmax .m2)).map fun k => g (i + 3 * H.vlmax .m2 + k)]
  one : narrow = true → ∀ s : Strip, 0 < s.len → s.offset + s.len ≤ d →
    a.one s = .ok ((range s.len).map fun k => g (s.offset + k))
  two : narrow = false → ∀ s : Strip, 0 < s.len → s.offset + s.len ≤ d →
    a.two s = .ok
      ((range (splitVl (H.vlmax .m2) s.len).1).map fun k => g (s.offset + k),
        (range (splitVl (H.vlmax .m2) s.len).2).map fun k =>
          g (s.offset + (splitVl (H.vlmax .m2) s.len).1 + k))

lemma splitVl_add (v vl : ℕ) : (splitVl v vl).1 + (splitVl v vl).2 = vl := by
  dsimp only [splitVl]
  split <;> omega

lemma splitVl_fst (v vl : ℕ) : (splitVl v vl).1 = min v vl := by
  dsimp only [splitVl]
  split <;> omega

section Operands

variable {H : Hardware} {d : ℕ}

lemma queryOperand_reads (narrow : Bool) {x : List K} (hx : x.length = d) :
    (queryOperand H x).Reads H narrow (fun i => x.getD i 0) d where
  four i hi := by
    dsimp only [queryOperand]
    rw [vle_eq_getD (by omega) 0, vle_eq_getD (by omega) 0, vle_eq_getD (by omega) 0,
      vle_eq_getD (by omega) 0]
    rfl
  one _ s _ hs := by
    dsimp only [queryOperand]
    rw [vle_eq_getD (by omega) 0]
    rfl
  two _ s _ hs := by
    have hadd := splitVl_add (H.vlmax .m2) s.len
    dsimp only [queryOperand]
    rw [vle_eq_getD (by omega) 0, vle_eq_getD (by omega) 0]
    rfl

lemma codeOperand_reads {F : FloatFormat K} {Q : Quantizer K} {code : Code} (hd : Q.d ≤ 2 ^ 31)
    (hfits : Q.Fits code) (hbuffer : Q.kind = .codec6bit → H.vlmax .m4 ≤ 512) :
    (codeOperand F H Q code).Reads H Q.kind.narrow (Q.value F code) Q.d where
  four i hi := by
    have hv := H.vlmax_pos .m2
    have hread : ∀ o vl, o + vl ≤ Q.d → o < Q.d → Q.reconstructComponents F H code o vl
        = .ok ((range vl).map fun k => Q.value F code (o + k)) :=
      fun o vl ho hlt => Q.reconstructComponents_eq F hfits hbuffer ho (by omega)
    dsimp only [codeOperand]
    by_cases hnarrow : Q.kind.narrow = true
    · rw [if_pos hnarrow, hread _ _ (by omega) (by omega), hread _ _ (by omega) (by omega),
        hread _ _ (by omega) (by omega), hread _ _ (by omega) (by omega)]
      rfl
    · have htwo : 2 * H.vlmax .m2 - H.vlmax .m2 = H.vlmax .m2 := by omega
      have hmin : min (H.vlmax .m2) (2 * H.vlmax .m2) = H.vlmax .m2 := by omega
      have hthree : ∀ k, i + 2 * H.vlmax .m2 + (H.vlmax .m2 + k) = i + 3 * H.vlmax .m2 + k :=
        fun k => by omega
      rw [if_neg hnarrow, hread _ _ (by omega) (by omega), hread _ _ (by omega) (by omega)]
      show Except.ok _ = _
      simp only [take_range_map, drop_range_map, htwo, hmin, hthree, ← add_assoc]
  one _ s hpos hs := Q.reconstructComponents_eq F hfits hbuffer hs (by omega)
  two _ s hpos hs := by
    have hsnd : (splitVl (H.vlmax .m2) s.len).2 = s.len - H.vlmax .m2 := by
      have := splitVl_add (H.vlmax .m2) s.len
      have := splitVl_fst (H.vlmax .m2) s.len
      omega
    dsimp only [codeOperand]
    rw [Q.reconstructComponents_eq F hfits hbuffer hs (by omega)]
    show Except.ok _ = _
    rw [take_range_map, drop_range_map, hsnd, splitVl_fst]
    congr 2
    -- the upper group has components only if the lower one is full
    refine map_congr_left fun k hk => ?_
    have hlt := mem_range.mp hk
    rw [min_eq_left (by omega), add_assoc]

end Operands

/-! ### The pieces of a distance -/

def fourPieces (v i : ℕ) : List (Fin 4 × Strip) :=
  [(0, ⟨i, v⟩), (1, ⟨i + v, v⟩), (2, ⟨i + 2 * v, v⟩), (3, ⟨i + 3 * v, v⟩)]

def cut (narrow : Bool) (v : ℕ) (s : Strip) : List Strip :=
  if narrow then [s]
  else ⟨s.offset, (splitVl v s.len).1⟩ :: if 0 < (splitVl v s.len).2 then
    [⟨s.offset + (splitVl v s.len).1, (splitVl v s.len).2⟩] else []

def stripPieces (narrow : Bool) (v : ℕ) (s : Strip) : List (Fin 4 × Strip) :=
  [0, 1].zip (cut narrow v s)

def batchPieces (narrow : Bool) (v : ℕ) (s : Strip) : List (Fin 4 × Strip) :=
  (cut narrow v s).flatMap fun s => [(0, s), (1, s), (2, s), (3, s)]

def distancePieces (H : Hardware) (kind : QuantizerKind) (d : ℕ) : List (Fin 4 × Strip) :=
  (range (d / (4 * H.vlmax .m2))).flatMap
      (fun n => fourPieces (H.vlmax .m2) (4 * H.vlmax .m2 * n))
    ++ (componentStrips H kind (4 * H.vlmax .m2 * (d / (4 * H.vlmax .m2)))
      (d % (4 * H.vlmax .m2))).flatMap (stripPieces kind.narrow (H.vlmax .m2))

lemma vlmax_m4 (H : Hardware) : H.vlmax .m4 = 2 * H.vlmax .m2 := by
  simp only [Hardware.vlmax, Lmul.factor]
  omega

lemma mem_componentStrips {H : Hardware} {kind : QuantizerKind} {o n : ℕ} {s : Strip}
    (h : s ∈ componentStrips H kind o n) :
    0 < s.len ∧ s.len ≤ 2 * H.vlmax .m2 ∧ (kind.narrow = true → s.len ≤ H.vlmax .m2)
      ∧ s.offset + s.len ≤ o + n := by
  by_cases hnarrow : kind.narrow = true
  · rw [componentStrips, if_pos hnarrow] at h
    obtain ⟨hpos, hmax, -, hend⟩ := (H.vsetvl .m2).mem_strips h
    have hmax' : s.len ≤ H.vlmax .m2 := hmax
    exact ⟨hpos, by omega, fun _ => hmax, hend⟩
  · rw [componentStrips, if_neg hnarrow] at h
    obtain ⟨hpos, hmax, -, hend⟩ := (H.vsetvl .m4).mem_strips h
    exact ⟨hpos, vlmax_m4 H ▸ hmax, fun h => absurd h hnarrow, hend⟩

section Turns

variable {H : Hardware} {G : Leftovers K} {sim : Similarity} {kind : QuantizerKind} {f g : ℕ → K}
  {d : ℕ} {a b : Operand K}

lemma addTerms_eq (vacc : Fin 4 → Reg K) (j : Fin 4) (o n : ℕ) :
    addTerms G sim vacc j o ((range n).map fun k => f (o + k)) ((range n).map fun k => g (o + k))
      = Function.update vacc j
        (addStrip (fun i => sim.term (f i) (g i)) (G.tails j o) (vacc j) ⟨o, n⟩) := by
  cases sim with
  | l2 =>
    simp only [addTerms, Similarity.factors, vfsub_map, vfmacc_map]
    rfl
  | ip =>
    simp only [addTerms, Similarity.factors, vfmacc_map]
    rfl

variable (ha : a.Reads H kind.narrow f d)

include ha

section

variable (hb : b.Reads H kind.narrow g d)

include hb

lemma fourTurn_eq (hguard : kind = .codec6bit → H.vlmax .m2 ≤ 128) (hi : i + 4 * H.vlmax .m2 ≤ d)
    (vacc : Fin 4 → Reg K) : fourTurn H G sim kind buffers a b vacc i
      = .ok (addPieces (fun _ i => sim.term (f i) (g i)) G.tails
        (fourPieces (H.vlmax .m2) i) vacc) := by
  have hno : ¬ (kind = .codec6bit ∧ buffers * 128 < buffers * H.vlmax .m2) := by
    rintro ⟨hkind, hlt⟩
    exact (Nat.mul_le_mul_left buffers (hguard hkind)).not_gt hlt
  rw [fourTurn, if_neg hno, ha.four i hi, hb.four i hi]
  show Except.ok _ = _
  dsimp only [Matrix.cons_val]
  simp only [addTerms_eq]
  rfl

lemma stripTurn_eq (hpos : 0 < s.len) (hs : s.offset + s.len ≤ d) (vacc : Fin 4 → Reg K) :
    stripTurn H G sim kind a b vacc s = .ok (addPieces (fun _ i => sim.term (f i) (g i)) G.tails
        (stripPieces kind.narrow (H.vlmax .m2) s) vacc) := by
  have hv := H.vlmax_pos .m2
  by_cases hnarrow : kind.narrow = true
  · rw [stripTurn, if_pos hnarrow, ha.one hnarrow s hpos hs, hb.one hnarrow s hpos hs, stripPieces,
      cut, if_pos hnarrow]
    show Except.ok (addTerms G sim vacc 0 s.offset _ _) = _
    rw [addTerms_eq]
    rfl
  · have hwide : kind.narrow = false := by simpa using hnarrow
    have hfirst : 0 < (splitVl (H.vlmax .m2) s.len).1 := by
      rw [splitVl_fst]
      omega
    rw [stripTurn, if_neg hnarrow, stripPieces, cut, if_neg hnarrow]
    dsimp only
    rw [ha.two hwide s hpos hs, hb.two hwide s hpos hs]
    show Except.ok _ = _
    rw [if_pos hfirst]
    by_cases hsecond : 0 < (splitVl (H.vlmax .m2) s.len).2
    · rw [if_pos hsecond, if_pos hsecond, addTerms_eq, addTerms_eq]
      rfl
    · rw [if_neg hsecond, if_neg hsecond, addTerms_eq]
      rfl

lemma distanceRvv_eq (hguard : kind = .codec6bit → 4 * H.vlmax .m2 ≤ d → H.vlmax .m2 ≤ 128) :
    distanceRvv H G sim kind buffers a b d = .ok (∑ j, laneSum (H.vlmax .m2)
      (addPieces (fun _ i => sim.term (f i) (g i)) G.tails (distancePieces H kind d)
        (fun _ => splat 0) j)) := by
  have hdiv := Nat.div_add_mod d (4 * H.vlmax .m2)
  have hmain := foldlM_eq_foldl (m := Except Fault)
    (l := range (d / (4 * H.vlmax .m2))) (f := fun vacc n =>
      fourTurn H G sim kind buffers a b vacc (4 * H.vlmax .m2 * n)) (fun vacc n hn => by
    have hturn : 4 * H.vlmax .m2 * n + 4 * H.vlmax .m2 ≤ d := by
      have := Nat.mul_le_mul_left (4 * H.vlmax .m2) (mem_range.mp hn)
      rw [Nat.mul_succ] at this
      omega
    exact fourTurn_eq ha hb (fun hkind => hguard hkind (by omega)) hturn vacc) fun _ => splat 0
  have hrest := fun vacc => foldlM_eq_foldl (m := Except Fault)
    (l := componentStrips H kind (4 * H.vlmax .m2 * (d / (4 * H.vlmax .m2)))
      (d % (4 * H.vlmax .m2))) (f := stripTurn H G sim kind a b) (fun vacc s hs => by
    obtain ⟨hpos, -, -, hend⟩ := mem_componentStrips hs
    exact stripTurn_eq ha hb hpos (by omega) vacc) vacc
  rw [distanceRvv]
  simp only [hmain, hrest, pure_bind, vfredusum_vlmax, foldl_addPieces]
  rw [distancePieces, addPieces_append, Fin.sum_univ_four]
  rfl

end

lemma batchTurn_eq {b : Fin 4 → Operand K} {g : Fin 4 → ℕ → K}
    (hb : ∀ j, (b j).Reads H kind.narrow (g j) d) {s : Strip} (hpos : 0 < s.len)
    (hs : s.offset + s.len ≤ d) (vacc : Fin 4 → Reg K) : batchTurn H G sim kind a b vacc s
      = .ok (addPieces (fun j i => sim.term (f i) (g j i)) G.tails
        (batchPieces kind.narrow (H.vlmax .m2) s) vacc) := by
  have hv := H.vlmax_pos .m2
  by_cases hnarrow : kind.narrow = true
  · rw [batchTurn, if_pos hnarrow, ha.one hnarrow s hpos hs, (hb 0).one hnarrow s hpos hs,
      (hb 1).one hnarrow s hpos hs, (hb 2).one hnarrow s hpos hs, (hb 3).one hnarrow s hpos hs,
      batchPieces, cut, if_pos hnarrow]
    show Except.ok (addTerms G sim _ 3 s.offset _ _) = _
    simp only [addTerms_eq]
    rfl
  · have hwide : kind.narrow = false := by simpa using hnarrow
    have hfirst : 0 < (splitVl (H.vlmax .m2) s.len).1 := by
      rw [splitVl_fst]
      omega
    rw [batchTurn, if_neg hnarrow, batchPieces, cut, if_neg hnarrow]
    dsimp only
    rw [ha.two hwide s hpos hs, (hb 0).two hwide s hpos hs, (hb 1).two hwide s hpos hs,
      (hb 2).two hwide s hpos hs, (hb 3).two hwide s hpos hs]
    show Except.ok _ = _
    rw [if_pos hfirst]
    by_cases hsecond : 0 < (splitVl (H.vlmax .m2) s.len).2
    · rw [if_pos hsecond, if_pos hsecond]
      simp only [addTerms_eq]
      rfl
    · rw [if_neg hsecond, if_neg hsecond]
      simp only [addTerms_eq]
      rfl

end Turns

/-! ### The pieces tile the components -/

section Pieces

variable {narrow : Bool} {v : ℕ} {s : Strip}

lemma sum_cut (narrow : Bool) (v : ℕ) (s : Strip) (t : ℕ → K) :
    ((cut narrow v s).map (stripSum t)).sum = stripSum t s := by
  rw [cut]
  by_cases hnarrow : narrow = true
  · simp [hnarrow]
  · have hadd := splitVl_add v s.len
    have hsplit := stripSum_add t s.offset (splitVl v s.len).1 (splitVl v s.len).2
    rw [hadd] at hsplit
    rw [if_neg hnarrow]
    by_cases hsecond : 0 < (splitVl v s.len).2
    · rw [if_pos hsecond]
      simpa using hsplit.symm
    · have hzero : (splitVl v s.len).2 = 0 := by omega
      rw [if_neg hsecond]
      rw [hzero] at hsplit
      simpa [stripSum] using hsplit.symm

def Fills (narrow : Bool) (v : ℕ) (s : Strip) : Prop :=
  s.len = v ∨ narrow = false ∧ s.len = 2 * v

lemma cut_full_iff (hv : 0 < v) (hpos : 0 < s.len) :
    (∀ h ∈ cut narrow v s, h.len = v) ↔ Fills narrow v s := by
  have hadd := splitVl_add v s.len
  have hfst := splitVl_fst v s.len
  rw [cut, Fills]
  cases narrow with
  | true => simp
  | false =>
    by_cases hsecond : 0 < (splitVl v s.len).2
    · simp [hsecond]
      omega
    · simp [hsecond]
      omega

lemma le_of_mem_cut (hle : narrow = true → s.len ≤ v) (hmax : s.len ≤ 2 * v)
    (hh : h ∈ cut narrow v s) : h.len ≤ v := by
  have hadd := splitVl_add v s.len
  have hfst := splitVl_fst v s.len
  rw [cut] at hh
  cases narrow with
  | true =>
    rw [if_pos rfl, mem_singleton] at hh
    rw [hh]
    exact hle rfl
  | false =>
    by_cases hsecond : 0 < (splitVl v s.len).2
    · simp [hsecond] at hh
      rcases hh with rfl | rfl <;> dsimp only <;> omega
    · simp [hsecond] at hh
      rw [hh]
      dsimp only
      omega

lemma map_snd_stripPieces : (stripPieces narrow v s).map Prod.snd = cut narrow v s := by
  rw [stripPieces, cut]
  cases narrow with
  | true => rfl
  | false => by_cases hsecond : 0 < (splitVl v s.len).2 <;> simp [hsecond]

lemma stripsOf_batchPieces (j : Fin 4) : stripsOf j (batchPieces narrow v s) = cut narrow v s := by
  rw [batchPieces, stripsOf_flatMap]
  fin_cases j <;> exact flatMap_singleton' _

lemma sum_fourPieces (t : ℕ → K) (i : ℕ) :
    ((fourPieces v i).map fun p => stripSum t p.2).sum = stripSum t ⟨i, 4 * v⟩ := by
  have hfour : 4 * v = v + (v + (v + v)) := by omega
  rw [hfour, stripSum_add, stripSum_add, stripSum_add]
  have htwo : i + v + v = i + 2 * v := by omega
  have hthree : i + 2 * v + v = i + 3 * v := by omega
  simp [fourPieces, htwo, hthree]

end Pieces

section Tiling

variable {H : Hardware} {kind : QuantizerKind} {d : ℕ}

lemma sum_componentStrips (t : ℕ → K) (o n : ℕ) :
    ((componentStrips H kind o n).map (stripSum t)).sum = ∑ i ∈ Finset.range n, t (o + i) := by
  rw [componentStrips]
  split
  · exact (H.vsetvl .m2).sum_strips t o n
  · exact (H.vsetvl .m4).sum_strips t o n

lemma sum_distancePieces (t : ℕ → K) :
    ((distancePieces H kind d).map fun p => stripSum t p.2).sum = ∑ i ∈ Finset.range d, t i := by
  have hmain : ((range (d / (4 * H.vlmax .m2))).map fun n =>
      ((fourPieces (H.vlmax .m2) (4 * H.vlmax .m2 * n)).map fun p => stripSum t p.2).sum).sum
        = ∑ i ∈ Finset.range (4 * H.vlmax .m2 * (d / (4 * H.vlmax .m2))), t i := by
    simp only [sum_fourPieces]
    have hfull := sum_fullStrips t (4 * H.vlmax .m2) (d / (4 * H.vlmax .m2))
    rw [fullStrips, map_map] at hfull
    exact hfull
  have hrest : ∀ s : Strip, ((stripPieces kind.narrow (H.vlmax .m2) s).map
      fun p => stripSum t p.2).sum = stripSum t s := by
    intro s
    rw [← sum_cut kind.narrow (H.vlmax .m2) s, ← map_snd_stripPieces, map_map]
    rfl
  rw [distancePieces, map_append, sum_append, sum_map_flatMap, sum_map_flatMap, hmain]
  simp only [hrest]
  have hdiv := Nat.div_add_mod d (4 * H.vlmax .m2)
  refine (congrArg (_ + ·) (sum_componentStrips t _ _)).trans ?_
  rw [← Finset.sum_range_add, hdiv]

lemma forall_distancePieces (P : ℕ → Prop) (hP : P (H.vlmax .m2)) :
    (∀ p ∈ distancePieces H kind d, P p.2.len)
      ↔ ∀ s ∈ componentStrips H kind (4 * H.vlmax .m2 * (d / (4 * H.vlmax .m2)))
        (d % (4 * H.vlmax .m2)), ∀ c ∈ cut kind.narrow (H.vlmax .m2) s, P c.len := by
  have hfour : ∀ n, ∀ p ∈ fourPieces (H.vlmax .m2) n, P p.2.len := by simp [fourPieces, hP]
  have hstrip : ∀ s : Strip, (∀ p ∈ stripPieces kind.narrow (H.vlmax .m2) s, P p.2.len)
      ↔ ∀ c ∈ cut kind.narrow (H.vlmax .m2) s, P c.len := by
    intro s
    rw [← map_snd_stripPieces, forall_mem_map]
  simp only [distancePieces, forall_mem_append, forall_mem_flatMap, hstrip]
  exact and_iff_right fun n _ => hfour _

lemma forall_cut_le (o n : ℕ) : ∀ s ∈ componentStrips H kind o n,
    ∀ c ∈ cut kind.narrow (H.vlmax .m2) s, c.len ≤ H.vlmax .m2 := by
  intro s hs c hc
  obtain ⟨-, hmax, hle, -⟩ := mem_componentStrips hs
  exact le_of_mem_cut hle hmax hc

lemma forall_cut_full_iff (o n : ℕ) :
    (∀ s ∈ componentStrips H kind o n, ∀ c ∈ cut kind.narrow (H.vlmax .m2) s,
      c.len = H.vlmax .m2)
      ↔ ∀ s ∈ componentStrips H kind o n, Fills kind.narrow (H.vlmax .m2) s :=
  forall₂_congr fun _ hs => cut_full_iff (H.vlmax_pos .m2) (mem_componentStrips hs).1

def allBatchPieces (H : Hardware) (kind : QuantizerKind) (d : ℕ) : List (Fin 4 × Strip) :=
  (componentStrips H kind 0 d).flatMap (batchPieces kind.narrow (H.vlmax .m2))

lemma mem_allBatchPieces : (j, c) ∈ allBatchPieces H kind d
    ↔ ∃ s ∈ componentStrips H kind 0 d, c ∈ cut kind.narrow (H.vlmax .m2) s := by
  simp only [allBatchPieces, mem_flatMap, ← mem_stripsOf, stripsOf_batchPieces]

lemma stripsOf_allBatchPieces (j : Fin 4) : stripsOf j (allBatchPieces H kind d)
    = (componentStrips H kind 0 d).flatMap (cut kind.narrow (H.vlmax .m2)) := by
  simp only [allBatchPieces, stripsOf_flatMap, stripsOf_batchPieces]

lemma sum_allBatchPieces (t : ℕ → K) (j : Fin 4) :
    ((stripsOf j (allBatchPieces H kind d)).map (stripSum t)).sum = ∑ i ∈ Finset.range d, t i := by
  rw [stripsOf_allBatchPieces, sum_map_flatMap]
  simp only [sum_cut, sum_componentStrips, zero_add]

lemma forall_allBatchPieces (P : ℕ → Prop) : (∀ p ∈ allBatchPieces H kind d, P p.2.len)
    ↔ ∀ s ∈ componentStrips H kind 0 d, ∀ c ∈ cut kind.narrow (H.vlmax .m2) s, P c.len := by
  constructor
  · exact fun h s hs c hc => h (0, c) (mem_allBatchPieces.mpr ⟨s, hs, hc⟩)
  · rintro h ⟨j, c⟩ hp
    obtain ⟨s, hs, hc⟩ := mem_allBatchPieces.mp hp
    exact h s hs c hc

end Tiling

/-! ### Exactness -/

section Exactness

variable {F : FloatFormat K} {H : Hardware} {Q : Quantizer K} {sim : Similarity}

def BuffersSuffice (H : Hardware) (kind : QuantizerKind) (d : ℕ) : Prop :=
  kind = .codec6bit → 0 < d → if 4 * H.vlmax .m2 ≤ d then H.vlmax .m2 ≤ 128 else H.vlmax .m4 ≤ 512

lemma BuffersSuffice.decode (h : BuffersSuffice H kind d)
    (hd : 0 < d) (hkind : kind = .codec6bit) : H.vlmax .m4 ≤ 512 := by
  have hroom := h hkind hd
  split at hroom
  · rw [vlmax_m4]
    omega
  · exact hroom

lemma BuffersSuffice.main (h : BuffersSuffice H kind d)
    (hkind : kind = .codec6bit) (hloop : 4 * H.vlmax .m2 ≤ d) : H.vlmax .m2 ≤ 128 := by
  have hroom := h hkind ((mul_pos (by decide) (H.vlmax_pos .m2)).trans_le hloop)
  rwa [if_pos hloop] at hroom

omit [Field K] in
lemma Operand.Reads.of_zero (a : Operand K) (narrow : Bool) (g : ℕ → K) :
    a.Reads H narrow g 0 where
  four i hi := by
    have := H.vlmax_pos .m2
    omega
  one _ s hpos hs := by omega
  two _ s hpos hs := by omega

lemma codeOperand_reads_of_suffice {code : Code} (hd : Q.d ≤ 2 ^ 31) (hfits : Q.Fits code)
    (hroom : BuffersSuffice H Q.kind Q.d) :
    (codeOperand F H Q code).Reads H Q.kind.narrow (Q.value F code) Q.d := by
  rcases Nat.eq_zero_or_pos Q.d with hzero | hpos
  · rw [hzero]
    exact .of_zero _ _ _
  · exact codeOperand_reads hd hfits (hroom.decode hpos)

lemma BuffersSuffice.of_ok {G : Leftovers K} {buffers : ℕ} (hbuffers : 0 < buffers)
    {a : Operand K} {code : Code} {v : K}
    (h : distanceRvv H G sim Q.kind buffers a (codeOperand F H Q code) Q.d = .ok v) :
    BuffersSuffice H Q.kind Q.d := by
  intro hkind hd
  have hnarrow : ¬ Q.kind.narrow = true := by
    rw [hkind]
    decide
  obtain ⟨vacc, hmain, hrest⟩ := bind_eq_ok.mp h
  split
  · -- the first turn of the loop over four register groups checks its buffer
    rename_i hloop
    by_contra hlarge
    have hthrow : Q.kind = .codec6bit ∧ buffers * 128 < buffers * H.vlmax .m2 :=
      ⟨hkind, Nat.mul_lt_mul_of_pos_left (by omega) hbuffers⟩
    obtain ⟨n, hn⟩ : ∃ n, Q.d / (4 * H.vlmax .m2) = n + 1 :=
      ⟨Q.d / (4 * H.vlmax .m2) - 1, by have := Nat.div_pos hloop (by omega); omega⟩
    rw [hn, range_succ_eq_map, foldlM_cons, fourTurn, if_pos hthrow] at hmain
    cases hmain
  · -- otherwise the first strip decodes, which checks its own
    rename_i hloop
    by_contra hlarge
    have hmod : Q.d % (4 * H.vlmax .m2) = Q.d := Nat.mod_eq_of_lt (by omega)
    have hdiv : Q.d / (4 * H.vlmax .m2) = 0 := Nat.div_eq_of_lt (by omega)
    obtain ⟨vacc', hstrips, -⟩ := bind_eq_ok.mp hrest
    rw [hmod, hdiv, mul_zero, componentStrips, if_neg hnarrow, Vsetvl.strips_of_pos _ hd,
      foldlM_cons, stripTurn, if_neg hnarrow] at hstrips
    dsimp only [codeOperand] at hstrips
    rw [Q.reconstructComponents_throws F hkind (by omega) (by decide)] at hstrips
    cases hstrips

variable (F H) in
structure DcExact (sim : Similarity) (kind : QuantizerKind) (d : ℕ) : Prop where
  query_to_code : ∀ (G : Leftovers K) (trained x : List K) (code : Code),
    Quantizer.Fits ⟨kind, d, trained⟩ code → x.length = d →
      ∃ v, Quantizer.computeDistance F ⟨kind, d, trained⟩ sim x code = some v
        ∧ Quantizer.computeDistanceRvv F H G ⟨kind, d, trained⟩ sim x code = .ok v
  symmetric_dis : ∀ (G : Leftovers K) (trained : List K) (code1 code2 : Code),
    Quantizer.Fits ⟨kind, d, trained⟩ code1 → Quantizer.Fits ⟨kind, d, trained⟩ code2 →
      ∃ v, Quantizer.computeCodeDistance F ⟨kind, d, trained⟩ sim code1 code2 = some v
        ∧ Quantizer.computeCodeDistanceRvv F H G ⟨kind, d, trained⟩ sim code1 code2 = .ok v
  query_to_codes_batch_4 : ∀ (G : Leftovers K) (trained x : List K) (codes : Fin 4 → Code),
    (∀ j, Quantizer.Fits ⟨kind, d, trained⟩ (codes j)) → x.length = d →
      ∃ v, (∀ j, Quantizer.computeDistance F ⟨kind, d, trained⟩ sim x (codes j) = some (v j))
        ∧ Quantizer.queryToCodesBatch4Rvv F H G ⟨kind, d, trained⟩ sim x codes = .ok v

lemma queryToCodesBatch4Rvv_eq (hd : Q.d ≤ 2 ^ 31) (hroom : BuffersSuffice H Q.kind Q.d)
    {x : List K} {codes : Fin 4 → Code} (hfits : ∀ j, Q.Fits (codes j)) (hx : x.length = Q.d)
    (G : Leftovers K) : Q.queryToCodesBatch4Rvv F H G sim x codes = .ok fun j =>
      laneSum (H.vlmax .m2) (addPieces (fun j i => sim.term (x.getD i 0) (Q.value F (codes j) i))
        G.tails (allBatchPieces H Q.kind Q.d) (fun _ => splat 0) j) := by
  have hloop := foldlM_eq_foldl (m := Except Fault) (l := componentStrips H Q.kind 0 Q.d)
    (f := batchTurn H G sim Q.kind (queryOperand H x) fun j => codeOperand F H Q (codes j))
    (fun vacc s hs => by
      obtain ⟨hpos, -, -, hend⟩ := mem_componentStrips hs
      exact batchTurn_eq (queryOperand_reads _ hx)
        (fun j => codeOperand_reads_of_suffice hd (hfits j) hroom) hpos (by omega) vacc)
    fun _ => splat 0
  rw [Quantizer.queryToCodesBatch4Rvv, hloop]
  simp only [pure_bind, vfredusum_vlmax, foldl_addPieces]
  rfl

lemma forall_distanceRvv_iff (sim : Similarity) (buffers : ℕ) {kind : QuantizerKind} {d : ℕ}
    {a b : Operand K} {f g : ℕ → K} (ha : a.Reads H kind.narrow f d)
      (hb : b.Reads H kind.narrow g d) (hroom : BuffersSuffice H kind d) :
    (∀ G, distanceRvv H G sim kind buffers a b d = .ok (∑ i ∈ Finset.range d, sim.term (f i) (g i)))
      ↔ ∀ s ∈ componentStrips H kind (4 * H.vlmax .m2 * (d / (4 * H.vlmax .m2)))
        (d % (4 * H.vlmax .m2)), Fills kind.narrow (H.vlmax .m2) s := by
  rw [← forall_cut_full_iff, ← forall_distancePieces (· = _) rfl, ← forall_sum_laneSum_addPieces_iff
    (t := fun _ i => sim.term (f i) (g i)) ((forall_distancePieces (· ≤ _) le_rfl).mpr
    (forall_cut_le _ _)), sum_distancePieces]
  constructor
  · intro h tail
    obtain ⟨G, rfl⟩ := exists_tails_eq tail
    have hG := h G
    rw [distanceRvv_eq ha hb hroom.main] at hG
    exact Except.ok.inj hG
  · intro h G
    rw [distanceRvv_eq ha hb hroom.main, h G.tails]

lemma forall_queryToCodesBatch4Rvv_iff (sim : Similarity) (hd : Q.d ≤ 2 ^ 31)
    (hroom : BuffersSuffice H Q.kind Q.d) (hfits : ∀ j, Q.Fits (codes j)) (hx : x.length = Q.d) :
    (∀ G, Q.queryToCodesBatch4Rvv F H G sim x codes = .ok fun j =>
        ∑ i ∈ Finset.range Q.d, sim.term (x.getD i 0) (Q.value F (codes j) i))
      ↔ ∀ s ∈ componentStrips H Q.kind 0 Q.d, Fills Q.kind.narrow (H.vlmax .m2) s := by
  rw [← forall_cut_full_iff, ← forall_allBatchPieces (· = _), ← forall_laneSum_addPieces_iff
    (t := fun j i => sim.term (x.getD i 0) (Q.value F (codes j) i))
    ((forall_allBatchPieces (· ≤ _)).mpr (forall_cut_le _ _))]
  simp only [sum_allBatchPieces]
  constructor
  · intro h tail j
    obtain ⟨G, rfl⟩ := exists_tails_eq tail
    have hG := h G
    rw [queryToCodesBatch4Rvv_eq hd hroom hfits hx] at hG
    exact congrFun (Except.ok.inj hG) j
  · intro h G
    rw [queryToCodesBatch4Rvv_eq hd hroom hfits hx]
    exact congrArg Except.ok (funext fun j => h G.tails j)

lemma exists_fits (K : Type) [Field K] (kind : QuantizerKind) (d : ℕ) :
    ∃ (trained : List K) (code : Code), Quantizer.Fits ⟨kind, d, trained⟩ code :=
  ⟨replicate (kind.trainedSize d) 0, replicate (kind.codeSize d) 0, by simp, by simp⟩

/-- **When the vector distance computer is exact**: exactly if all indices fit an `int`, the buffers
of the 6-bit quantiser are large enough, and the hardware cuts the components, and those left by the
loop over four register groups, into strips that fill whole register groups. -/
theorem dcTemplate_rvv_exact_iff (F : FloatFormat K) (H : Hardware) (sim : Similarity)
    (kind : QuantizerKind) (d : ℕ) : DcExact F H sim kind d ↔
      d ≤ 2 ^ 31 ∧ BuffersSuffice H kind d
        ∧ (∀ s ∈ componentStrips H kind (4 * H.vlmax .m2 * (d / (4 * H.vlmax .m2)))
          (d % (4 * H.vlmax .m2)), Fills kind.narrow (H.vlmax .m2) s)
        ∧ ∀ s ∈ componentStrips H kind 0 d, Fills kind.narrow (H.vlmax .m2) s := by
  constructor
  · intro h
    obtain ⟨trained, code, hfits⟩ := exists_fits K kind d
    have hx : (replicate d (0 : K)).length = d := length_replicate
    obtain ⟨v, hscalar, hrvv⟩ := h.query_to_code ⟨0, 0⟩ trained _ code hfits hx
    have hd : d ≤ 2 ^ 31 := Quantizer.le_of_computeDistance hscalar
    have hroom : BuffersSuffice H kind d := BuffersSuffice.of_ok (by decide) hrvv
    refine ⟨hd, hroom, ?_, ?_⟩
    · refine (forall_distanceRvv_iff sim 4 (queryOperand_reads kind.narrow hx)
        (codeOperand_reads_of_suffice (F := F) (Q := ⟨kind, d, trained⟩) hd hfits hroom)
        hroom).mp fun G => ?_
      obtain ⟨w, hw, hG⟩ := h.query_to_code G trained _ code hfits hx
      rw [Quantizer.computeDistance_eq hd hfits hx] at hw
      rw [Option.some.inj hw]
      exact hG
    · have hcodes : ∀ j : Fin 4, Quantizer.Fits ⟨kind, d, trained⟩ ((fun _ => code) j) :=
        fun _ => hfits
      refine (forall_queryToCodesBatch4Rvv_iff (F := F) sim hd hroom hcodes hx).mp fun G => ?_
      obtain ⟨w, hw, hG⟩ := h.query_to_codes_batch_4 G trained _ _ hcodes hx
      refine hG.trans (congrArg Except.ok (funext fun j => ?_))
      have hj := hw j
      rw [Quantizer.computeDistance_eq hd hfits hx] at hj
      exact (Option.some.inj hj).symm
  · rintro ⟨hd, hroom, hrest, hall⟩
    exact {
      query_to_code := fun G trained x code hfits hx =>
        ⟨_, Quantizer.computeDistance_eq hd hfits hx,
          (forall_distanceRvv_iff sim _ (queryOperand_reads _ hx)
            (codeOperand_reads_of_suffice hd hfits hroom) hroom).mpr hrest G⟩
      symmetric_dis := fun G trained code1 code2 h1 h2 =>
        ⟨_, Quantizer.computeCodeDistance_eq hd h1 h2,
          (forall_distanceRvv_iff sim _ (codeOperand_reads_of_suffice hd h1 hroom)
            (codeOperand_reads_of_suffice hd h2 hroom) hroom).mpr hrest G⟩
      query_to_codes_batch_4 := fun G trained x codes hfits hx =>
        ⟨_, fun j => Quantizer.computeDistance_eq hd (hfits j) hx,
          (forall_queryToCodesBatch4Rvv_iff sim hd hroom hfits hx).mpr hall G⟩ }

end Exactness

/-- Registers of 128 bits that take as much as fits, and 20 components.  The second strip has four
elements, and takes four lanes of the first accumulator away. -/
theorem compute_distance_20 :
    Quantizer.computeDistance FloatFormat.ieee ⟨.direct8bit, 20, []⟩ .ip (replicate 20 1)
        (replicate 20 1#8) = some 20
      ∧ Quantizer.computeDistanceRvv FloatFormat.ieee (Hardware.greedy 4 (by decide))
        ⟨fun _ _ _ => 0, fun _ => 0⟩ ⟨.direct8bit, 20, []⟩ .ip (replicate 20 1)
        (replicate 20 1#8) = .ok 16 := by
  decide +kernel

end Rvanns.Faiss
