import Rvanns.Cpp.Returns
import Rvanns.Simd.DistancesRef
import Rvanns.Simd.DistancesRvv

/-!
# The vector kernels against the scalar ones

A scalar kernel adds `t 0, …, t (d - 1)` (`sumRef_eq`), and a vector kernel is handed operands whose
products are these terms (`OperandsAre`).
-/

namespace Rvanns.Simd

open Cpp Literals Rvv List Option

variable {α K : Type} [CommRing K]

def Agree {β : Type*} (ref rvv : Option β) : Prop := ∃ v, ref = some v ∧ rvv = some v

/-! ### The terms of the sum -/

section Terms

variable (value : α → K)

def entry (x : List α) (i : ℕ) : K := (component value x i).getD 0

variable {value}

variable {x : List α} {i : ℕ}

lemma component_eq (h : i < x.length) : component value x i = some (entry value x i) := by
  simp [entry, component, getElem?_eq_getElem h]

lemma innerProductTerm_eq (value : α → K) (hx : i < x.length) (hy : i < y.length) :
    innerProductTerm value x y i = some (entry value x i * entry value y i) := by
  simp [innerProductTerm, component_eq hx, component_eq hy]

lemma l2sqrTerm_eq (value : α → K) (hx : i < x.length) (hy : i < y.length) :
    l2sqrTerm value x y i = some
      ((entry value x i - entry value y i) * (entry value x i - entry value y i)) := by
  simp [l2sqrTerm, component_eq hx, component_eq hy]

lemma normL2sqrTerm_eq (value : α → K) (hx : i < x.length) :
    normL2sqrTerm value x i = some (entry value x i * entry value x i) := by
  simp [normL2sqrTerm, component_eq hx]

end Terms

lemma sumRef_eq {term : ℕ → Option K} {t : ℕ → K} (h : ∀ i < d, term i = some (t i)) :
    sumRef term d = some (∑ i ∈ Finset.range d, t i) := by
  apply foldlM_sum
  intro i hi res
  rw [h i hi]
  rfl

lemma sumBatch4Ref_eq {term : Fin 4 → ℕ → Option K} {t : Fin 4 → ℕ → K}
    (h : ∀ j, ∀ i < d, term j i = some (t j i)) :
    sumBatch4Ref term d = some fun j => ∑ i ∈ Finset.range d, t j i := by
  induction d with
  | zero => rfl
  | succ d ih =>
    have hprev := ih fun j i hi => h j i (by omega)
    have hlast : ∀ j, term j d = some (t j d) := fun j => h j d (by omega)
    rw [sumBatch4Ref] at hprev ⊢
    rw [range_succ, foldlM_append, hprev]
    simp only [foldlM_cons, foldlM_nil, some_bind, hlast,
      Option.pure_def, Option.some.injEq]
    funext j
    rw [Finset.sum_range_succ]
    fin_cases j <;> rfl

/-! ### The operands of the strips -/

lemma loadStrip_eq {value : α → K} (h : s.offset + s.len ≤ x.length) :
    loadStrip value x s = some ((range s.len).map fun k => entry value x (s.offset + k)) := by
  rw [loadStrip, vle, readRange_of_le h, Nat.add_sub_cancel_left]
  simp only [some_bind, Option.pure_def, Option.some.injEq]
  apply ext_getElem?
  intro k
  rcases lt_or_ge k s.len with hk | hk
  · have hlt : s.offset + k < x.length := by omega
    simp [hk, entry, component, getElem?_eq_getElem hlt]
  · rw [getElem?_eq_none (by simp; omega), getElem?_eq_none (by simpa using hk)]

def OperandsAre (factors : Factors K) (a b : ℕ → K) (d : ℕ) : Prop :=
  ∀ s : Strip, s.offset + s.len ≤ d → factors s =
    some ((range s.len).map fun k => a (s.offset + k),
      (range s.len).map fun k => b (s.offset + k))

def OperandsAre4 (factors : Factors4 K) (a b : Fin 4 → ℕ → K) (d : ℕ) : Prop :=
  ∀ s : Strip, s.offset + s.len ≤ d → factors s = some fun j =>
    ((range s.len).map fun k => a j (s.offset + k),
      (range s.len).map fun k => b j (s.offset + k))

section Operands

variable {value : α → K} {d : ℕ}

variable {x : List α}

variable (hx : x.length = d)

include hx

lemma innerProductFactors_eq (hy : y.length = d) :
    OperandsAre (innerProductFactors value x y) (entry value x) (entry value y) d := by
  intro s hs
  rw [innerProductFactors, loadStrip_eq (hs.trans_eq hx.symm), loadStrip_eq (hs.trans_eq hy.symm)]
  rfl

lemma l2sqrFactors_eq (hy : y.length = d) :
    OperandsAre (l2sqrFactors value x y) (fun i => entry value x i - entry value y i)
      (fun i => entry value x i - entry value y i) d := by
  intro s hs
  rw [l2sqrFactors, loadStrip_eq (hs.trans_eq hx.symm), loadStrip_eq (hs.trans_eq hy.symm)]
  simp

lemma normL2sqrFactors_eq :
    OperandsAre (normL2sqrFactors value x) (entry value x) (entry value x) d := by
  intro s hs
  rw [normL2sqrFactors, loadStrip_eq (hs.trans_eq hx.symm)]
  rfl

lemma innerProductFactors4_eq {y : Fin 4 → List α} (hy : ∀ j, (y j).length = d) :
    OperandsAre4 (innerProductFactors4 value x y) (fun _ => entry value x)
      (fun j => entry value (y j)) d := by
  intro s hs
  simp only [innerProductFactors4, loadStrip_eq (hs.trans_eq hx.symm), loadStrip_eq (hs.trans_eq (hy
    _).symm), some_bind, Option.pure_def, Option.some.injEq]
  funext j
  fin_cases j <;> rfl

lemma l2sqrFactors4_eq {y : Fin 4 → List α} (hy : ∀ j, (y j).length = d) :
    OperandsAre4 (l2sqrFactors4 value x y) (fun j i => entry value x i - entry value (y j) i)
      (fun j i => entry value x i - entry value (y j) i) d := by
  intro s hs
  simp only [l2sqrFactors4, loadStrip_eq (hs.trans_eq hx.symm), loadStrip_eq (hs.trans_eq (hy
    _).symm), some_bind, vfsub_map, Option.pure_def, Option.some.injEq]
  funext j
  fin_cases j <;> rfl

end Operands

/-! ### One strip and a whole loop -/

section Loops

variable {d : ℕ} {s : Strip} {ss : List Strip}

section One

variable {factors : Factors K} {a b : ℕ → K} (h : OperandsAre factors a b d)
include h

lemma keepTurn_eq (hs : s.offset + s.len ≤ d) (acc : Reg K) :
    keepTurn factors acc s = some (addStrip (fun i => a i * b i) acc acc s) := by
  rw [keepTurn, h s hs]
  exact congrArg some (vfmacc_map _ _ _ _ _)

lemma looseTurn_eq (hs : s.offset + s.len ≤ d) (G : Leftovers K) (acc : Reg K) :
    looseTurn G factors acc s = some (addStrip (fun i => a i * b i) (G.tail 0 s.offset) acc s) := by
  rw [looseTurn, h s hs]
  exact congrArg some (vfmacc_map _ _ _ _ _)

variable (hss : ∀ s ∈ ss, s.offset + s.len ≤ d)
include hss

lemma foldlM_keepTurn (acc : Reg K) :
    ss.foldlM (keepTurn factors) acc = some (accumulateKeep (fun i => a i * b i) ss acc) :=
  foldlM_eq_foldl (fun acc s hs => keepTurn_eq h (hss s hs) acc) acc

lemma foldlM_looseTurn (G : Leftovers K) (acc : Reg K) : ss.foldlM (looseTurn G factors) acc
      = some (accumulate (fun i => a i * b i) (G.tail 0) ss acc) :=
  foldlM_eq_foldl (fun acc s hs => looseTurn_eq h (hss s hs) G acc) acc

end One

section Four

variable {factors : Factors4 K} {a b : Fin 4 → ℕ → K} (h : OperandsAre4 factors a b d)
include h

lemma keepTurn4_eq (hs : s.offset + s.len ≤ d) (acc : Fin 4 → Reg K) : keepTurn4 factors acc s
      = some fun j => addStrip (fun i => a j i * b j i) (acc j) (acc j) s := by
  rw [keepTurn4, h s hs]
  exact congrArg some (funext fun j => vfmacc_map _ _ _ _ _)

lemma looseTurn4_eq (hs : s.offset + s.len ≤ d) (G : Leftovers K) (acc : Fin 4 → Reg K) :
    looseTurn4 G factors acc s
      = some fun j => addStrip (fun i => a j i * b j i) (G.tail j s.offset) (acc j) s := by
  rw [looseTurn4, h s hs]
  exact congrArg some (funext fun j => vfmacc_map _ _ _ _ _)

variable (hss : ∀ s ∈ ss, s.offset + s.len ≤ d)
include hss

lemma foldlM_keepTurn4 (acc : Fin 4 → Reg K) : ss.foldlM (keepTurn4 factors) acc
      = some fun j => accumulateKeep (fun i => a j i * b j i) ss (acc j) := by
  rw [foldlM_eq_foldl (fun acc s hs => keepTurn4_eq h (hss s hs) acc) acc]
  exact congrArg some (foldl_pi (fun j acc s => addStrip (fun i => a j i * b j i) acc acc s) ss acc)

lemma foldlM_looseTurn4 (G : Leftovers K) (acc : Fin 4 → Reg K) :
    ss.foldlM (looseTurn4 G factors) acc
      = some fun j => accumulate (fun i => a j i * b j i) (G.tail j) ss (acc j) := by
  rw [foldlM_eq_foldl (fun acc s hs => looseTurn4_eq h (hss s hs) G acc) acc]
  exact congrArg some (foldl_pi
    (fun j acc s => addStrip (fun i => a j i * b j i) (G.tail j s.offset) acc s) ss acc)

end Four

end Loops

/-! ### `float` -/

section Float

variable {d : ℕ} (H : Hardware) (G : Leftovers K)

lemma sum_range_four (t : ℕ → K) (o v : ℕ) :
    ∑ i ∈ Finset.range (o + 4 * v), t i = ∑ i ∈ Finset.range o, t i
      + (∑ k ∈ Finset.range v, t (o + k) + ∑ k ∈ Finset.range v, t (o + v + k)
        + (∑ k ∈ Finset.range v, t (o + 2 * v + k) + ∑ k ∈ Finset.range v, t (o + 3 * v + k))) := by
  have hbound : o + 4 * v = o + v + v + v + v := by omega
  have htwo : o + 2 * v = o + v + v := by omega
  have hthree : o + 3 * v = o + v + v + v := by omega
  rw [hbound, htwo, hthree]
  simp only [Finset.sum_range_add]
  abel

lemma unrolledTurn_eq (h : OperandsAre factors a b d) (ho : o + 4 * v ≤ d) (vacc : Fin 4 → Reg K) :
    unrolledTurn v factors vacc o = some ![addStrip (fun i => a i * b i) (vacc 0) (vacc 0) ⟨o, v⟩,
        addStrip (fun i => a i * b i) (vacc 1) (vacc 1) ⟨o + v, v⟩,
        addStrip (fun i => a i * b i) (vacc 2) (vacc 2) ⟨o + 2 * v, v⟩,
        addStrip (fun i => a i * b i) (vacc 3) (vacc 3) ⟨o + 3 * v, v⟩] := by
  rw [unrolledTurn, h ⟨o, v⟩ (by dsimp only; omega), h ⟨o + v, v⟩ (by dsimp only; omega),
    h ⟨o + 2 * v, v⟩ (by dsimp only; omega), h ⟨o + 3 * v, v⟩ (by dsimp only; omega)]
  simp only [some_bind, vfmaccTu, vfmacc_map]
  rfl

/-- **The unrolled loop**: after `q` turns the four accumulators together hold the sum of the
components read. -/
theorem returns_unrolled {a b : ℕ → K} (h : OperandsAre factors a b d) (hq : 4 * v * q ≤ d) :
    Returns ((range q).foldlM
        (fun vacc j => unrolledTurn v factors vacc (4 * v * j)) fun _ => splat 0)
      fun vacc => laneSum4 v vacc = ∑ i ∈ Finset.range (4 * v * q), a i * b i := by
  refine .foldlM_range
    (P := fun j vacc => laneSum4 v vacc = ∑ i ∈ Finset.range (4 * v * j), a i * b i) q ?_ ?_
  · intro j hj vacc hsum
    have hlast : 4 * v * j + 4 * v ≤ d := by exact (Nat.mul_le_mul_left _ hj).trans hq
    have hstrip : ∀ (acc : Reg K) o, laneSum v (addStrip (fun i => a i * b i) acc acc ⟨o, v⟩)
        = laneSum v acc + ∑ k ∈ Finset.range v, a (o + k) * b (o + k) :=
      fun acc o => laneSum_addStrip_keep (s := ⟨o, v⟩) le_rfl acc
    refine ⟨_, unrolledTurn_eq h hlast vacc, ?_⟩
    dsimp only [laneSum4, Matrix.cons_val] at hsum ⊢
    rw [hstrip, hstrip, hstrip, hstrip, Nat.mul_succ, sum_range_four, ← hsum]
    abel
  · simp [laneSum4]

lemma fvecRvv_eq {a b : ℕ → K} (h : OperandsAre factors a b d) :
    fvecRvv H G factors d = some (∑ i ∈ Finset.range d, a i * b i) := by
  have hdiv := Nat.div_add_mod d (4 * H.vlmax .m2)
  obtain ⟨vacc, hvacc, hsum⟩ :=
    returns_unrolled h (v := H.vlmax .m2) (q := d / (4 * H.vlmax .m2)) (by omega)
  have hstrips : ∀ s ∈ (H.vsetvl .m2).strips (4 * H.vlmax .m2 * (d / (4 * H.vlmax .m2)))
      (d % (4 * H.vlmax .m2)), s.offset + s.len ≤ d := by
    intro s hs
    have := ((H.vsetvl .m2).mem_strips hs).2.2.2
    omega
  rw [fvecRvv, hvacc]
  simp only [some_bind]
  rw [foldlM_keepTurn h hstrips, some_bind, vfredusum_vlmax]
  refine congrArg some ?_
  have hloop := laneSum_accumulateKeep_strips (H.vsetvl .m2) (fun i => a i * b i)
    (4 * H.vlmax .m2 * (d / (4 * H.vlmax .m2))) (d % (4 * H.vlmax .m2))
    (vfadd (vfadd (vacc 0) (vacc 1)) (vfadd (vacc 2) (vacc 3)))
  refine hloop.trans ?_
  rw [laneSum_vfadd, laneSum_vfadd, laneSum_vfadd]
  refine (congrArg (· + _) hsum).trans ?_
  rw [← Finset.sum_range_add, hdiv]

lemma fvecBatch4Rvv_eq {factors : Factors4 K} {a b : Fin 4 → ℕ → K}
    (h : OperandsAre4 factors a b d) : fvecBatch4Rvv H G factors d
      = some fun j => ∑ i ∈ Finset.range d, a j i * b j i := by
  have hdiv := Nat.div_add_mod d (H.vlmax .m1)
  have hfull : ∀ s ∈ fullStrips (H.vlmax .m1) (d / H.vlmax .m1), s.offset + s.len ≤ d := by
    intro s hs
    have := (mem_fullStrips hs).2
    omega
  have hstrips : ∀ s ∈ (H.vsetvl .m1).strips (H.vlmax .m1 * (d / H.vlmax .m1))
      (d % H.vlmax .m1), s.offset + s.len ≤ d := by
    intro s hs
    have := ((H.vsetvl .m1).mem_strips hs).2.2.2
    omega
  have hmain := foldlM_keepTurn4 h hfull fun _ => splat 0
  rw [fullStrips, foldlM_map] at hmain
  rw [fvecBatch4Rvv, hmain]
  simp only [some_bind]
  rw [foldlM_keepTurn4 h hstrips, some_bind]
  refine congrArg some ?_
  funext j
  rw [vfredusum_vlmax]
  refine (laneSum_accumulateKeep_strips (H.vsetvl .m1) (fun i => a j i * b j i) _ _ _).trans ?_
  rw [← fullStrips, ← Hardware.vlmax, laneSum_accumulateKeep fun s hs => (mem_fullStrips hs).1.le,
    sum_fullStrips fun i => a j i * b j i, laneSum_splat_zero, zero_add, ← Finset.sum_range_add,
    hdiv]

structure FvecExact (H : Hardware) (G : Leftovers K) (d : ℕ) : Prop where
  inner_product : ∀ x y, x.length = d → y.length = d →
    Agree (fvecInnerProductRef x y d) (fvecInnerProductRvv H G x y d)
  l2sqr : ∀ x y, x.length = d → y.length = d →
    Agree (fvecL2sqrRef x y d) (fvecL2sqrRvv H G x y d)
  norm_l2sqr : ∀ x, x.length = d → Agree (fvecNormL2sqrRef x d) (fvecNormL2sqrRvv H G x d)
  inner_product_batch_4 : ∀ x y, x.length = d → (∀ j, (y j).length = d) →
    Agree (fvecInnerProductBatch4Ref x y d) (fvecInnerProductBatch4Rvv H G x y d)
  l2sqr_batch_4 : ∀ x y, x.length = d → (∀ j, (y j).length = d) →
    Agree (fvecL2sqrBatch4Ref x y d) (fvecL2sqrBatch4Rvv H G x y d)

/-- **The `float` kernels are exact** for every dimension and on all hardware.  A read behind the
last component of a vector would leave the result undefined, so there is none. -/
theorem fvec_rvv_exact (H : Hardware) (G : Leftovers K) (d : ℕ) : FvecExact H G d where
  inner_product x y hx hy := ⟨_,
    sumRef_eq fun i hi => innerProductTerm_eq _ (by omega) (by omega),
    fvecRvv_eq H G (innerProductFactors_eq hx hy)⟩
  l2sqr x y hx hy := ⟨_,
    sumRef_eq fun i hi => l2sqrTerm_eq _ (by omega) (by omega),
    fvecRvv_eq H G (l2sqrFactors_eq hx hy)⟩
  norm_l2sqr x hx := ⟨_,
    sumRef_eq fun i hi => normL2sqrTerm_eq _ (by omega),
    fvecRvv_eq H G (normL2sqrFactors_eq hx)⟩
  inner_product_batch_4 x y hx hy := ⟨_,
    sumBatch4Ref_eq fun j i hi => innerProductTerm_eq _ (by omega) (hi.trans_eq (hy j).symm),
    fvecBatch4Rvv_eq H G (innerProductFactors4_eq hx hy)⟩
  l2sqr_batch_4 x y hx hy := ⟨_,
    sumBatch4Ref_eq fun j i hi => l2sqrTerm_eq _ (by omega) (hi.trans_eq (hy j).symm),
    fvecBatch4Rvv_eq H G (l2sqrFactors4_eq hx hy)⟩

end Float

/-! ### `fp16` and `bf16` -/

section Half

def EvenStrips (H : Hardware) (l : Lmul) (d : ℕ) : Prop :=
  0 < d ∧ ∀ s ∈ (H.vsetvl l).strips 0 d, s.len = (H.vsetvl l).run d d

variable {H : Hardware} {l : Lmul} {d : ℕ} {value : α → K}

def looseSum (H : Hardware) (l : Lmul) (d : ℕ) (t : ℕ → K) (tail : ℕ → Reg K) (undef : K) : K :=
  vfredusum (accumulate t tail ((H.vsetvl l).strips 0 d) (splat 0)) ((H.vsetvl l).run d d) undef

lemma mem_strips_le (hs : s ∈ (H.vsetvl l).strips 0 d) : s.offset + s.len ≤ d := by
  have := ((H.vsetvl l).mem_strips hs).2.2.2
  omega

lemma halfVecRvv_eq {factors : Factors K} {a b : ℕ → K} (h : OperandsAre factors a b d)
    (G : Leftovers K) : halfVecRvv H G l factors d
      = some (looseSum H l d (fun i => a i * b i) (G.tail 0) (G.undef 0)) := by
  rw [halfVecRvv, foldlM_looseTurn h fun s hs => mem_strips_le hs]
  rfl

lemma halfVecBatch4Rvv_eq {factors : Factors4 K} {a b : Fin 4 → ℕ → K}
    (h : OperandsAre4 factors a b d) (G : Leftovers K) : halfVecBatch4Rvv H G l factors d
      = some fun j => looseSum H l d (fun i => a j i * b j i) (G.tail j) (G.undef j) := by
  rw [halfVecBatch4Rvv, foldlM_looseTurn4 h fun s hs => mem_strips_le hs]
  rfl

lemma forall_looseSum_iff [Nontrivial K] {T : Set (ℕ → K)}
    (hT : ∀ i < d, (Pi.single i 1 : ℕ → K) ∈ T) (hne : T.Nonempty) :
    (∀ t ∈ T, ∀ tail undef, looseSum H l d t tail undef = ∑ i ∈ Finset.range d, t i)
      ↔ EvenStrips H l d := by
  refine (forall_vfredusum_accumulate_iff (H.vsetvl l) hT hne).trans (and_congr_left fun _ => ?_)
  constructor
  · intro h
    exact h.trans_le ((H.vsetvl l).le d d)
  · intro h
    exact (H.vsetvl l).pos d h

lemma agree_iff {β : Type*} {ref rvv : Option β} {u v : β} (href : ref = some u)
    (hrvv : rvv = some v) : Agree ref rvv ↔ v = u := by
  constructor
  · rintro ⟨w, hw, hw'⟩
    rw [href] at hw
    rw [hrvv] at hw'
    exact (some.inj hw').trans (some.inj hw).symm
  · rintro rfl
    exact ⟨v, href, hrvv⟩

/-- **When a kernel is exact on all its inputs.**  `I` are the inputs, of which those with `ok` have
`d` components, and among which there is one for each unit vector of terms. -/
theorem forall_agree_iff [Nontrivial K] {I : Type} (ok : I → Prop) {ref : I → Option K}
    {factors : I → Factors K} {a b : I → ℕ → K}
    (href : ∀ p, ok p → ref p = some (∑ i ∈ Finset.range d, a p i * b p i))
    (hfac : ∀ p, ok p → OperandsAre (factors p) (a p) (b p) d)
    (hunit : ∀ i < d, ∃ p, ok p ∧ (fun j => a p j * b p j) = Pi.single i 1) (hne : ∃ p, ok p) :
    (∀ G p, ok p → Agree (ref p) (halfVecRvv H G l (factors p) d)) ↔ EvenStrips H l d := by
  rw [← forall_looseSum_iff (T := {t | ∃ p, ok p ∧ (fun j => a p j * b p j) = t}) hunit
    (hne.elim fun p hp => ⟨_, p, hp, rfl⟩)]
  constructor
  · rintro h t ⟨p, hp, rfl⟩ tail undef
    exact (agree_iff (href p hp) (halfVecRvv_eq (hfac p hp) _)).mp
      (h ⟨fun _ => tail, fun _ => undef⟩ p hp)
  · intro h G p hp
    exact (agree_iff (href p hp) (halfVecRvv_eq (hfac p hp) G)).mpr (h _ ⟨p, hp, rfl⟩ _ _)

section Pairs

variable [Nontrivial K] {term : List α → List α → ℕ → Option K} {a b : List α → List α → ℕ → K}
  (hterm : ∀ {x y i}, i < x.length → i < y.length → term x y i = some (a x y i * b x y i))
  (hunit : ∀ i < d, ∃ x y, x.length = d ∧ y.length = d ∧
    (fun j => a x y j * b x y j) = Pi.single i 1) (z : α)

include hterm hunit z

lemma forall_agree_pair_iff {factors : List α → List α → Factors K}
    (hfac : ∀ {x}, x.length = d → ∀ {y}, y.length = d →
      OperandsAre (factors x y) (a x y) (b x y) d) :
    (∀ (G : Leftovers K) x y, x.length = d → y.length = d →
      Agree (sumRef (term x y) d) (halfVecRvv H G l (factors x y) d)) ↔ EvenStrips H l d := by
  have hkernel := forall_agree_iff (H := H) (l := l)
    (fun p : List α × List α => p.1.length = d ∧ p.2.length = d)
    (fun p hp => sumRef_eq fun i hi => hterm (hi.trans_eq hp.1.symm) (hi.trans_eq hp.2.symm))
    (fun p hp => hfac hp.1 hp.2)
    (fun i hi => (hunit i hi).elim fun x ⟨y, hx, hy, h⟩ => ⟨(x, y), ⟨hx, hy⟩, h⟩)
    ⟨(replicate d z, replicate d z), by simp⟩
  rw [← hkernel]
  exact ⟨fun h G p hp => h G p.1 p.2 hp.1 hp.2, fun h G x y hx hy => h G (x, y) ⟨hx, hy⟩⟩

lemma forall_agree_batch4_iff {factors : List α → (Fin 4 → List α) → Factors4 K}
    (hfac : ∀ {x}, x.length = d → ∀ {y}, (∀ j, (y j).length = d) →
      OperandsAre4 (factors x y) (fun j => a x (y j)) (fun j => b x (y j)) d) :
    (∀ (G : Leftovers K) x y, x.length = d → (∀ j, (y j).length = d) →
      Agree (sumBatch4Ref (fun j => term x (y j)) d) (halfVecBatch4Rvv H G l (factors x y) d))
        ↔ EvenStrips H l d := by
  have hagree := fun G {x y} hx hy => agree_iff (sumBatch4Ref_eq fun j i hi =>
    hterm (hi.trans_eq hx.symm) (hi.trans_eq (hy j).symm))
    (halfVecBatch4Rvv_eq (H := H) (l := l) (@hfac x hx y hy) G)
  constructor
  · intro h
    rw [← forall_looseSum_iff (T := {t | ∃ x y, x.length = d ∧ y.length = d ∧
      (fun j => a x y j * b x y j) = t}) hunit
      ⟨_, replicate d z, replicate d z, by simp, by simp, rfl⟩]
    rintro t ⟨x, y, hx, hy, rfl⟩ tail undef
    exact congrFun ((hagree _ hx fun _ => hy).mp
      (h ⟨fun _ => tail, fun _ => undef⟩ x (fun _ => y) hx fun _ => hy)) 0
  · intro h G x y hx hy
    refine (hagree G hx hy).mpr (funext fun j => ?_)
    exact (forall_looseSum_iff (T := Set.univ) (fun _ _ => trivial) ⟨0, trivial⟩).mpr h _ trivial
      _ _

end Pairs

/-! The five kinds of kernels, for components that include zero and one -/

def unitVector (z w : α) (d i : ℕ) : List α := (range d).map fun j => if j = i then w else z

@[simp] lemma length_unitVector (z w : α) (i : ℕ) : (unitVector z w d i).length = d := by
  simp [unitVector]

section Kinds

variable {z w : α} (hz : value z = 0) (hw : value w = 1)

include hz in
lemma entry_replicate : entry value (replicate d z) = 0 := by
  funext j
  by_cases hj : j < d
  · simp [entry, component, hj, hz]
  · simp [entry, component, hj]

include hz hw in
lemma entry_unitVector (hi : i < d) : entry value (unitVector z w d i) = Pi.single i 1 := by
  funext j
  by_cases hj : j < d
  · by_cases hji : j = i
    · subst hji
      simp [entry, component, unitVector, hj, hw]
    · simp [entry, component, unitVector, hj, hji, hz]
  · have hji : j ≠ i := by omega
    simp [entry, component, unitVector, hj, hji]

include hz hw in
lemma unitVector_mul_self (hi : i < d) : (fun j => entry value (unitVector z w d i) j *
    entry value (unitVector z w d i) j) = Pi.single i 1 := by
  rw [entry_unitVector hz hw hi]
  funext j
  by_cases hj : j = i <;> simp [hj]

include hz hw

lemma inner_product_units : ∀ i < d, ∃ x y : List α, x.length = d ∧ y.length = d ∧
    (fun j => entry value x j * entry value y j) = Pi.single i 1 := fun i hi =>
  ⟨unitVector z w d i, _, by simp, by simp, unitVector_mul_self hz hw hi⟩

lemma l2sqr_units : ∀ i < d, ∃ x y : List α, x.length = d ∧ y.length = d ∧ (fun j =>
    (entry value x j - entry value y j) * (entry value x j - entry value y j)) = Pi.single i 1 := by
  refine fun i hi => ⟨unitVector z w d i, replicate d z, by simp, by simp, ?_⟩
  rw [entry_unitVector hz hw hi, entry_replicate hz]
  funext j
  by_cases hj : j = i <;> simp [hj]

lemma half_norm_l2sqr_iff [Nontrivial K] :
    (∀ (G : Leftovers K) x, x.length = d → Agree (sumRef (normL2sqrTerm value x) d)
      (halfVecRvv H G l (normL2sqrFactors value x) d)) ↔ EvenStrips H l d :=
  forall_agree_iff (fun x : List α => x.length = d)
    (fun x hx => sumRef_eq fun i hi => normL2sqrTerm_eq _ (hi.trans_eq hx.symm))
    (fun x hx => normL2sqrFactors_eq hx)
    (fun i hi => ⟨unitVector z w d i, by simp, unitVector_mul_self hz hw hi⟩)
    ⟨replicate d z, by simp⟩

end Kinds

variable (F : FloatFormat K)

structure HalfVecExact (H : Hardware) (d : ℕ) : Prop where
  fp16_inner_product : ∀ (G : Leftovers K) x y, x.length = d → y.length = d →
    Agree (fp16VecInnerProductRef F x y d) (fp16VecInnerProductRvv F H G x y d)
  fp16_l2sqr : ∀ (G : Leftovers K) x y, x.length = d → y.length = d →
    Agree (fp16VecL2sqrRef F x y d) (fp16VecL2sqrRvv F H G x y d)
  fp16_norm_l2sqr : ∀ (G : Leftovers K) x, x.length = d →
    Agree (fp16VecNormL2sqrRef F x d) (fp16VecNormL2sqrRvv F H G x d)
  fp16_inner_product_batch_4 : ∀ (G : Leftovers K) x y, x.length = d → (∀ j, (y j).length = d) →
    Agree (fp16VecInnerProductBatch4Ref F x y d) (fp16VecInnerProductBatch4Rvv F H G x y d)
  fp16_l2sqr_batch_4 : ∀ (G : Leftovers K) x y, x.length = d → (∀ j, (y j).length = d) →
    Agree (fp16VecL2sqrBatch4Ref F x y d) (fp16VecL2sqrBatch4Rvv F H G x y d)
  bf16_inner_product : ∀ (G : Leftovers K) x y, x.length = d → y.length = d →
    Agree (bf16VecInnerProductRef F x y d) (bf16VecInnerProductRvv F H G x y d)
  bf16_l2sqr : ∀ (G : Leftovers K) x y, x.length = d → y.length = d →
    Agree (bf16VecL2sqrRef F x y d) (bf16VecL2sqrRvv F H G x y d)
  bf16_norm_l2sqr : ∀ (G : Leftovers K) x, x.length = d →
    Agree (bf16VecNormL2sqrRef F x d) (bf16VecNormL2sqrRvv F H G x d)
  bf16_inner_product_batch_4 : ∀ (G : Leftovers K) x y, x.length = d → (∀ j, (y j).length = d) →
    Agree (bf16VecInnerProductBatch4Ref F x y d) (bf16VecInnerProductBatch4Rvv F H G x y d)
  bf16_l2sqr_batch_4 : ∀ (G : Leftovers K) x y, x.length = d → (∀ j, (y j).length = d) →
    Agree (bf16VecL2sqrBatch4Ref F x y d) (bf16VecL2sqrBatch4Rvv F H G x y d)

end Half

/-- **When the half-precision kernels are exact**, for all vectors and whatever the instructions
leave in the tails: exactly if the hardware cuts the `d` components into even strips, for each of
the sizes of register groups that the kernels use. -/
theorem halfVecExact_iff {K : Type} [Field K] (F : FloatFormat K) (H : Hardware) (d : ℕ) :
    HalfVecExact F H d ↔ EvenStrips H .m2 d ∧ EvenStrips H .m4 d ∧ EvenStrips H .m8 d := by
  have ip16 := inner_product_units (d := d) F.ofHalf_zero F.ofHalf_one
  have l16 := l2sqr_units (d := d) F.ofHalf_zero F.ofHalf_one
  have ipB := inner_product_units (d := d) F.ofBf16_zero F.ofBf16_one
  have lB := l2sqr_units (d := d) F.ofBf16_zero F.ofBf16_one
  constructor
  · intro h
    exact ⟨(forall_agree_batch4_iff (l2sqrTerm_eq _) lB 0 l2sqrFactors4_eq).mp h.bf16_l2sqr_batch_4,
      (forall_agree_pair_iff (l2sqrTerm_eq _) l16 0 l2sqrFactors_eq).mp h.fp16_l2sqr,
      (forall_agree_pair_iff (innerProductTerm_eq _) ip16 0 innerProductFactors_eq).mp
        h.fp16_inner_product⟩
  · rintro ⟨h2, h4, h8⟩
    exact {
      fp16_inner_product :=
        (forall_agree_pair_iff (innerProductTerm_eq _) ip16 0 innerProductFactors_eq).mpr h8
      fp16_l2sqr := (forall_agree_pair_iff (l2sqrTerm_eq _) l16 0 l2sqrFactors_eq).mpr h4
      fp16_norm_l2sqr := (half_norm_l2sqr_iff F.ofHalf_zero F.ofHalf_one).mpr h8
      fp16_inner_product_batch_4 :=
        (forall_agree_batch4_iff (innerProductTerm_eq _) ip16 0 innerProductFactors4_eq).mpr h4
      fp16_l2sqr_batch_4 := (forall_agree_batch4_iff (l2sqrTerm_eq _) l16 0 l2sqrFactors4_eq).mpr h4
      bf16_inner_product :=
        (forall_agree_pair_iff (innerProductTerm_eq _) ipB 0 innerProductFactors_eq).mpr h8
      bf16_l2sqr := (forall_agree_pair_iff (l2sqrTerm_eq _) lB 0 l2sqrFactors_eq).mpr h4
      bf16_norm_l2sqr := (half_norm_l2sqr_iff F.ofBf16_zero F.ofBf16_one).mpr h8
      bf16_inner_product_batch_4 :=
        (forall_agree_batch4_iff (innerProductTerm_eq _) ipB 0 innerProductFactors4_eq).mpr h4
      bf16_l2sqr_batch_4 :=
        (forall_agree_batch4_iff (l2sqrTerm_eq _) lB 0 l2sqrFactors4_eq).mpr h2 }

/-- Registers of 128 bits that take as much as fits, and 33 components.  The second strip has one
element, and takes the other 31 lanes away. -/
theorem fp16_inner_product_33 :
    fp16VecInnerProductRef FloatFormat.ieee (replicate 33 0x3C00#16)
        (replicate 33 0x3C00#16) 33 = some 33
      ∧ fp16VecInnerProductRvv FloatFormat.ieee (Hardware.greedy 4 (by decide))
        ⟨fun _ _ _ => 0, fun _ => 0⟩ (replicate 33 0x3C00#16)
        (replicate 33 0x3C00#16) 33 = some 2 := by
  decide +kernel

end Rvanns.Simd
