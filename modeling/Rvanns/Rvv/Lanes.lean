import Rvanns.Cpp.Vector

/-!
# Strip-mined loops and their accumulators

A vector loop over `n` elements asks the hardware before each turn how many of the remaining ones
the turn may handle.  A register group is a function from lanes to values; a group of `vlmax`
elements has the lanes below `vlmax`.
-/

namespace Rvanns.Rvv

open Cpp Literals List

structure Strip where
  offset : ℕ
  len : ℕ
deriving DecidableEq, Repr

structure Vsetvl (vlmax : ℕ) where
  run : ℕ → ℕ → ℕ
  pos : ∀ o {n}, 0 < n → 0 < run o n
  le : ∀ o n, run o n ≤ n
  le_vlmax : ∀ o n, run o n ≤ vlmax

def fullStrips (v q : ℕ) : List Strip := (List.range q).map fun j => ⟨v * j, v⟩

lemma mem_fullStrips (h : s ∈ fullStrips v q) : s.len = v ∧ s.offset + s.len ≤ v * q := by
  obtain ⟨j, hj, rfl⟩ := mem_map.mp h
  refine ⟨rfl, ?_⟩
  exact Nat.mul_le_mul_left v (mem_range.mp hj)

lemma foldlM_sum {K : Type} [AddCommMonoid K] {body : K → ℕ → Option K} {t : ℕ → K}
    (h : ∀ i < n, ∀ acc, body acc i = some (acc + t i)) :
    (List.range n).foldlM body 0 = some (∑ i ∈ Finset.range n, t i) := by
  induction n with
  | zero => rfl
  | succ n ih =>
    rw [range_succ, foldlM_append, ih fun i hi => h i (by omega), Finset.sum_range_succ]
    simp [h n (by omega)]

lemma sum_fullStrips {K : Type*} [AddCommMonoid K] (t : ℕ → K) (v q : ℕ) :
    ((fullStrips v q).map fun s => ∑ k ∈ Finset.range s.len, t (s.offset + k)).sum
      = ∑ i ∈ Finset.range (v * q), t i := by
  induction q with
  | zero => rfl
  | succ q ih =>
    rw [fullStrips, range_succ, map_append, map_append, sum_append,
      ← fullStrips, ih, Nat.mul_succ, Finset.sum_range_add]
    simp

namespace Vsetvl

variable {vlmax : ℕ} (V : Vsetvl vlmax)

lemma vlmax_pos (V : Vsetvl vlmax) : 0 < vlmax := (V.pos 0 one_pos).trans_le (V.le_vlmax 0 1)

def greedy (vlmax : ℕ) (h : 0 < vlmax) : Vsetvl vlmax where
  run _ n := min n vlmax
  pos _ _ hn := lt_min hn h
  le _ n := min_le_left n vlmax
  le_vlmax _ n := min_le_right n vlmax

def stripsFrom : ℕ → ℕ → ℕ → List Strip
  | 0, _, _ => []
  | fuel + 1, o, n =>
    if n = 0 then []
    else ⟨o, V.run o n⟩ :: stripsFrom fuel (o + V.run o n) (n - V.run o n)

def strips (o n : ℕ) : List Strip := V.stripsFrom n o n

lemma stripsFrom_of_le (h : n ≤ fuel) (o : ℕ) : V.stripsFrom fuel o n = V.strips o n := by
  induction n using Nat.strong_induction_on generalizing fuel o with
  | _ n ih =>
  rcases Nat.eq_zero_or_pos n with rfl | hn
  · cases fuel <;> rfl
  obtain ⟨fuel, rfl⟩ : ∃ m, fuel = m + 1 := ⟨fuel - 1, by omega⟩
  obtain ⟨m, rfl⟩ : ∃ m, n = m + 1 := ⟨n - 1, by omega⟩
  have hvl := V.pos o hn
  -- the rest of the range is shorter, whichever fuel it is given
  have hrest : ∀ f, m + 1 - V.run o (m + 1) ≤ f →
      V.stripsFrom f (o + V.run o (m + 1)) (m + 1 - V.run o (m + 1))
        = V.strips (o + V.run o (m + 1)) (m + 1 - V.run o (m + 1)) :=
    fun f hf => ih _ (by omega) hf _
  rw [strips, stripsFrom, stripsFrom, if_neg (by omega), if_neg (by omega),
    hrest fuel (by omega), hrest m (by omega)]

lemma strips_of_pos (hn : 0 < n) (o : ℕ) :
    V.strips o n = ⟨o, V.run o n⟩ :: V.strips (o + V.run o n) (n - V.run o n) := by
  obtain ⟨m, rfl⟩ : ∃ m, n = m + 1 := ⟨n - 1, by omega⟩
  have hvl := V.pos o hn
  rw [strips, stripsFrom, if_neg (by omega), V.stripsFrom_of_le (by omega)]

lemma strips_induction {P : ℕ → ℕ → List Strip → Prop} (hnil : ∀ o, P o 0 [])
    (hcons : ∀ o n ss, 0 < n → P (o + V.run o n) (n - V.run o n) ss →
      P o n (⟨o, V.run o n⟩ :: ss)) (o n : ℕ) : P o n (V.strips o n) := by
  induction n using Nat.strong_induction_on generalizing o with
  | _ n ih =>
  rcases Nat.eq_zero_or_pos n with rfl | hn
  · exact hnil o
  · have hvl := V.pos o hn
    rw [V.strips_of_pos hn]
    exact hcons o n _ hn (ih _ (by omega) _)

lemma mem_strips (h : s ∈ V.strips o n) :
    0 < s.len ∧ s.len ≤ vlmax ∧ o ≤ s.offset ∧ s.offset + s.len ≤ o + n := by
  revert h
  refine V.strips_induction (P := fun o n ss => s ∈ ss → 0 < s.len ∧ s.len ≤ vlmax
    ∧ o ≤ s.offset ∧ s.offset + s.len ≤ o + n) ?_ ?_ o n
  · intro o h
    cases h
  · intro o n ss hn ih h
    have hle := V.le o n
    rcases mem_cons.mp h with rfl | h
    · exact ⟨V.pos o hn, V.le_vlmax o n, le_rfl, by dsimp only; omega⟩
    · obtain ⟨hpos, hmax, hlow, hhigh⟩ := ih h
      exact ⟨hpos, hmax, by omega, by omega⟩

lemma strips_disjoint (hs : s ∈ V.strips o n) (hs' : s' ∈ V.strips o n)
    (hlow : s.offset ≤ i) (hhigh : i < s.offset + s.len) (hlow' : s'.offset ≤ i)
    (hhigh' : i < s'.offset + s'.len) : s = s' := by
  revert hs hs'
  refine (V.strips_induction (P := fun o _ ss => (∀ s ∈ ss, o ≤ s.offset)
    ∧ (s ∈ ss → s' ∈ ss → s = s')) ?_ ?_ o n).2
  · intro o
    exact ⟨by simp, fun h => by cases h⟩
  · rintro o n ss hn ⟨hbound, ih⟩
    refine ⟨?_, ?_⟩
    · intro r hr
      rcases mem_cons.mp hr with rfl | hr
      · exact le_rfl
      · have := hbound r hr
        omega
    · intro hs hs'
      rcases mem_cons.mp hs with rfl | hs <;> rcases mem_cons.mp hs' with rfl | hs'
      · rfl
      · have := hbound s' hs'
        dsimp only at hhigh
        omega
      · have := hbound s hs
        dsimp only at hhigh'
        omega
      · exact ih hs hs'

lemma sum_strips {K : Type*} [AddCommMonoid K] (t : ℕ → K) (o n : ℕ) :
    ((V.strips o n).map fun s => ∑ k ∈ Finset.range s.len, t (s.offset + k)).sum
      = ∑ i ∈ Finset.range n, t (o + i) := by
  refine V.strips_induction (P := fun o n ss =>
    (ss.map fun s => ∑ k ∈ Finset.range s.len, t (s.offset + k)).sum
      = ∑ i ∈ Finset.range n, t (o + i)) ?_ ?_ o n
  · intro o
    rfl
  · intro o n ss hn ih
    have hsplit : n = V.run o n + (n - V.run o n) := (Nat.add_sub_cancel' (V.le o n)).symm
    have hshift : ∀ i, t (o + V.run o n + i) = t (o + (V.run o n + i)) := fun i => by rw [add_assoc]
    rw [map_cons, sum_cons, ih]
    conv_rhs => rw [hsplit, Finset.sum_range_add]
    simp only [hshift]

lemma mem_greedy_strips (hv : 0 < v) (h : s ∈ (greedy v hv).strips o n) :
    ∃ j, s.offset = o + v * j ∧ (s.len = v ∨ s.offset + s.len = o + n) := by
  revert h
  refine ((greedy v hv).strips_induction (P := fun o n ss => (n = 0 → ss = []) ∧ (s ∈ ss →
    ∃ j, s.offset = o + v * j ∧ (s.len = v ∨ s.offset + s.len = o + n))) ?_ ?_ o n).2
  · intro o
    exact ⟨fun _ => rfl, fun h => by cases h⟩
  · rintro o n ss hn ⟨hnil, ih⟩
    have hrun : (greedy v hv).run o n = min n v := rfl
    refine ⟨fun hzero => by omega, fun h => ?_⟩
    rcases mem_cons.mp h with rfl | h
    · refine ⟨0, rfl, ?_⟩
      dsimp only
      omega
    · -- there is a second strip, so that the first one is full
      have hge : v ≤ n := by
        by_contra hlt
        rw [hnil (by omega)] at h
        cases h
      obtain ⟨j, hoffset, hlen⟩ := ih h
      refine ⟨j + 1, ?_, by omega⟩
      rw [hoffset, Nat.mul_succ]
      omega

lemma foldlM_strips {m : Type → Type} [Monad m] [LawfulMonad m] {σ : Type}
    (body : σ → Strip → m σ) (f : ℕ → σ) (o n : ℕ)
    (h : ∀ s : Strip, 0 < s.len → s.len ≤ vlmax → o ≤ s.offset → s.offset + s.len ≤ o + n →
      body (f s.offset) s = pure (f (s.offset + s.len))) :
    (V.strips o n).foldlM body (f o) = pure (f (o + n)) := by
  revert h
  refine V.strips_induction (P := fun o n ss => (∀ s : Strip, 0 < s.len → s.len ≤ vlmax →
    o ≤ s.offset → s.offset + s.len ≤ o + n → body (f s.offset) s = pure (f (s.offset + s.len))) →
    ss.foldlM body (f o) = pure (f (o + n))) ?_ ?_ o n
  · intro o _
    rfl
  · intro o n ss hn ih h
    have hle := V.le o n
    have hfirst := h ⟨o, V.run o n⟩ (V.pos o hn) (V.le_vlmax o n) le_rfl (by dsimp only; omega)
    rw [foldlM_cons, hfirst, pure_bind, ih, add_assoc, Nat.add_sub_cancel' hle]
    intro s hpos hmax hlow hhigh
    exact h s hpos hmax (by omega) (by omega)

lemma foldlM_append_strips {α : Type} (body : List α → Strip → Option (List α)) (g : ℕ → α)
    (n : ℕ) (h : ∀ out (s : Strip), s.offset + s.len ≤ n →
      body out s = some (out ++ (List.range s.len).map fun k => g (s.offset + k))) :
    (V.strips 0 n).foldlM body [] = some ((List.range n).map g) := by
  have hloop := V.foldlM_strips body (fun p => (List.range p).map g) 0 n fun s _ _ _ hs => by
    rw [h _ s (by omega), range_add, map_append, map_map]
    rfl
  rwa [zero_add] at hloop

end Vsetvl

variable {α K : Type*}

abbrev Reg (K : Type*) := ℕ → K

inductive Lmul where
  | m1
  | m2
  | m4
  | m8
deriving DecidableEq, Repr

def Lmul.factor : Lmul → ℕ
  | .m1 => 1
  | .m2 => 2
  | .m4 => 4
  | .m8 => 8

/-- Vector hardware whose registers have `lanes` lanes of 32 bits, with its answers to `vsetvl`.
Elements of 16 bits in groups of half the size have the same number of lanes and are asked for in
the same way. -/
structure Hardware where
  lanes : ℕ
  vsetvl : ∀ l : Lmul, Vsetvl (l.factor * lanes)

def Hardware.vlmax (H : Hardware) (l : Lmul) : ℕ := l.factor * H.lanes

lemma Hardware.vlmax_pos (H : Hardware) (l : Lmul) : 0 < H.vlmax l := (H.vsetvl l).vlmax_pos

def Hardware.greedy (lanes : ℕ) (h : 0 < lanes) : Hardware where
  lanes := lanes
  vsetvl l := Vsetvl.greedy _ (Nat.mul_pos (by cases l <;> decide) h)

/-- The contents that instructions leave where their tail policy does not say any: `tail a o` in the
lanes of accumulator `a` that the strip at `o` does not reach, `undef a` in the sum of its lanes if
that is not written at all. -/
structure Leftovers (K : Type*) where
  tail : ℕ → ℕ → Reg K
  undef : ℕ → K

def vle (v : List α) (pos vl : ℕ) : Option (List α) := readRange v pos (pos + vl)

def splat (a : K) : Reg K := fun _ => a

def vfadd [Add K] (a b : Reg K) : Reg K := fun k => a k + b k

def vfsub [Sub K] (a b : List K) : List K := a.zipWith (· - ·) b

def vfmadd [Add K] [Mul K] (a b d : List K) : List K := (a.zipWith (· * ·) b).zipWith (· + ·) d

def vfmacc [Add K] [Mul K] (acc : Reg K) (a b : List K) (tail : Reg K) : Reg K := fun k =>
  match (a.zipWith (· * ·) b)[k]? with
  | some p => acc k + p
  | none => tail k

def vfmaccTu [Add K] [Mul K] (acc : Reg K) (a b : List K) : Reg K := vfmacc acc a b acc

def laneSum [AddCommMonoid K] (n : ℕ) (r : Reg K) : K := ∑ k ∈ Finset.range n, r k

def laneSum4 [AddCommMonoid K] (n : ℕ) (r : Fin 4 → Reg K) : K :=
  laneSum n (r 0) + laneSum n (r 1) + (laneSum n (r 2) + laneSum n (r 3))

def vfredusum [AddCommMonoid K] (r : Reg K) (vl : ℕ) (undef : K) : K :=
  if vl = 0 then undef else laneSum vl r

lemma vfredusum_vlmax [AddCommMonoid K] (H : Hardware) (l : Lmul) (r : Reg K) (undef : K) :
    vfredusum r (H.vlmax l) undef = laneSum (H.vlmax l) r :=
  if_neg (H.vlmax_pos l).ne'

@[simp] lemma laneSum_splat_zero [AddCommMonoid K] (n : ℕ) : laneSum n (splat (0 : K)) = 0 :=
  Finset.sum_const_zero

lemma laneSum_vfadd [AddCommMonoid K] (n : ℕ) (r r' : Reg K) :
    laneSum n (vfadd r r') = laneSum n r + laneSum n r' :=
  Finset.sum_add_distrib

lemma vle_eq_some (h : ∀ k < vl, v[pos + k]? = some (f k)) :
    vle v pos vl = some ((range vl).map f) :=
  readRange_eq_map h

lemma vle_eq_getD (h : pos + vl ≤ v.length) (a : α) :
    vle v pos vl = some ((range vl).map fun k => v.getD (pos + k) a) := by
  apply vle_eq_some
  intro k hk
  exact getElem?_eq_getD (by omega) a

lemma vfmadd_map [Add K] [Mul K] (f g e : ℕ → K) (vl : ℕ) :
    vfmadd ((range vl).map f) ((range vl).map g) ((range vl).map e)
      = (range vl).map fun k => f k * g k + e k := by
  simp [vfmadd, zipWith_map]

lemma take_range_map (g : ℕ → α) (v n : ℕ) :
    ((range n).map g).take v = (range (min v n)).map g := by
  rw [← map_take, take_range]

lemma drop_range_map (g : ℕ → α) (v n : ℕ) :
    ((range n).map g).drop v = (range (n - v)).map fun k => g (v + k) := by
  apply ext_getElem?
  intro k
  by_cases hk : k < n - v
  · simp [hk]
  · simp [hk]

@[simp] lemma vfsub_map [Sub K] (f g : ℕ → K) (vl : ℕ) :
    vfsub ((range vl).map f) ((range vl).map g) = (range vl).map fun k => f k - g k := by
  simp [vfsub, zipWith_map]

lemma vfmacc_map [Add K] [Mul K] (acc tail : Reg K) (f g : ℕ → K) (vl : ℕ) :
    vfmacc acc ((range vl).map f) ((range vl).map g) tail
      = fun k => if k < vl then acc k + f k * g k else tail k := by
  funext k
  rw [vfmacc]
  by_cases hk : k < vl
  · simp [hk]
  · simp [hk]

lemma foldl_pi {ι β σ : Type*} (f : ι → σ → β → σ) (l : List β) (acc : ι → σ) :
    l.foldl (fun acc b j => f j (acc j) b) acc = fun j => l.foldl (f j) (acc j) := by
  induction l generalizing acc with
  | nil => rfl
  | cons b l ih => exact ih _

section Accumulate

variable [CommRing K] (t : ℕ → K)

def addStrip (tail : Reg K) (acc : Reg K) (s : Strip) : Reg K := fun k =>
  if k < s.len then acc k + t (s.offset + k) else tail k

def accumulateKeep (ss : List Strip) (acc : Reg K) : Reg K :=
  ss.foldl (fun acc s => addStrip t acc acc s) acc

def accumulate (tail : ℕ → Reg K) (ss : List Strip) (acc : Reg K) : Reg K :=
  ss.foldl (fun acc s => addStrip t (tail s.offset) acc s) acc

variable {t}

lemma laneSum_addStrip_keep (hs : s.len ≤ vlmax) (acc : Reg K) :
    laneSum vlmax (addStrip t acc acc s)
      = laneSum vlmax acc + ∑ k ∈ Finset.range s.len, t (s.offset + k) := by
  obtain ⟨rest, rfl⟩ := Nat.exists_eq_add_of_le hs
  have hactive : ∑ k ∈ Finset.range s.len, addStrip t acc acc s k
      = ∑ k ∈ Finset.range s.len, (acc k + t (s.offset + k)) :=
    Finset.sum_congr rfl fun k hk => if_pos (Finset.mem_range.mp hk)
  have htail : ∑ k ∈ Finset.range rest, addStrip t acc acc s (s.len + k)
      = ∑ k ∈ Finset.range rest, acc (s.len + k) :=
    Finset.sum_congr rfl fun k _ => if_neg (by omega)
  rw [laneSum, laneSum, Finset.sum_range_add, Finset.sum_range_add, hactive, htail,
    Finset.sum_add_distrib]
  exact add_right_comm _ _ _

lemma laneSum_accumulateKeep (hss : ∀ s ∈ ss, s.len ≤ vlmax)
    (acc : Reg K) : laneSum vlmax (accumulateKeep t ss acc)
      = laneSum vlmax acc + (ss.map fun s => ∑ k ∈ Finset.range s.len, t (s.offset + k)).sum := by
  induction ss generalizing acc with
  | nil => simp [accumulateKeep]
  | cons s ss ih =>
    obtain ⟨hs, hss⟩ := forall_mem_cons.mp hss
    show laneSum vlmax (accumulateKeep t ss (addStrip t acc acc s)) = _
    rw [ih hss, laneSum_addStrip_keep hs, map_cons, sum_cons, add_assoc]

def Lost (ss : List Strip) (k : ℕ) : Prop := ∃ s ∈ ss, s.len ≤ k

instance (ss : List Strip) (k : ℕ) : Decidable (Lost ss k) :=
  inferInstanceAs (Decidable (∃ s ∈ ss, s.len ≤ k))

lemma lost_cons : Lost (s :: ss) k ↔ s.len ≤ k ∨ Lost ss k := by
  simp [Lost]

lemma accumulate_of_not_lost {tail : ℕ → Reg K} (hk : ¬ Lost ss k) (acc : Reg K) :
    accumulate t tail ss acc k = acc k + (ss.map fun s => t (s.offset + k)).sum := by
  induction ss generalizing acc with
  | nil => simp [accumulate]
  | cons s ss ih =>
    rw [lost_cons, not_or] at hk
    show accumulate t tail ss (addStrip t (tail s.offset) acc s) k = _
    rw [ih hk.2, addStrip, if_pos (by omega), map_cons, sum_cons, add_assoc]

lemma accumulate_add (ss : List Strip) (acc e τ : Reg K) (k : ℕ) :
    accumulate t (fun _ => τ) ss (acc + e) k
      = accumulate t (fun _ => 0) ss acc k + if Lost ss k then τ k else e k := by
  induction ss generalizing acc e with
  | nil => rfl
  | cons s ss ih =>
    -- the two runs now differ by `τ` in the lanes this strip does not reach
    have hstep : addStrip t τ (acc + e) s
        = addStrip t 0 acc s + fun k => if k < s.len then e k else τ k := by
      funext j
      by_cases hj : j < s.len
      · simp only [addStrip, Pi.add_apply, if_pos hj]
        exact add_right_comm _ _ _
      · simp [addStrip, hj]
    show accumulate t (fun _ => τ) ss (addStrip t τ (acc + e) s) k
      = accumulate t (fun _ => 0) ss (addStrip t 0 acc s) k + _
    rw [hstep, ih]
    congr 1
    by_cases hlost : Lost ss k
    · rw [if_pos hlost, if_pos (lost_cons.mpr (.inr hlost))]
    · by_cases hk : k < s.len
      · have hnot : ¬ Lost (s :: ss) k := by
          rw [lost_cons, not_or]
          exact ⟨by omega, hlost⟩
        rw [if_neg hlost, if_pos hk, if_neg hnot]
      · rw [if_neg hlost, if_neg hk, if_pos (lost_cons.mpr (.inl (by omega)))]

lemma laneSum_accumulate {tail : ℕ → Reg K}
    (hss : ∀ s ∈ ss, s.len = r) (acc : Reg K) : laneSum r (accumulate t tail ss acc)
      = laneSum r acc + (ss.map fun s => ∑ k ∈ Finset.range s.len, t (s.offset + k)).sum := by
  have hlane : ∀ k ∈ Finset.range r, accumulate t tail ss acc k
      = acc k + (ss.map fun s => t (s.offset + k)).sum := by
    intro k hk
    apply accumulate_of_not_lost
    rintro ⟨s, hs, hle⟩
    have := Finset.mem_range.mp hk
    have := hss s hs
    omega
  have hswap : ∑ k ∈ Finset.range r, (ss.map fun s => t (s.offset + k)).sum
      = (ss.map fun s => ∑ k ∈ Finset.range s.len, t (s.offset + k)).sum := by
    clear hlane
    induction ss with
    | nil => simp
    | cons s ss ih =>
      obtain ⟨hs, hss⟩ := forall_mem_cons.mp hss
      simp only [map_cons, sum_cons]
      rw [Finset.sum_add_distrib, ih hss, hs]
  rw [laneSum, laneSum, Finset.sum_congr rfl hlane, Finset.sum_add_distrib, hswap]

/-- **A short strip spoils the sum**: whatever the right value is, the lanes it leaves can hold
contents with which the reduction misses it. -/
theorem exists_tail_ne [Nontrivial K] (hs : s ∈ ss) (hlen : s.len < r) (acc : Reg K) (v : K) :
    ∃ tail, laneSum r (accumulate t tail ss acc) ≠ v := by
  -- two tails that differ in one lost lane cannot both give `v`
  have hdiff : laneSum r (accumulate t (fun _ => Pi.single s.len 1) ss acc)
      = laneSum r (accumulate t (fun _ => 0) ss acc) + 1 := by
    have hlane : ∀ k, accumulate t (fun _ => Pi.single s.len 1) ss acc k
        = accumulate t (fun _ => 0) ss acc k + (Pi.single s.len (1 : K) : Reg K) k := by
      intro k
      have h := accumulate_add (t := t) ss acc 0 (Pi.single s.len 1) k
      rw [add_zero] at h
      rw [h]
      congr 1
      by_cases hk : k = s.len
      · subst hk
        exact if_pos ⟨s, hs, le_rfl⟩
      · simp [Pi.single_eq_of_ne hk]
    have hone : ∑ k ∈ Finset.range r, (Pi.single s.len (1 : K) : Reg K) k = 1 := by
      rw [Finset.sum_eq_single_of_mem s.len (Finset.mem_range.mpr hlen)
        fun k _ hk => Pi.single_eq_of_ne hk _, Pi.single_eq_same]
    rw [laneSum, laneSum, Finset.sum_congr rfl fun k _ => hlane k, Finset.sum_add_distrib, hone]
  by_cases h0 : laneSum r (accumulate t (fun _ => 0) ss acc) = v
  · refine ⟨fun _ => Pi.single s.len 1, ?_⟩
    rw [hdiff, h0]
    simp
  · exact ⟨fun _ => 0, h0⟩

end Accumulate

section Range

variable [CommRing K] {vlmax : ℕ} (V : Vsetvl vlmax)

lemma laneSum_accumulateKeep_strips (t : ℕ → K) (o n : ℕ) (acc : Reg K) :
    laneSum vlmax (accumulateKeep t (V.strips o n) acc)
      = laneSum vlmax acc + ∑ i ∈ Finset.range n, t (o + i) := by
  rw [laneSum_accumulateKeep fun s hs => (V.mem_strips hs).2.1, V.sum_strips]

lemma laneSum_accumulate_single (hs : s ∈ V.strips 0 n)
    (hall : ∀ s' ∈ V.strips 0 n, r ≤ s'.len) (hlen : r < s.len) (tail : ℕ → Reg K) :
    laneSum r (accumulate (Pi.single (s.offset + r) 1) tail (V.strips 0 n) (splat 0))
      = (0 : K) := by
  apply Finset.sum_eq_zero
  intro k hk
  have hkr := Finset.mem_range.mp hk
  have hkept : ¬ Lost (V.strips 0 n) k := by
    rintro ⟨s', hs', hle⟩
    have := hall s' hs'
    omega
  rw [accumulate_of_not_lost hkept, splat, zero_add]
  apply sum_eq_zero
  intro a ha
  obtain ⟨s', hs', rfl⟩ := mem_map.mp ha
  apply Pi.single_eq_of_ne
  intro heq
  -- the hidden element is in no other strip, and in its own it is not in lane `k`
  have hsame := V.strips_disjoint hs' hs (i := s.offset + r) (by omega)
    (by have := hall s' hs'; omega) (by omega) (by omega)
  subst hsame
  omega

section

variable [Nontrivial K] {T : Set (ℕ → K)} (hT : ∀ i < n, (Pi.single i 1 : ℕ → K) ∈ T)
  (hne : T.Nonempty)

include hT hne

/-- **When arbitrary tails do no harm**: the reduction over `r` lanes gives the sum of every range
of elements, whatever the tails, if and only if all strips have `r` elements. -/
theorem forall_laneSum_accumulate_iff :
    (∀ t ∈ T, ∀ tail, laneSum r (accumulate t tail (V.strips 0 n) (splat 0))
        = ∑ i ∈ Finset.range n, t i) ↔ ∀ s ∈ V.strips 0 n, s.len = r := by
  constructor
  · intro h
    have hlong : ∀ s ∈ V.strips 0 n, r ≤ s.len := by
      intro s hs
      by_contra hshort
      have hlt : s.len < r := by omega
      obtain ⟨t, ht⟩ := hne
      obtain ⟨tail, htail⟩ := exists_tail_ne (t := t) hs hlt (splat 0) (∑ i ∈ Finset.range n, t i)
      exact htail (h t ht tail)
    intro s hs
    by_contra hlen
    have hlt : r < s.len := by have := hlong s hs; omega
    have hin : s.offset + r < n := by have := (V.mem_strips hs).2.2.2; omega
    have hsum := h _ (hT _ hin) fun _ => 0
    rw [laneSum_accumulate_single V hs hlong hlt, Finset.sum_eq_single_of_mem (s.offset + r)
      (Finset.mem_range.mpr hin) fun k _ hk => Pi.single_eq_of_ne hk _, Pi.single_eq_same] at hsum
    exact zero_ne_one hsum
  · intro h t _ tail
    rw [laneSum_accumulate h, V.sum_strips]
    simp [laneSum, splat]

lemma forall_vfredusum_accumulate_iff :
    (∀ t ∈ T, ∀ tail undef, vfredusum (accumulate t tail (V.strips 0 n) (splat 0)) r undef
        = ∑ i ∈ Finset.range n, t i) ↔ 0 < r ∧ ∀ s ∈ V.strips 0 n, s.len = r := by
  rcases Nat.eq_zero_or_pos r with rfl | hr
  · obtain ⟨t, ht⟩ := hne
    obtain ⟨undef, hundef⟩ := exists_ne (∑ i ∈ Finset.range n, t i)
    refine iff_of_false (fun h => hundef ?_) (by simp)
    rw [← h t ht (fun _ => 0) undef, vfredusum, if_pos rfl]
  · have hred : ∀ (acc : Reg K) undef, vfredusum acc r undef = laneSum r acc :=
      fun _ _ => if_neg hr.ne'
    simp only [hred, hr, true_and, forall_const]
    exact forall_laneSum_accumulate_iff V hT hne

end

end Range

end Rvanns.Rvv
