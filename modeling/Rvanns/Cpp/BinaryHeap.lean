import Rvanns.Cpp.Sort

/-!
# Binary heaps in a block of cells

A heap of `n` elements occupies the cells `1` to `n`, and the parent of cell `i` is cell `i / 2`.
-/

namespace Rvanns.Cpp

open Function Multiset

variable {α : Type*}

def contents (bh : ℕ → α) : ℕ → Multiset α
  | 0 => 0
  | n + 1 => bh (n + 1) ::ₘ contents bh n

def siftUp (above : α → α → Bool) (x : α) : ℕ → (ℕ → α) → ℕ → (ℕ → α)
  | 0, bh, i => update bh i x
  | fuel + 1, bh, i =>
    if i ≤ 1 then update bh i x
    else if !above x (bh (i / 2)) then update bh i x
    else siftUp above x fuel (update bh i (bh (i / 2))) (i / 2)

def upperChild (above : α → α → Bool) (n : ℕ) (bh : ℕ → α) (i : ℕ) : ℕ :=
  if 2 * i + 1 = n + 1 ∨ above (bh (2 * i)) (bh (2 * i + 1)) then 2 * i else 2 * i + 1

def sinkHole (above : α → α → Bool) (n : ℕ) (x : α) : ℕ → (ℕ → α) → ℕ → (ℕ → α) × ℕ
  | 0, bh, i => (bh, i)
  | fuel + 1, bh, i =>
    if n < 2 * i then (bh, i)
    else if above x (bh (upperChild above n bh i)) then (bh, i)
    else
      let c := upperChild above n bh i
      sinkHole above n x fuel (update bh i (bh c)) c

def siftDown (above : α → α → Bool) (n : ℕ) (x : α) (bh : ℕ → α) : ℕ → α :=
  let (bh', i) := sinkHole above n x n bh 1
  update bh' i x

def IsHeap (above : α → α → Bool) (bh : ℕ → α) (n : ℕ) : Prop :=
  ∀ j, 2 ≤ j → j ≤ n → ¬ above (bh j) (bh (j / 2))

@[simp] lemma contents_zero (bh : ℕ → α) : contents bh 0 = 0 := rfl

lemma contents_succ (bh : ℕ → α) (n : ℕ) :
    contents bh (n + 1) = bh (n + 1) ::ₘ contents bh n := rfl

@[simp] lemma card_contents (bh : ℕ → α) (n : ℕ) : (contents bh n).card = n := by
  induction n with
  | zero => rfl
  | succ n ih => rw [contents_succ, card_cons, ih]

variable {n : ℕ}

lemma contents_congr (h : ∀ j, 1 ≤ j → j ≤ n → bh j = bh' j) : contents bh n = contents bh' n := by
  induction n with
  | zero => rfl
  | succ n ih =>
    rw [contents_succ, contents_succ, h (n + 1) (by omega) le_rfl,
      ih fun j h1 hn => h j h1 (by omega)]

lemma mem_contents : a ∈ contents bh n ↔ ∃ j, 1 ≤ j ∧ j ≤ n ∧ bh j = a := by
  induction n with
  | zero =>
    simp only [contents_zero, notMem_zero, false_iff, not_exists]
    omega
  | succ n ih =>
    rw [contents_succ, mem_cons, ih]
    constructor
    · rintro (rfl | ⟨j, h1, hn, rfl⟩)
      · exact ⟨n + 1, by omega, le_rfl, rfl⟩
      · exact ⟨j, h1, by omega, rfl⟩
    · rintro ⟨j, h1, hn, rfl⟩
      rcases lt_or_ge n j with hj | hj
      · exact .inl (by rw [show j = n + 1 by omega])
      · exact .inr ⟨j, h1, hj, rfl⟩

lemma contents_update (bh : ℕ → α) (x : α) (h1 : 1 ≤ i) (hn : i ≤ n) :
    bh i ::ₘ contents (update bh i x) n = x ::ₘ contents bh n := by
  induction n with
  | zero => omega
  | succ n ih =>
    rw [contents_succ, contents_succ]
    rcases lt_or_ge n i with hi | hi
    · obtain rfl : i = n + 1 := by omega
      have hrest : contents (update bh (n + 1) x) n = contents bh n :=
        contents_congr fun j _ hj => update_of_ne (by omega) _ _
      rw [update_self, hrest, cons_swap]
    · rw [update_of_ne (by omega), cons_swap, ih hi, cons_swap]

lemma contents_moveHole (x : α) (hi1 : 1 ≤ i) (hin : i ≤ n)
    (hj1 : 1 ≤ j) (hjn : j ≤ n) (hij : i ≠ j) :
    contents (update (update bh i (bh j)) j x) n = contents (update bh i x) n := by
  have hj := contents_update (update bh i (bh j)) x hj1 hjn
  rw [update_of_ne hij.symm] at hj
  have hi := contents_update bh (bh j) hi1 hin
  have hx := contents_update bh x hi1 hin
  have hsum : bh i ::ₘ bh j ::ₘ contents (update (update bh i (bh j)) j x) n =
      bh i ::ₘ bh j ::ₘ contents (update bh i x) n := by
    rw [hj, cons_swap, hi, cons_swap (bh i), hx, cons_swap]
  exact (cons_inj_right _).mp ((cons_inj_right _).mp hsum)

section Order

variable {above : α → α → Bool}

variable {bh : ℕ → α} {n : ℕ}

variable (hw : StrictWeak above)

include hw in
lemma IsHeap.not_above_top
    (h : IsHeap above bh n) : ∀ j, 1 ≤ j → j ≤ n → ¬ above (bh j) (bh 1) := by
  intro j
  induction j using Nat.strongRecOn with
  | ind j ih =>
    intro h1 hn
    rcases lt_or_ge j 2 with hj | hj
    · rw [show j = 1 by omega]
      exact hw.irrefl _
    · exact hw.negTrans (h j hj hn) (ih (j / 2) (by omega) (by omega) (by omega))

lemma IsHeap.congr (h : IsHeap above bh n)
    (heq : ∀ j, 1 ≤ j → j ≤ n → bh j = bh' j) : IsHeap above bh' n := by
  intro j h2 hn
  rw [← heq j (by omega) hn, ← heq (j / 2) (by omega) (by omega)]
  exact h j h2 hn

lemma IsHeap.mono (h : IsHeap above bh n) (hmn : m ≤ n) : IsHeap above bh m :=
  fun j h2 hm => h j h2 (hm.trans hmn)

/-- What `siftUp` needs of the order: with `x` in the hole only the hole itself may be out of
order with its parent, and the hole's children are in order with the hole's parent. -/
structure UpOrder (above : α → α → Bool) (bh : ℕ → α) (n i : ℕ) (x : α) : Prop where
  except : ∀ j, 2 ≤ j → j ≤ n → j ≠ i →
    ¬ above (update bh i x j) (update bh i x (j / 2))
  grand : 2 ≤ i → ∀ j, j / 2 = i → j ≤ n → ¬ above (bh j) (bh (i / 2))

variable {i : ℕ} {x : α}

include hw in
lemma UpOrder.move
    (o : UpOrder above bh n i x) (hi : 2 ≤ i) (hin : i ≤ n) (hx : above x (bh (i / 2))) :
    UpOrder above (update bh i (bh (i / 2))) n (i / 2) x := by
  have hsibling : ∀ j, 2 ≤ j → j ≤ n → j ≠ i → j / 2 = i / 2 → ¬ above (bh j) (bh (i / 2)) := by
    intro j h2 hn hji hj
    have := o.except j h2 hn hji
    rwa [update_of_ne hji, hj, update_of_ne (by omega)] at this
  constructor
  · intro j h2 hn hjf
    rw [update_of_ne hjf]
    by_cases hji : j = i
    · subst hji
      rw [update_self, update_self]
      exact hw.asymm hx
    · rw [update_of_ne hji]
      by_cases hjp : j / 2 = i / 2
      · rw [hjp, update_self]
        exact hw.negTrans (hsibling j h2 hn hji hjp) (hw.asymm hx)
      · rw [update_of_ne hjp]
        by_cases hjc : j / 2 = i
        · rw [hjc, update_self]
          exact o.grand hi j hjc hn
        · rw [update_of_ne hjc]
          have := o.except j h2 hn hji
          rwa [update_of_ne hji, update_of_ne hjc] at this
  · intro hf j hj hn
    have hup : ¬ above (bh (i / 2)) (bh (i / 2 / 2)) := by
      have := o.except (i / 2) hf (by omega) (by omega)
      rwa [update_of_ne (by omega), update_of_ne (by omega)] at this
    rw [update_of_ne (show i / 2 / 2 ≠ i by omega)]
    by_cases hji : j = i
    · subst hji
      rwa [update_self]
    · rw [update_of_ne hji]
      exact hw.negTrans (hsibling j (by omega) hn hji hj) hup

lemma UpOrder.finish (o : UpOrder above bh n i x)
    (hx : 2 ≤ i → ¬ above x (bh (i / 2))) : IsHeap above (update bh i x) n := by
  intro j h2 hn
  by_cases hji : j = i
  · subst hji
    rw [update_self, update_of_ne (by omega)]
    exact hx h2
  · exact o.except j h2 hn hji

include hw in
lemma siftUp_isHeap (x : α) (n : ℕ) (fuel : ℕ) (bh : ℕ → α) (i : ℕ) (hif : i ≤ fuel) (hin : i ≤ n)
    (o : UpOrder above bh n i x) : IsHeap above (siftUp above x fuel bh i) n := by
  induction fuel generalizing bh i with
  | zero =>
    exact o.finish fun h2 => by omega
  | succ fuel ih =>
    unfold siftUp
    split_ifs with h1 hx
    · exact o.finish fun h2 => by omega
    · exact o.finish fun _ => by simpa using hx
    · exact ih _ _ (by omega) (by omega) (o.move hw (by omega) hin (by simpa using hx))

lemma siftUp_contents (x : α) (n : ℕ) (fuel : ℕ) (bh : ℕ → α) (i : ℕ) (h1 : 1 ≤ i) (hin : i ≤ n) :
    contents (siftUp above x fuel bh i) n = contents (update bh i x) n := by
  induction fuel generalizing bh i with
  | zero => rfl
  | succ fuel ih =>
    unfold siftUp
    split_ifs with h hx
    · rfl
    · rfl
    · rw [ih _ _ (by omega) (by omega)]
      exact contents_moveHole x h1 hin (by omega) (by omega) (by omega)

structure DownOrder (above : α → α → Bool) (bh : ℕ → α) (n i : ℕ) (x : α) : Prop where
  except : ∀ j, 2 ≤ j → j ≤ n → j / 2 ≠ i →
    ¬ above (update bh i x j) (update bh i x (j / 2))
  grand : 2 ≤ i → ∀ j, j / 2 = i → j ≤ n → ¬ above (bh j) (bh (i / 2))

lemma upperChild_le (hi : 2 * i ≤ n) : upperChild above n bh i ≤ n := by
  unfold upperChild
  split_ifs with h
  · exact hi
  · omega

lemma upperChild_half : upperChild above n bh i / 2 = i := by
  unfold upperChild
  split_ifs <;> omega

include hw in
lemma not_above_upperChild (bh : ℕ → α) (hj : j / 2 = i)
    (hn : j ≤ n) : ¬ above (bh j) (bh (upperChild above n bh i)) := by
  unfold upperChild
  have hj' : j = 2 * i ∨ j = 2 * i + 1 := by omega
  split_ifs with h
  · rcases hj' with rfl | rfl
    · exact hw.irrefl _
    · rcases h with h | h
      · omega
      · exact hw.asymm h
  · rw [not_or] at h
    rcases hj' with rfl | rfl
    · exact h.2
    · exact hw.irrefl _

lemma DownOrder.move (o : DownOrder above bh n i x)
    (hi : 1 ≤ i) (hc : c / 2 = i) (hcn : c ≤ n) (hx : ¬ above x (bh c))
    (hmax : ∀ j, j / 2 = i → j ≤ n → ¬ above (bh j) (bh c)) :
    DownOrder above (update bh i (bh c)) n c x := by
  constructor
  · intro j h2 hn hjc
    rw [update_of_ne hjc]
    by_cases hj : j = c
    · subst hj
      rwa [update_self, hc, update_self]
    · rw [update_of_ne hj]
      by_cases hji : j = i
      · subst hji
        rw [update_self, update_of_ne (by omega)]
        exact o.grand h2 c hc hcn
      · rw [update_of_ne hji]
        by_cases hjp : j / 2 = i
        · rw [hjp, update_self]
          exact hmax j hjp hn
        · rw [update_of_ne hjp]
          have := o.except j h2 hn hjp
          rwa [update_of_ne hji, update_of_ne hjp] at this
  · intro _ j hj hn
    rw [hc, update_self, update_of_ne (by omega)]
    have := o.except j (by omega) hn (by omega)
    rwa [update_of_ne (by omega), hj, update_of_ne (by omega)] at this

lemma DownOrder.finish (o : DownOrder above bh n i x)
    (hi : 1 ≤ i) (hx : ∀ j, j / 2 = i → j ≤ n → ¬ above (bh j) x) :
    IsHeap above (update bh i x) n := by
  intro j h2 hn
  by_cases hj : j / 2 = i
  · rw [hj, update_self, update_of_ne (by omega)]
    exact hx j hj hn
  · exact o.except j h2 hn hj

include hw in
lemma sinkHole_spec (n : ℕ) (x : α) (fuel : ℕ) (bh : ℕ → α) (i : ℕ) (h1 : 1 ≤ i) (hin : i ≤ n)
    (hf : n ≤ fuel + i) (o : DownOrder above bh n i x) : let r := sinkHole above n x fuel bh i
    IsHeap above (update r.1 r.2 x) n ∧
      contents (update r.1 r.2 x) n = contents (update bh i x) n := by
  induction fuel generalizing bh i with
  | zero =>
    exact ⟨o.finish h1 fun j hj hn => by omega, rfl⟩
  | succ fuel ih =>
    unfold sinkHole
    split_ifs with hleaf hx
    · exact ⟨o.finish h1 fun j hj hn => by omega, rfl⟩
    · have hbelow : ∀ j, j / 2 = i → j ≤ n → ¬ above (bh j) x := fun j hj hn =>
        hw.negTrans (not_above_upperChild hw bh hj hn) (hw.asymm hx)
      exact ⟨o.finish h1 hbelow, rfl⟩
    · have hc : upperChild above n bh i / 2 = i := upperChild_half
      have hcn : upperChild above n bh i ≤ n := upperChild_le (not_lt.mp hleaf)
      have o' := o.move h1 hc hcn hx fun j hj hn => not_above_upperChild hw bh hj hn
      obtain ⟨hheap, hcont⟩ := ih _ _ (by omega) hcn (by omega) o'
      exact ⟨hheap, hcont.trans (contents_moveHole x h1 hin (by omega) hcn (by omega))⟩

lemma IsHeap.downOrder (h : IsHeap above bh n) (x : α) : DownOrder above bh n 1 x := by
  constructor
  · intro j h2 hn hj
    rw [update_of_ne (by omega), update_of_ne hj]
    exact h j h2 hn
  · intro h2
    omega

include hw in
lemma siftDown_isHeap (hn : 1 ≤ n)
    (h : IsHeap above bh n) (x : α) : IsHeap above (siftDown above n x bh) n :=
  (sinkHole_spec hw n x n bh 1 le_rfl hn (by omega) (h.downOrder x)).1

lemma sinkHole_last (n : ℕ) (x : α) (fuel : ℕ) (bh : ℕ → α) (i : ℕ) (h1 : 1 ≤ i) (hin : i ≤ n) :
    (sinkHole above n x fuel bh i).1 n = bh n := by
  induction fuel generalizing bh i with
  | zero => rfl
  | succ fuel ih =>
    unfold sinkHole
    split_ifs with hleaf hx
    · rfl
    · rfl
    · have hc : upperChild above n bh i ≤ n := upperChild_le (not_lt.mp hleaf)
      have hhalf : upperChild above n bh i / 2 = i := upperChild_half
      rw [ih _ _ (by omega) hc, update_of_ne (by omega)]

lemma sinkHole_update (n : ℕ) (x y : α) (hj : n < j) (fuel : ℕ) (bh : ℕ → α) (i : ℕ) (hi : i ≤ n) :
    sinkHole above n x fuel (update bh j y) i
        = (update (sinkHole above n x fuel bh i).1 j y, (sinkHole above n x fuel bh i).2)
      ∧ (sinkHole above n x fuel bh i).2 ≤ n := by
  induction fuel generalizing bh i with
  | zero => exact ⟨rfl, hi⟩
  | succ fuel ih =>
    unfold sinkHole
    by_cases hleaf : n < 2 * i
    · rw [if_pos hleaf, if_pos hleaf]
      exact ⟨rfl, hi⟩
    · have hchild : upperChild above n (update bh j y) i = upperChild above n bh i := by
        unfold upperChild
        rw [update_of_ne (by omega)]
        by_cases hlast : 2 * i + 1 = n + 1
        · rw [if_pos (.inl hlast), if_pos (.inl hlast)]
        · rw [update_of_ne (by omega)]
      have hc : upperChild above n bh i ≤ n := upperChild_le (not_lt.mp hleaf)
      rw [if_neg hleaf, if_neg hleaf, hchild, update_of_ne (by omega)]
      by_cases hx : above x (bh (upperChild above n bh i))
      · rw [if_pos hx, if_pos hx]
        exact ⟨rfl, hi⟩
      · rw [if_neg hx, if_neg hx]
        dsimp only
        rw [update_of_ne (by omega), update_comm (by omega)]
        exact ih _ _ hc

lemma siftDown_last (hn : 1 ≤ n) : siftDown above n (bh n) bh n = bh n := by
  have hlast := @sinkHole_last _ above n (bh n) n bh 1 le_rfl hn
  unfold siftDown
  by_cases h : (sinkHole above n (bh n) n bh 1).2 = n
  · simp only [h, update_self]
  · simp only [update_of_ne (.symm h), hlast]

include hw in
lemma siftDown_contents (hn : 1 ≤ n) (h : IsHeap above bh n) (x : α) :
    bh 1 ::ₘ contents (siftDown above n x bh) n = x ::ₘ contents bh n := by
  have hsink := (sinkHole_spec hw n x n bh 1 le_rfl hn (by omega) (h.downOrder x)).2
  rw [show contents (siftDown above n x bh) n = _ from hsink]
  exact contents_update bh x le_rfl hn

end Order

end Rvanns.Cpp
