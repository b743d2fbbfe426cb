import Rvanns.Cpp.Returns
import Rvanns.Faiss.BruteForce

/-!
# What result heaps keep

One lemma for each heap operation says what it does to the elements of the heap.
-/

namespace Rvanns.Faiss

open Cpp List Function Option
open Multiset (add_cons card card_add card_cons coe_add coe_card coe_eq_coe cons_add cons_coe
  mem_coe notMem_zero)

variable {F : Type} [LinearOrder F] {C : Cmp F} {bh : ℕ → F × ℤ} {k n : ℕ}

/-! ### The operations -/

lemma isHeap_heapPush (h : IsHeap C.above bh n) (val : F) (id : ℤ) :
    IsHeap C.above (heapPush C (n + 1) bh val id) (n + 1) := by
  apply siftUp_isHeap C.above_strictWeak _ _ _ _ _ le_rfl le_rfl
  constructor
  · intro j h2 hj hne
    rw [update_of_ne hne, update_of_ne (by omega)]
    exact h j h2 (by omega)
  · intro h2 j hj hjn
    omega

lemma contents_heapPush (val : F) (id : ℤ) :
    contents (heapPush C (n + 1) bh val id) (n + 1) = (val, id) ::ₘ contents bh n := by
  rw [heapPush, siftUp_contents _ _ _ _ _ (by omega) le_rfl, contents_succ, update_self]
  congr 1
  apply contents_congr
  intro j _ hj
  rw [update_of_ne (by omega)]

lemma isHeap_heapReplaceTop (hk : 1 ≤ k) (h : IsHeap C.above bh k) (val : F) (id : ℤ) :
    IsHeap C.above (heapReplaceTop C k bh val id) k :=
  siftDown_isHeap C.above_strictWeak hk h _

lemma contents_heapReplaceTop (hk : 1 ≤ k) (h : IsHeap C.above bh k) (val : F) (id : ℤ) :
    bh 1 ::ₘ contents (heapReplaceTop C k bh val id) k = (val, id) ::ₘ contents bh k :=
  siftDown_contents C.above_strictWeak hk h _

lemma heapPop_eq_siftDown (hn : 1 ≤ n) : heapPop C n bh = siftDown C.above n (bh n) bh := by
  rw [heapPop, siftDown]
  dsimp only
  rw [sinkHole_last n (bh n) n bh 1 le_rfl hn]

lemma isHeap_heapPop (h : IsHeap C.above bh (n + 1)) : IsHeap C.above (heapPop C (n + 1) bh) n := by
  rw [heapPop_eq_siftDown (by omega)]
  exact (siftDown_isHeap C.above_strictWeak (by omega) h _).mono (by omega)

lemma contents_heapPop (h : IsHeap C.above bh (n + 1)) :
    bh 1 ::ₘ contents (heapPop C (n + 1) bh) n = contents bh (n + 1) := by
  have hsift := siftDown_contents C.above_strictWeak (by omega) h (bh (n + 1))
  rw [contents_succ, siftDown_last (by omega), Multiset.cons_swap] at hsift
  rw [heapPop_eq_siftDown (by omega)]
  exact (Multiset.cons_inj_right _).mp hsift

lemma heapPop_update (bh : ℕ → F × ℤ) (hn : 1 ≤ n) (hj : n < j) (y : F × ℤ) :
    heapPop C n (update bh j y) = update (heapPop C n bh) j y := by
  have hval : update bh j y n = bh n := update_of_ne (by omega) _ _
  obtain ⟨hsink, hle⟩ := @sinkHole_update _ C.above j n (bh n) y hj n bh 1 hn
  rw [heapPop, heapPop, hval]
  rw [hsink]
  dsimp only
  rw [update_of_ne (by omega), update_comm (by omega)]

lemma heapPop_of_lt (hn : 1 ≤ n) (hj : n < j) : heapPop C n bh j = bh j := by
  have hupdate : heapPop C n (update bh j (bh j)) = _ := heapPop_update bh hn hj (bh j)
  rw [update_eq_self] at hupdate
  rw [hupdate, update_self]

/-! ### Emptying a heap -/

lemma coe_drain (h : IsHeap C.above bh n) :
    (↑(drain C n bh) : Multiset (F × ℤ)) = contents bh n := by
  induction n generalizing bh with
  | zero => rfl
  | succ n ih => rw [drain, ← contents_heapPop h, ← ih (isHeap_heapPop h), cons_coe]

lemma drain_sorted (h : IsHeap C.above bh n) :
    (drain C n bh).Pairwise fun a b => ¬ C.cmp b.1 a.1 := by
  induction n generalizing bh with
  | zero => exact .nil
  | succ n ih =>
    rw [drain, pairwise_cons]
    refine ⟨fun a ha => ?_, ih (isHeap_heapPop h)⟩
    have hmem : a ∈ contents bh (n + 1) := by
      rw [← contents_heapPop h, ← coe_drain (isHeap_heapPop h)]
      exact Multiset.mem_cons_of_mem (mem_coe.mpr ha)
    obtain ⟨j, h1, hj, rfl⟩ := mem_contents.mp hmem
    exact C.not_cmp_of_not_above (h.not_above_top C.above_strictWeak j h1 hj)

lemma drain_update (hj : n < j) (y : F × ℤ) : drain C n (update bh j y) = drain C n bh := by
  induction n generalizing bh with
  | zero => rfl
  | succ n ih =>
    rw [drain, drain, update_of_ne (by omega), heapPop_update bh (by omega) hj, ih (by omega)]

/-! ### Sorting a heap -/

def trueElements (l : List (F × ℤ)) : List (F × ℤ) := l.filter (·.2 ≠ -1)

/-- `done` is what stands at the end of the block, from the back to the front. -/
lemma foldl_reorderStep (C : Cmp F) (k n : ℕ) (bh : ℕ → F × ℤ) (done : List (F × ℤ))
    (hle : done.length + n ≤ k) (hdone : ∀ j (hj : j < done.length), bh (k - j) = done[j]) :
    ∃ bh', (range' (k - n) n).foldl (reorderStep C k) (bh, done.length)
        = (bh', (done ++ trueElements (drain C n bh)).length)
      ∧ ∀ j (hj : j < (done ++ trueElements (drain C n bh)).length),
        bh' (k - j) = (done ++ trueElements (drain C n bh))[j] := by
  induction n generalizing done bh with
  | zero => exact ⟨bh, by simp [drain, trueElements], by simpa [drain, trueElements] using hdone⟩
  | succ n ih =>
    have hsize : k - (k - (n + 1)) = n + 1 := by omega
    have hnext : k - (n + 1) + 1 = k - n := by omega
    rw [range'_succ, foldl_cons, hnext, reorderStep, hsize]
    set next := update (heapPop C (n + 1) bh) (k - done.length) (bh 1) with hdef
    have hkept : ∀ j (hj : j < done.length), next (k - j) = done[j] := by
      intro j hj
      rw [hdef, update_of_ne (by omega), heapPop_of_lt (by omega) (by omega), hdone j hj]
    have hdrain : drain C (n + 1) bh = bh 1 :: drain C n next := by
      rw [drain, hdef, drain_update (by omega)]
    rw [hdrain]
    by_cases hid : (bh 1).2 ≠ -1
    · have htrue : done ++ trueElements (bh 1 :: drain C n next)
          = (done ++ [bh 1]) ++ trueElements (drain C n next) := by
        rw [trueElements, filter_cons_of_pos (by simpa using hid), append_assoc]
        rfl
      have hlen : (done ++ [bh 1]).length = done.length + 1 := length_append
      rw [if_pos hid, htrue, ← hlen]
      refine ih next (done ++ [bh 1]) (by omega) fun j hj => ?_
      rw [hlen] at hj
      rcases Nat.lt_succ_iff_lt_or_eq.mp hj with hlt | rfl
      · rw [hkept j hlt, getElem_append_left hlt]
      · rw [hdef, update_self, getElem_concat_length rfl]
    · have htrue : trueElements (bh 1 :: drain C n next) = trueElements (drain C n next) :=
        filter_cons_of_neg (by simpa using hid)
      rw [if_neg hid, htrue]
      exact ih next done (by omega) hkept

lemma heapReorder_eq (C : Cmp F) (k : ℕ) (bh : ℕ → F × ℤ) :
    heapReorder C k bh = (trueElements (drain C k bh)).reverse
      ++ replicate (k - (trueElements (drain C k bh)).length) (C.neutral, -1) := by
  obtain ⟨bh', hfold, hcells⟩ := foldl_reorderStep C k k bh [] (by simp) (by simp)
  rw [nil_append] at hfold hcells
  rw [Nat.sub_self, ← range_eq_range', length_nil] at hfold
  have hlen : (trueElements (drain C k bh)).length ≤ k := by
    have hfilter := length_filter_le (fun r : F × ℤ => decide (r.2 ≠ -1)) (drain C k bh)
    rwa [drain_length] at hfilter
  rw [heapReorder, hfold]
  dsimp only
  congr 1
  apply ext_getElem (by simp)
  intro j hj hj'
  rw [length_map, length_range] at hj
  rw [getElem_map, getElem_range, getElem_reverse, ← hcells _ (by omega)]
  congr 1
  omega

/-! ### Keeping the best -/

structure Keeps (C : Cmp F) (k : ℕ) (bh : ℕ → F × ℤ) (all : Multiset (F × ℤ)) : Prop where
  isHeap : IsHeap C.above bh k
  best : ∃ rest, contents bh k + rest = all ∧
    ∀ r ∈ rest, ∀ t ∈ contents bh k, ¬ C.cmp t.1 r.1

section

variable {all : Multiset (F × ℤ)} (h : Keeps C k bh all)

include h

lemma Keeps.not_cmp_top {t : F × ℤ} (ht : t ∈ contents bh k) : ¬ C.cmp t.1 (bh 1).1 := by
  obtain ⟨j, h1, hj, rfl⟩ := mem_contents.mp ht
  exact C.not_cmp_of_not_above (h.isHeap.not_above_top C.above_strictWeak j h1 hj)

lemma Keeps.replaceTop (hk : 1 ≤ k) {val : F} (id : ℤ) (hbetter : C.cmp (bh 1).1 val) :
    Keeps C k (heapReplaceTop C k bh val id) ((val, id) ::ₘ all) := by
  obtain ⟨rest, rfl, hrest⟩ := h.best
  have hcontents := contents_heapReplaceTop hk h.isHeap val id
  have htop : bh 1 ∈ contents bh k := mem_contents.mpr ⟨1, le_rfl, hk, rfl⟩
  refine ⟨isHeap_heapReplaceTop hk h.isHeap val id, bh 1 ::ₘ rest, ?_, fun r hr t ht => ?_⟩
  · rw [add_cons, ← cons_add, hcontents, cons_add]
  have ht' : t = (val, id) ∨ t ∈ contents bh k := by
    rw [← Multiset.mem_cons, ← hcontents]
    exact Multiset.mem_cons_of_mem ht
  rcases Multiset.mem_cons.mp hr with rfl | hr
  · rcases ht' with rfl | ht
    · exact C.cmp_strictWeak.asymm hbetter
    · exact h.not_cmp_top ht
  · rcases ht' with rfl | ht
    · intro hworse
      exact C.cmp_strictWeak.negTrans (hrest r hr _ htop) (C.cmp_strictWeak.asymm hworse) hbetter
    · exact hrest r hr t ht

lemma Keeps.leaveOut (id : ℤ) (hnot : ¬ C.cmp (bh 1).1 val) : Keeps C k bh ((val, id) ::ₘ all) := by
  obtain ⟨rest, rfl, hrest⟩ := h.best
  refine ⟨h.isHeap, (val, id) ::ₘ rest, by rw [add_cons], fun r hr t ht => ?_⟩
  rcases Multiset.mem_cons.mp hr with rfl | hr
  · exact C.cmp_strictWeak.negTrans (h.not_cmp_top ht) hnot
  · exact hrest r hr t ht

end

def offer (C : Cmp F) (k : ℕ) (bh : ℕ → F × ℤ) (r : F × ℤ) : ℕ → F × ℤ :=
  if C.cmp (bh 1).1 r.1 then heapReplaceTop C k bh r.1 r.2 else bh

lemma Keeps.foldl_offer {all : Multiset (F × ℤ)} (h : Keeps C k bh all) (hk : 1 ≤ k)
    (l : List (F × ℤ)) : Keeps C k (l.foldl (offer C k) bh) (all + ↑l) := by
  induction l generalizing bh all with
  | nil => simpa using h
  | cons r l ih =>
    have hoffer : Keeps C k (offer C k bh r) (r ::ₘ all) := by
      unfold offer
      split_ifs with hbetter
      · exact h.replaceTop hk r.2 hbetter
      · exact h.leaveOut r.2 hbetter
    have hnext := ih hoffer
    rwa [cons_add, ← add_cons, cons_coe] at hnext

lemma foldl_offer_neutral (hworst : ∀ d, ¬ C.cmp d C.neutral) (id : ℤ) (p : ℕ) :
    (replicate p (C.neutral, id)).foldl (offer C k) bh = bh := by
  induction p with
  | zero => rfl
  | succ p ih => rw [replicate_succ, foldl_cons, offer, if_neg (hworst _), ih]

/-! ### The loops over arrays -/

lemma Keeps.isTopK {all : Multiset (F × ℤ)} (h : Keeps C n bh all) (hn : n = min k all.card) :
    IsTopK (fun a b => ¬ C.cmp a b) Prod.fst k all (drain C n bh).reverse := by
  obtain ⟨rest, hsum, hrest⟩ := h.best
  have hcontents := (coe_eq_coe.mpr (reverse_perm _)).trans (coe_drain h.isHeap)
  refine ⟨?_, by rw [length_reverse, drain_length]; omega, rest, by rw [hcontents, hsum], ?_, ?_⟩
  · rw [pairwise_map, pairwise_reverse]
    exact drain_sorted h.isHeap
  · intro hne
    have hpos := Multiset.card_pos.mpr hne
    rw [← hsum, card_add, card_contents] at hn
    rw [length_reverse, drain_length]
    omega
  · exact fun r hr t ht => hrest r hr t (hcontents ▸ mem_coe.mpr ht)

def ArraysBegin (x : ℕ → Option F) (ids : ℕ → Option ℤ) (l : List (F × ℤ)) : Prop :=
  ∀ i r, l[i]? = some r → x i = some r.1 ∧ ids i = some r.2

section Arrays

variable {x : ℕ → Option F} {ids : ℕ → Option ℤ} {l : List (F × ℤ)}

omit [LinearOrder F] in
lemma ArraysBegin.drop (h : ArraysBegin x ids l) (k : ℕ) :
    ArraysBegin (fun i => x (k + i)) (fun i => ids (k + i)) (l.drop k) := by
  intro i r hr
  rw [getElem?_drop] at hr
  exact h (k + i) r hr

lemma heapHeapify_spec (C : Cmp F) (bh : ℕ → F × ℤ) (h : ArraysBegin x ids l) (hk : k ≤ l.length) :
    Returns (heapHeapify C k x ids k bh) fun bh' =>
      IsHeap C.above bh' k ∧ contents bh' k = ↑(l.take k) := by
  have hstart : IsHeap C.above bh 0 ∧ contents bh 0 = ↑(l.take 0) :=
    ⟨fun j h2 hj => by omega, by simp⟩
  refine (Returns.foldlM_range (P := fun i bh' =>
    IsHeap C.above bh' i ∧ contents bh' i = ↑(l.take i)) k (fun i hi bh' hbh' => ?_) hstart).bind
    fun bh' hbh' => ?_
  · have hget : l[i]? = some l[i] := getElem?_eq_getElem (by omega)
    obtain ⟨hx, hid⟩ := h i _ hget
    rw [hx, hid]
    refine .pure ⟨isHeap_heapPush hbh'.1 _ _, ?_⟩
    rw [contents_heapPush, hbh'.2, take_add_one, hget, cons_coe]
    exact coe_eq_coe.mpr (perm_append_singleton _ _).symm
  · refine .pure ⟨hbh'.1.congr fun j _ hj => ?_, ?_⟩
    · rw [if_neg (by omega)]
    · rw [← hbh'.2]
      apply contents_congr
      intro j _ hj
      rw [if_neg (by omega)]

lemma heapAddn_eq (h : ArraysBegin x ids l) :
    heapAddn C k x ids l.length bh = some (l.foldl (offer C k) bh) := by
  have hloop := foldlM_range_eq_pure (m := Option) (n := l.length)
    (S := fun i => (l.take i).foldl (offer C k) bh)
    (f := fun bh i => do
      let val ← x i
      if C.cmp (bh 1).1 val then do
        let id ← ids i
        return heapReplaceTop C k bh val id
      else return bh) fun i hi => by
        have hget : l[i]? = some l[i] := getElem?_eq_getElem hi
        obtain ⟨hx, hid⟩ := h i _ hget
        rw [take_add_one, hget, foldl_append, hx, hid]
        simp only [toList_some, foldl_cons, foldl_nil, offer, some_bind]
        split_ifs <;> rfl
  rw [take_length] at hloop
  exact hloop

lemma reorder2Heaps_eq (C : Cmp F) (bh : ℕ → F × ℤ) (h : ArraysBegin x ids l) (hk : k ≤ l.length)
    (hsmall : l.length < 2 ^ 64) :
    ∃ bh', reorder2Heaps C k l.length ids x bh
        = some (heapReorder C k ((l.drop k).foldl (offer C k) bh'))
      ∧ IsHeap C.above bh' k ∧ contents bh' k = ↑(l.take k) := by
  obtain ⟨bh', hheapify, hheap, hcontents⟩ := heapHeapify_spec C bh h hk
  refine ⟨bh', ?_, hheap, hcontents⟩
  rw [reorder2Heaps, hheapify]
  simp only [some_bind]
  split_ifs with hne
  · have hrest : (l.length + 2 ^ 64 - k) % 2 ^ 64 = (l.drop k).length := by
      rw [length_drop]
      omega
    rw [hrest, heapAddn_eq (h.drop k)]
    rfl
  · rw [not_not] at hne
    rw [drop_of_length_le hne.le]
    rfl

lemma reorder2Heaps_congr
    (hx : ∀ i < kBase, x i = x' i) (hids : ∀ i < kBase, ids i = ids' i) (hk : k ≤ kBase)
    (hsmall : kBase < 2 ^ 64) :
    reorder2Heaps C k kBase ids x bh = reorder2Heaps C k kBase ids' x' bh := by
  have hheapify : heapHeapify C k x ids k bh = heapHeapify C k x' ids' k bh := by
    unfold heapHeapify
    rw [foldlM_congr fun s i hi => ?_]
    have hlt := mem_range.mp hi
    rw [hx i (by omega), hids i (by omega)]
  have hcount : (kBase + 2 ^ 64 - k) % 2 ^ 64 = kBase - k := by omega
  have haddn : ∀ bh', heapAddn C k (fun i => x (k + i)) (fun i => ids (k + i)) (kBase - k) bh'
      = heapAddn C k (fun i => x' (k + i)) (fun i => ids' (k + i)) (kBase - k) bh' := by
    intro bh'
    apply foldlM_congr
    intro s i hi
    have hlt := mem_range.mp hi
    simp only [hx (k + i) (by omega), hids (k + i) (by omega)]
  simp only [reorder2Heaps, hheapify, hcount, haddn]

lemma reorder2Heaps_eq_none (hi : i < k) (hx : x i = none) :
    reorder2Heaps C k kBase ids x bh = none := by
  have hheapify : heapHeapify C k x ids k bh = none := by
    unfold heapHeapify
    rw [foldlM_eq_none (mem_range.mpr hi) fun s => ?_]
    · rfl
    · rw [hx]
      rfl
  rw [reorder2Heaps, hheapify]
  rfl

lemma sorted_reverse_trueElements (hheap : IsHeap C.above bh k) :
    ((trueElements (drain C k bh)).reverse.map Prod.fst).Pairwise fun a b => ¬ C.cmp a b := by
  rw [pairwise_map, pairwise_reverse]
  exact (drain_sorted hheap).filter _

/-- **The best of the arrays**, if the elements `trues` are followed by neutral ones only and there
are at least `k` altogether. -/
theorem reorder2Heaps_spec (bh : ℕ → F × ℤ) {trues : List (F × ℤ)}
    (hworst : ∀ d, ¬ C.cmp d C.neutral) (htrue : ∀ r ∈ trues, r.2 ≠ -1)
    (h : ArraysBegin x ids (trues ++ replicate p (C.neutral, -1)))
    (hk : 1 ≤ k) (hlen : k ≤ trues.length + p) (hsmall : trues.length + p < 2 ^ 64) :
    ∃ top, reorder2Heaps C k (trues.length + p) ids x bh
        = some (top ++ replicate (k - top.length) (C.neutral, -1))
      ∧ IsTopK (fun a b => ¬ C.cmp a b) Prod.fst k ↑trues top := by
  have hall : (trues ++ replicate p (C.neutral, (-1 : ℤ))).length = trues.length + p := by simp
  obtain ⟨bh', hreorder, hheap, hcontents⟩ := reorder2Heaps_eq C bh h (hall ▸ hlen) (hall ▸ hsmall)
  -- what is neutral is offered in vain
  rw [hall, drop_append, drop_replicate, foldl_append, foldl_offer_neutral hworst,
    heapReorder_eq] at hreorder
  have hkeeps : Keeps C k ((trues.drop k).foldl (offer C k) bh')
      ↑(trues ++ replicate (k - trues.length) (C.neutral, (-1 : ℤ))) := by
    have hstart : Keeps C k bh' ↑((trues ++ replicate p (C.neutral, (-1 : ℤ))).take k) :=
      ⟨hheap, 0, by rw [Multiset.add_zero, hcontents], fun r hr => absurd hr (notMem_zero r)⟩
    have hoffered := hstart.foldl_offer hk (trues.drop k)
    rwa [take_append, take_replicate, min_eq_left (by omega), ← coe_add, add_right_comm, coe_add,
      take_append_drop, coe_add] at hoffered
  set heap := (trues.drop k).foldl (offer C k) bh'
  obtain ⟨rest, hsum, hrest⟩ := hkeeps.best
  rw [← coe_drain hkeeps.isHeap] at hsum hrest
  refine ⟨_, by rw [hreorder, length_reverse], sorted_reverse_trueElements hkeeps.isHeap, ?_,
    rest.filter (·.2 ≠ -1), ?_, fun hne => ?_, fun r hr t ht => ?_⟩
  · rw [length_reverse]
    exact (length_filter_le _ _).trans_eq (drain_length _ _ _)
  · have htrues : trueElements (trues ++ replicate (k - trues.length) (C.neutral, (-1 : ℤ)))
        = trues := by
      rw [trueElements, filter_append, filter_eq_self.mpr fun r hr => by simpa using htrue r hr,
        filter_eq_nil_iff.mpr fun r hr => by simp [(mem_replicate.mp hr).2], append_nil]
    have hfilter := congrArg (Multiset.filter (·.2 ≠ -1)) hsum
    rw [Multiset.filter_add, Multiset.filter_coe, Multiset.filter_coe] at hfilter
    exact (congrArg (· + _) (coe_eq_coe.mpr (reverse_perm _))).trans
      (hfilter.trans (congrArg _ htrues))
  · -- something is left out only if there are more than `k` true elements
    have hmore : rest ≠ 0 := fun hnil => hne (by rw [hnil, Multiset.filter_zero])
    have hpos := Multiset.card_pos.mpr hmore
    have hcard := congrArg card hsum
    rw [card_add, coe_card, coe_card, drain_length, length_append, length_replicate] at hcard
    have hnone : k - trues.length = 0 := by omega
    rw [hnone, replicate_zero, append_nil] at hsum
    have hdrain : trueElements (drain C k heap) = drain C k heap := by
      refine filter_eq_self.mpr fun r hr => ?_
      have hin : r ∈ (↑trues : Multiset (F × ℤ)) :=
        hsum ▸ Multiset.mem_add.mpr (.inl (mem_coe.mpr hr))
      simpa using htrue r (mem_coe.mp hin)
    rw [length_reverse, hdrain, drain_length]
  · exact hrest r (Multiset.mem_of_mem_filter hr) t
      (mem_coe.mpr (mem_of_mem_filter (mem_reverse.mp ht)))

end Arrays

/-! ### The brute-force scan -/

lemma Keeps.push {all : Multiset (F × ℤ)} (h : Keeps C n bh all) (hn : all.card = n) (val : F)
    (id : ℤ) : Keeps C (n + 1) (heapPush C (n + 1) bh val id) ((val, id) ::ₘ all) := by
  obtain ⟨rest, hrest, -⟩ := h.best
  -- the heap holds all that there is
  have hnone : rest = 0 := by
    have hcard := congrArg card hrest
    rw [card_add, card_contents, hn] at hcard
    exact Multiset.card_eq_zero.mp (by omega)
  refine ⟨isHeap_heapPush h.isHeap val id, 0, ?_, fun r hr => absurd hr (notMem_zero r)⟩
  rw [contents_heapPush, ← hrest, hnone, Multiset.add_zero, Multiset.add_zero]

lemma keeps_zero (C : Cmp F) (bh : ℕ → F × ℤ) (all : Multiset (F × ℤ)) : Keeps C 0 bh all :=
  ⟨fun j h2 hj => by omega, all, Multiset.zero_add all,
    fun _ _ t ht => absurd ht (notMem_zero t)⟩

def passing (qdis : ℕ → F) (isMember : ℕ → Bool) (ids : List ℕ) : Multiset (F × ℤ) :=
  ((ids.filter isMember).map fun id => (qdis id, (id : ℤ)) : List (F × ℤ))

lemma keeps_scan [Zero F] (C : Cmp F) (qdis : ℕ → F) (isMember : ℕ → Bool) (k ntotal : ℕ) :
    (scan C ntotal qdis isMember k).1 = min k (passing qdis isMember (range ntotal)).card ∧
      Keeps C (scan C ntotal qdis isMember k).1 (scan C ntotal qdis isMember k).2
        (passing qdis isMember (range ntotal)) := by
  unfold scan
  induction ntotal with
  | zero => exact ⟨(Nat.min_zero k).symm, keeps_zero C _ _⟩
  | succ n ih =>
    rw [range_succ, foldl_append, foldl_cons, foldl_nil]
    generalize (range n).foldl _ _ = s at ih ⊢
    obtain ⟨hlen, hkeeps⟩ := ih
    have hnext : passing qdis isMember (range n ++ [n]) = if isMember n then
        (qdis n, (n : ℤ)) ::ₘ passing qdis isMember (range n)
        else passing qdis isMember (range n) := by
      unfold passing
      rw [filter_append, map_append, ← coe_add, Multiset.add_comm]
      split_ifs with hmem <;> simp [hmem]
    rw [hnext]
    unfold scanStep
    dsimp only
    split_ifs with hmem hlt hcmp
    · rw [card_cons]
      exact ⟨by omega, hkeeps.push (by omega) _ _⟩
    · have hk : s.1 = k := by omega
      refine ⟨by rw [card_cons]; omega, ?_⟩
      dsimp only
      rw [hk] at hkeeps ⊢
      rcases Nat.eq_zero_or_pos k with rfl | hpos
      · exact keeps_zero C _ _
      · exact hkeeps.replaceTop hpos _ hcmp
    · exact ⟨by rw [card_cons]; omega, hkeeps.leaveOut _ hcmp⟩
    · exact ⟨hlen, hkeeps⟩

/-- **The scan finds the best**: the `k` closest of the elements that pass the filter, or all if
there are fewer, the closest first and each with its own id, and then neutral ones. -/
theorem bruteForceSearchImpl_isTopK [Zero F] (C : Cmp F) (ntotal : ℕ) (qdis : ℕ → F)
    (isMember : ℕ → Bool) (k p : ℕ) (out : SearchOut F) :
    ∃ best, IsTopK (fun a b => ¬ C.cmp a b) Prod.fst k (passing qdis isMember (range ntotal)) best ∧
      bruteForceSearchImpl C ntotal qdis isMember k p out =
        out.writeResults p (best ++ replicate (k - best.length) (C.neutral, -1)) := by
  obtain ⟨hlen, hkeeps⟩ := keeps_scan C qdis isMember k ntotal
  refine ⟨_, hkeeps.isTopK hlen, ?_⟩
  have hmin : min (scan C ntotal qdis isMember k).1 k = (scan C ntotal qdis isMember k).1 := by
    omega
  rw [bruteForceSearchImpl_eq, length_reverse, drain_length]
  unfold bruteForceResults
  dsimp only
  rw [hmin]

end Rvanns.Faiss
