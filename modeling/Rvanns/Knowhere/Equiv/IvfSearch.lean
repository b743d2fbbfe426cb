import Rvanns.Faiss.Equiv.IndexIVFSearch
import Rvanns.Knowhere.Equiv.IvfIterator

/-!
# When a search with `ensure_topk_full` is full

The search may probe all lists and does not stop before `k` entries were offered to the heap.
-/

namespace Rvanns.Knowhere

open Cpp Faiss List IndexIVF
open IvfIterator (stored)

variable {Q V F : Type}

lemma sizeOfDouble_eq_none_iff : sizeOfDouble y = none ↔ ¬ (-1 < y ∧ y < 2 ^ 64) := by
  unfold sizeOfDouble
  split_ifs with h
  · exact iff_of_false (by simp) (not_not.mpr h)
  · exact iff_of_true rfl h

section Search

variable [LinearOrder F] [BoundedOrder F] [Zero F] {round : ℚ → ℚ} {ix : IndexIVF Q V F}
  {storage : ListStorage V} {content : ℕ → List (Entry V)} {x : Q} {k np : ℕ}
  {bs : BitsetView}

/-- A search for `k` results returns as many of the stored vectors that pass the filter, or all of
them, and then padding. -/
def SearchFull (round : ℚ → ℚ) (ix : IndexIVF Q V F) (storage : ListStorage V)
    (content : ℕ → List (Entry V)) (x : Q) (k np : ℕ) (bs : BitsetView) : Prop :=
  ∃ top : List (F × ℤ),
    ivfSearch round ix storage x k np true bs
      = .ok (top ++ List.replicate (k - top.length) (ix.cmp.neutral, -1))
    ∧ top.length = min k (stored ix content bs x).length
    ∧ (↑top : Multiset (F × ℤ)) ≤ ↑((stored ix content bs x).map IndexIVF.heapElem)

/-- The limit on the number of codes is a `size_t`. -/
def LimitFits (round : ℚ → ℚ) (ix : IndexIVF Q V F) (np : ℕ) (bs : BitsetView) : Prop :=
  -1 < scanLimit round np ix.nlist ix.ntotal bs.count
    ∧ scanLimit round np ix.nlist ix.ntotal bs.count < 2 ^ 64

omit [LinearOrder F] [BoundedOrder F] [Zero F] in
lemma limitFits_of_le (hmono : Monotone round) (hzero : round 0 = 0)
    (hpow : ∀ n ≤ 63, round (2 ^ n) = 2 ^ n) (hnprobe : np ≤ 2 ^ 31)
    (hntotal : ix.ntotal ≤ 2 ^ 32) (hcount : bs.count ≤ ix.ntotal) :
    LimitFits round ix np bs := by
  have hvalid : (ix.ntotal + 2 ^ 64 - bs.count % 2 ^ 64) % 2 ^ 64
      = ix.ntotal - bs.count := by omega
  have hratio : round ((np : ℚ) / ix.nlist) ≤ 2 ^ 31 := by
    rw [← hpow 31 (by omega)]
    apply hmono
    rcases Nat.eq_zero_or_pos ix.nlist with hnone | hpos
    · rw [hnone, Nat.cast_zero, div_zero]
      positivity
    · calc (np : ℚ) / ix.nlist ≤ np :=
          div_le_self (by positivity) (by exact_mod_cast hpos)
        _ ≤ 2 ^ 31 := by exact_mod_cast hnprobe
  have hdiff : round ((ix.ntotal - bs.count : ℕ) : ℚ) ≤ 2 ^ 32 := by
    rw [← hpow 32 (by omega)]
    apply hmono
    exact_mod_cast (Nat.sub_le _ _).trans hntotal
  have hratio0 : 0 ≤ round ((np : ℚ) / ix.nlist) := hzero ▸ hmono (by positivity)
  have hdiff0 : 0 ≤ round ((ix.ntotal - bs.count : ℕ) : ℚ) := hzero ▸ hmono (by positivity)
  have hlimit : scanLimit round np ix.nlist ix.ntotal bs.count ≤ 2 ^ 63 := by
    unfold scanLimit
    rw [hvalid, ← hpow 63 le_rfl]
    apply hmono
    calc round ((np : ℚ) / ix.nlist) * round ((ix.ntotal - bs.count : ℕ) : ℚ)
        ≤ 2 ^ 31 * 2 ^ 32 := by gcongr
      _ = 2 ^ 63 := by norm_num
  have hlimit0 : 0 ≤ scanLimit round np ix.nlist ix.ntotal bs.count := by
    unfold scanLimit
    rw [hvalid]
    exact hzero ▸ hmono (mul_nonneg hratio0 hdiff0)
  exact ⟨by linarith, lt_of_le_of_lt hlimit (by norm_num)⟩

lemma search_of_nlist_eq_zero (hzero : ix.nlist = 0) (lists : InvertedLists V)
    (hk : 1 ≤ k) (params : IndexIVF.SearchParameters) :
    ix.search lists x k params = .error (.thrown "Error: 'nprobe > 0' failed") := by
  unfold search
  rw [hzero, Nat.zero_min, if_neg (by omega)]
  rfl

/-- The number of codes that pass the filter after which a search need not visit more lists. -/
def maxCodes (round : ℚ → ℚ) (ix : IndexIVF Q V F) (np : ℕ) (bs : BitsetView) : ℕ :=
  ⌊scanLimit round np ix.nlist ix.ntotal bs.count⌋.toNat

lemma ivfSearch_of_fits (hfits : LimitFits round ix np bs) (storage : ListStorage V)
    (x : Q) (k : ℕ) : ivfSearch round ix storage x k np true bs
      = ix.search storage.invertedLists x k
        ⟨ix.nlist, maxCodes round ix np bs, true, selects bs⟩ := by
  have hsize : sizeOfDouble (scanLimit round np ix.nlist ix.ntotal bs.count)
      = some (maxCodes round ix np bs) := if_pos hfits
  unfold ivfSearch searchParameters
  rw [hsize]
  rfl

lemma ivfSearch_of_not_fits (hfits : ¬ LimitFits round ix np bs) (k : ℕ) :
    ivfSearch round ix storage x k np true bs = .error .undefined := by
  unfold ivfSearch searchParameters
  rw [sizeOfDouble_eq_none_iff.mpr hfits]
  rfl

omit [LinearOrder F] [BoundedOrder F] [Zero F] in
/-- The padding of a result shows where it begins. -/
lemma append_replicate_inj {top top' : List (F × ℤ)} {n n' : ℕ} {d : F}
    (htop : ∀ r ∈ top, r.2 ≠ -1) (htop' : ∀ r ∈ top', r.2 ≠ -1)
    (h : top ++ replicate n (d, -1) = top' ++ replicate n' (d, -1)) : top = top' := by
  have hfilter : ∀ {l : List (F × ℤ)} (m : ℕ), (∀ r ∈ l, r.2 ≠ -1) →
      (l ++ replicate m (d, -1)).filter (·.2 ≠ -1) = l := by
    intro l m hl
    rw [filter_append, filter_eq_self.mpr (by simpa using hl), filter_replicate]
    simp
  rw [← hfilter n htop, h, hfilter n' htop']

omit [LinearOrder F] [BoundedOrder F] [Zero F] in
lemma ne_of_le_stored {top : List (F × ℤ)}
    (h : (↑top : Multiset (F × ℤ)) ≤ ↑((stored ix content bs x).map heapElem)) :
    ∀ r ∈ top, r.2 ≠ -1 := by
  intro r hr
  have hmem := Multiset.mem_coe.mp (Multiset.mem_of_le h (Multiset.mem_coe.mpr hr))
  obtain ⟨d, hd, rfl⟩ := mem_map.mp hmem
  obtain ⟨p, -, hp⟩ := mem_flatMap.mp hd
  obtain ⟨e, -, rfl⟩ := mem_map.mp hp
  show (e.id : ℤ) ≠ -1
  omega

/-- **When a search is full**: there are lists, the limit fits, and there are enough entries with
another distance than the neutral one in the lists that are visited until the limit and `k` are
reached. -/
theorem searchFull_iff (hholds : storage.Holds content)
    (hcovers : IndexIVF.CoversLists ix.nlist (ix.quantizer x ix.nlist)) (hk : 1 ≤ k) :
    SearchFull round ix storage content x k np bs ↔
      0 < ix.nlist ∧ LimitFits round ix np bs
      ∧ min k (stored ix content bs x).length
        ≤ (ix.scanned content (selects bs) x (maxCodes round ix np bs) k).countP
          (·.val ≠ ix.cmp.neutral) := by
  constructor
  · rintro ⟨top, hsearch, hlen, hle⟩
    have hfits : LimitFits round ix np bs := by
      by_contra hnot
      rw [ivfSearch_of_not_fits hnot] at hsearch
      cases hsearch
    rw [ivfSearch_of_fits hfits] at hsearch
    have hnlist : 0 < ix.nlist := by
      by_contra hnot
      rw [search_of_nlist_eq_zero (by omega) _ hk] at hsearch
      cases hsearch
    obtain ⟨top', hsearch', -, htrue', hlen'⟩ := search_ensureTopkFull hholds hcovers hnlist hk
      (maxCodes round ix np bs) (selects bs)
    rw [hsearch', Except.ok.injEq] at hsearch
    obtain rfl := append_replicate_inj htrue' (ne_of_le_stored hle) hsearch
    exact ⟨hnlist, hfits, by omega⟩
  · rintro ⟨hnlist, hfits, henough⟩
    obtain ⟨top, hsearch, hle, -, hlen⟩ := search_ensureTopkFull hholds hcovers hnlist hk
      (maxCodes round ix np bs) (selects bs)
    have hsub := ix.scanned_sublist content (selects bs) x
      (maxCodes round ix np bs) k
    refine ⟨top, (ivfSearch_of_fits hfits storage x k).trans hsearch, ?_, hle.trans ?_⟩
    · have hcount : _ ≤ (stored ix content bs x).length :=
        (countP_le_length (p := fun r => decide (r.val ≠ ix.cmp.neutral))).trans hsub.length_le
      omega
    · exact Multiset.coe_le.mpr (hsub.map heapElem).subperm

end Search

def productIndex : IndexIVF Unit (Fin 5) (Fin 5) where
  nlist := 1
  ntotal := 2
  nprobe := 1
  isIp := true
  scanner := .ivfFlat
  quantizer _ n := (List.range n).map fun (listNo : ℕ) => ((listNo : ℤ), 0)
  distance _ _ _ code := code

/-- Two codes; the inner product with the second is the least number. -/
def twoCodes (listNo : ℕ) : List (Entry (Fin 5)) :=
  if listNo = 0 then [⟨0, 3⟩, ⟨1, 0⟩] else []

lemma limitFits_productIndex : LimitFits id productIndex 1 IvfIterator.noFilter :=
  limitFits_of_le monotone_id rfl (fun _ _ => rfl) (by decide) (by decide) (by decide)

lemma coversLists_productIndex :
    IndexIVF.CoversLists productIndex.nlist (productIndex.quantizer () productIndex.nlist) :=
  .refl _

lemma maxCodes_productIndex : maxCodes id productIndex 1 IvfIterator.noFilter = 2 := by
  decide +kernel

theorem searchFull_productIndex :
    SearchFull id productIndex (.array twoCodes) twoCodes () 1 1 IvfIterator.noFilter := by
  have hholds : (ListStorage.array twoCodes).Holds twoCodes := rfl
  refine (searchFull_iff hholds coversLists_productIndex le_rfl).mpr
    ⟨by decide, limitFits_productIndex, ?_⟩
  rw [maxCodes_productIndex]
  decide

/-- An entry whose inner product is the least number is not found. -/
theorem ivfSearch_least :
    stored productIndex twoCodes IvfIterator.noFilter () = [⟨0, 3⟩, ⟨1, 0⟩]
    ∧ ivfSearch id productIndex (.array twoCodes) () 2 1 true IvfIterator.noFilter
      = .ok [(3, 0), (0, -1)] := by
  refine ⟨by decide, ?_⟩
  rw [ivfSearch_of_fits limitFits_productIndex, maxCodes_productIndex]
  decide

end Rvanns.Knowhere
