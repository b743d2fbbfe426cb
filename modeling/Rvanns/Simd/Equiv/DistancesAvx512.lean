import Rvanns.Cpp.Sort
import Rvanns.Simd.Equiv.BinarySearch
import Rvanns.Simd.DistancesAvx512

/-!
# Correctness of the AVX-512 binary search

In a sorted array the search finds the key if it is there.  Which of several equal keys it finds
depends on where they lie in the array, and on nothing else (`StopsAt`).
-/

namespace Rvanns.Simd

open Cpp List UInt64

/-! ### Absent keys -/

section Absent

variable {arr : ℕ → UInt64} {n : ℕ} {key : UInt64} {l r : ℤ} (habsent : ∀ s < n, arr s ≠ key)

include habsent

lemma eqLane_of_absent (hfit : start + 8 ≤ n) : eqLane arr key start = none := by
  apply find?_eq_none.mpr
  intro t ht
  have := mem_range.mp ht
  simpa using habsent (start + t) (by omega)

variable (hl : 0 ≤ l) (hr : r < n)
include hl hr

lemma bisect_of_absent (fuel : ℕ) : bisect arr key fuel l r = -1 := by
  induction fuel generalizing l r with
  | zero => rfl
  | succ fuel ih =>
    rw [bisect]
    dsimp only
    split_ifs with hle heq
    · exact absurd heq (habsent _ (by omega))
    · exact ih (by omega) hr
    · exact ih hl (by omega)
    · rfl

lemma bisectChunks_of_absent (fuel : ℕ) : bisectChunks arr n key fuel l r = -1 := by
  induction fuel generalizing l r with
  | zero => rfl
  | succ fuel ih =>
    have hstart : 0 ≤ chunkStart l r ∧ chunkStart l r ≤ max l (l + (r - l) / 2) := by
      dsimp only [chunkStart]
      omega
    rw [bisectChunks]
    dsimp only
    split_ifs with hlong hchunk hlt heq
    · rw [eqLane_of_absent habsent (by omega)]
      exact ih (by omega) hr
    · rw [eqLane_of_absent habsent (by omega)]
      exact ih hl (by omega)
    · exact absurd heq (habsent _ (by omega))
    · exact ih (by omega) hr
    · exact ih hl (by omega)
    · exact bisect_of_absent habsent hl hr _

end Absent

/-! ### The first position -/

def firstIndex (arr : ℕ → UInt64) (size : ℕ) (key : UInt64) : ℤ :=
  match (range size).find? fun i => arr i = key with
  | some i => i
  | none => -1

section First

variable {arr : ℕ → UInt64} {size : ℕ} {key : UInt64}

lemma firstIndex_of_absent (h : ∀ s < size, arr s ≠ key) : firstIndex arr size key = -1 := by
  have hnone : ((range size).find? fun i => arr i = key) = none := by
    apply find?_eq_none.mpr
    intro i hi
    simpa using h i (mem_range.mp hi)
  rw [firstIndex, hnone]

lemma firstIndex_of_first (hi : i < size) (heq : arr i = key)
    (hfirst : ∀ j < i, arr j ≠ key) : firstIndex arr size key = i := by
  have hsome : ((range size).find? fun i => arr i = key) = some i := by
    apply find?_range_eq_some.mpr
    exact ⟨by simpa using heq, mem_range.mpr hi, fun j hj => by simpa using hfirst j hj⟩
  rw [firstIndex, hsome]

lemma u64BinarySearchEqRef_eq_firstIndex (key : UInt64) (hsize : size < 2 ^ 31)
    (hmono : ∀ s s' : ℕ, s ≤ s' → s' < size → arr s ≤ arr s') :
    u64BinarySearchEqRef arr size key = firstIndex arr size key := by
  have hhit := u64BinarySearchEqRef_isFirstHit (castInt_of_lt hsize) key fun s s' hss' hs' =>
    UInt64.not_lt.mpr (hmono s s' hss' hs')
  obtain ⟨hr, habsent⟩ | ⟨s, hr, hs, heq, hfirst⟩ := hhit
  · rw [hr, firstIndex_of_absent fun s hs => habsent s (by omega)]
  · rw [hr, firstIndex_of_first (by omega) heq fun j hj => UInt64.ne_of_lt (hfirst j hj)]

lemma flatMap_chunks (n : ℕ) :
    ((range n).flatMap fun c => (range 8).map (8 * c + ·)) = range (8 * n) := by
  induction n with
  | zero => rfl
  | succ n ih =>
    rw [range_succ (n := n), flatMap_append, ih, flatMap_singleton, Nat.mul_succ, range_add]

lemma find?_range_eq_scans (arr : ℕ → UInt64) (size : ℕ) (key : UInt64) :
    ((range size).find? fun i => arr i = key)
      = ((range (size / 8)).findSome? fun c => (eqLane arr key (8 * c)).map (8 * c + ·)).or
        ((range' (size / 8 * 8) (size - size / 8 * 8)).find? fun i => arr i = key) := by
  have hsplit : range size
      = range (8 * (size / 8)) ++ range' (size / 8 * 8) (size - size / 8 * 8) := by
    have happend := range'_append_1 (s := 0) (m := size / 8 * 8) (n := size - size / 8 * 8)
    rw [zero_add, Nat.add_sub_cancel' (Nat.div_mul_le_self size 8)] at happend
    rw [mul_comm, range_eq_range', range_eq_range', happend]
  rw [hsplit, find?_append, ← flatMap_chunks, find?_flatMap]
  simp only [find?_map, eqLane]
  rfl

lemma scanSmall_eq_firstIndex (hsize : size < 2 ^ 31) :
    scanSmall arr size key = firstIndex arr size key := by
  have hlt {i : ℕ} (h : ((range size).find? fun i => arr i = key) = some i) : i < size :=
    mem_range.mp (mem_of_find?_eq_some h)
  have hscans := find?_range_eq_scans arr size key
  unfold scanSmall firstIndex
  cases hchunks : (range (size / 8)).findSome? fun c =>
      (eqLane arr key (8 * c)).map (8 * c + ·) with
  | some i =>
    rw [hchunks] at hscans
    rw [hscans]
    exact castInt_of_lt ((hlt hscans).trans hsize)
  | none =>
    rw [hchunks, Option.none_or] at hscans
    rw [← hscans]
    cases hfind : (range size).find? fun i => arr i = key with
    | some i => exact castInt_of_lt ((hlt hfind).trans hsize)
    | none => rfl

end First

/-! ### Arrays with and without duplicates -/

def entries (keys : List UInt64) (i : ℕ) : UInt64 := (keys[i]?).getD 0

section Arrays

variable {keys : List UInt64} {n : ℕ}

lemma entries_of_lt (hi : i < keys.length) : entries keys i = keys[i] := by
  rw [entries, getElem?_eq_getElem hi, Option.getD_some]

lemma entries_mono (hsorted : keys.Pairwise (· ≤ ·)) (s s' : ℕ) (hss' : s ≤ s')
    (hs' : s' < keys.length) : entries keys s ≤ entries keys s' := by
  rw [entries_of_lt (by omega), entries_of_lt hs']
  rcases Nat.lt_or_eq_of_le hss' with hlt | rfl
  · exact pairwise_iff_getElem.mp hsorted s s' (by omega) hs' hlt
  · exact UInt64.le_refl _

end Arrays

/-! ### Runs of equal keys -/

/-- What the search looks at when its key is between the positions `l` and `r`: eight keys from an
aligned position on, or one key. -/
def probed (n : ℕ) (l r : ℤ) : ℤ × ℤ :=
  if 128 < n ∧ 16 ≤ r - l + 1 ∧ chunkStart l r + 8 ≤ n ∧ chunkStart l r + 7 ≤ r then
    (chunkStart l r, 8)
  else (l + (r - l) / 2, 1)

/-- The search goes on behind or before what it has looked at. -/
inductive Narrows (n : ℕ) : ℤ × ℤ → ℤ × ℤ → Prop
  | above (h : l ≤ r) : Narrows n (l, r) ((probed n l r).1 + (probed n l r).2, r)
  | below (h : l ≤ r) : Narrows n (l, r) (l, (probed n l r).1 - 1)

open Relation (ReflTransGen)

/-- A search that begins with `I` can come to a range that contains the positions from `lo` to `hi`,
and `s` is the first of these positions that it looks at there. -/
def StopsAt (n : ℕ) (lo hi s : ℤ) (I : ℤ × ℤ) : Prop :=
  ∃ J, ReflTransGen (Narrows n) I J ∧ J.1 ≤ lo ∧ hi ≤ J.2 + 1
    ∧ (probed n J.1 J.2).1 < hi ∧ lo < (probed n J.1 J.2).1 + (probed n J.1 J.2).2
    ∧ s = max lo (probed n J.1 J.2).1

section Ranges

variable {n : ℕ} {l r lo hi s : ℤ} {I J : ℤ × ℤ}

lemma probed_bounds (n : ℕ) (hle : l ≤ r) :
    l < (probed n l r).1 + (probed n l r).2 ∧ (probed n l r).1 ≤ r ∧ 0 < (probed n l r).2 := by
  unfold probed
  split_ifs with h
  · dsimp only [chunkStart] at *
    omega
  · dsimp only
    omega

lemma Narrows.subset (h : Narrows n I J) : I.1 ≤ J.1 ∧ J.2 ≤ I.2 := by
  cases h with
  | above hle =>
    have := probed_bounds n hle
    exact ⟨this.1.le, le_rfl⟩
  | below hle =>
    have := probed_bounds n hle
    exact ⟨le_rfl, (Int.sub_le_self _ (by decide)).trans this.2.1⟩

lemma subset_of_narrows (h : ReflTransGen (Narrows n) I J) : I.1 ≤ J.1 ∧ J.2 ≤ I.2 := by
  induction h with
  | refl => exact ⟨le_rfl, le_rfl⟩
  | tail _ hstep ih => exact ⟨ih.1.trans hstep.subset.1, hstep.subset.2.trans ih.2⟩

lemma StopsAt.bounds (h : StopsAt n lo hi s I) (hlt : lo < hi) : lo ≤ s ∧ s < hi := by
  obtain ⟨J, -, -, -, hbefore, -, rfl⟩ := h
  exact ⟨le_max_left _ _, max_lt hlt hbefore⟩

variable (hlo : l ≤ lo) (hlt : lo < hi) (hhi : hi ≤ r + 1)

include hlo hhi

lemma stopsAt_of_touches (hbefore : (probed n l r).1 < hi)
    (hbehind : lo < (probed n l r).1 + (probed n l r).2) :
    StopsAt n lo hi s (l, r) ↔ s = max lo (probed n l r).1 := by
  constructor
  · rintro ⟨J, hJ, h1, h2, -, -, hs⟩
    obtain rfl | ⟨K, hK, hJ⟩ := hJ.cases_head
    · exact hs
    · -- the run would lie on one side of what was looked at
      have hsub := subset_of_narrows hJ
      cases hK with
      | above => exact absurd (hsub.1.trans h1) (not_le.mpr hbehind)
      | below =>
        dsimp only at hsub
        omega
  · intro hs
    exact ⟨(l, r), .refl, hlo, hhi, hbefore, hbehind, hs⟩

include hlt

lemma stopsAt_above (h : (probed n l r).1 + (probed n l r).2 ≤ lo) :
    StopsAt n lo hi s (l, r) ↔ StopsAt n lo hi s ((probed n l r).1 + (probed n l r).2, r) := by
  have hle : l ≤ r := by omega
  have hbounds := probed_bounds n hle
  constructor
  · rintro ⟨J, hJ, h1, h2, h3, h4⟩
    obtain rfl | ⟨K, hK, hJ⟩ := hJ.cases_head
    · exact absurd h (not_le.mpr h4.1)
    · have hsub := subset_of_narrows hJ
      cases hK with
      | above => exact ⟨J, hJ, h1, h2, h3, h4⟩
      | below =>
        dsimp only at hsub
        omega
  · rintro ⟨J, hJ, hrest⟩
    exact ⟨J, .head (.above hle) hJ, hrest⟩

lemma stopsAt_below (h : hi ≤ (probed n l r).1) :
    StopsAt n lo hi s (l, r) ↔ StopsAt n lo hi s (l, (probed n l r).1 - 1) := by
  have hle : l ≤ r := by omega
  have hbounds := probed_bounds n hle
  constructor
  · rintro ⟨J, hJ, h1, h2, h3, h4⟩
    obtain rfl | ⟨K, hK, hJ⟩ := hJ.cases_head
    · exact absurd h (not_le.mpr h3)
    · have hsub := subset_of_narrows hJ
      cases hK with
      | above =>
        dsimp only at hsub
        omega
      | below => exact ⟨J, hJ, h1, h2, h3, h4⟩
  · rintro ⟨J, hJ, hrest⟩
    exact ⟨J, .head (.below hle) hJ, hrest⟩

end Ranges

/-- The positions of a key in a sorted array, of which there is at least one. -/
structure Run (arr : ℕ → UInt64) (n : ℕ) (key : UInt64) (lo hi : ℕ) : Prop where
  nonempty : lo < hi
  le_size : hi ≤ n
  below : ∀ s < lo, arr s < key
  equal : ∀ s, lo ≤ s → s < hi → arr s = key
  above : ∀ s, hi ≤ s → s < n → key < arr s

section Runs

variable {arr : ℕ → UInt64} {n : ℕ} {key : UInt64} {lo hi : ℕ} (h : Run arr n key lo hi)

include h

lemma Run.eq_iff (hs : s < n) : arr s = key ↔ lo ≤ s ∧ s < hi := by
  constructor
  · rintro rfl
    by_contra hout
    rcases lt_or_ge s lo with hlow | hlow
    · exact UInt64.lt_irrefl _ (h.below s hlow)
    · exact UInt64.lt_irrefl _ (h.above s (by omega) hs)
  · rintro ⟨hlo, hhi⟩
    exact h.equal s hlo hhi

lemma Run.lt_iff (hs : s < n) : arr s < key ↔ s < lo := by
  constructor
  · intro hlt
    by_contra hge
    rcases lt_or_ge s hi with hin | hin
    · rw [h.equal s (by omega) hin] at hlt
      exact UInt64.lt_irrefl _ hlt
    · exact UInt64.lt_irrefl _ (UInt64.lt_trans hlt (h.above s hin hs))
  · exact h.below s

lemma Run.congr {arr' : ℕ → UInt64} (harr : ∀ s < n, arr s = arr' s) : Run arr' n key lo hi where
  nonempty := h.nonempty
  le_size := h.le_size
  below := fun s hs => harr s (hs.trans (h.nonempty.trans_le h.le_size)) ▸ h.below s hs
  equal := fun s hlo hhi => harr s (hhi.trans_le h.le_size) ▸ h.equal s hlo hhi
  above := fun s hhi hs => harr s hs ▸ h.above s hhi hs

lemma Run.firstIndex_eq : firstIndex arr n key = lo :=
  firstIndex_of_first (h.nonempty.trans_le h.le_size) (h.equal lo le_rfl h.nonempty)
    fun s hs => UInt64.ne_of_lt (h.below s hs)

lemma Run.eqLane_eq {start : ℕ} (hfit : start + 8 ≤ n) (hbefore : start < hi)
    (hbehind : lo < start + 8) : eqLane arr key start = some (max lo start - start) := by
  apply find?_range_eq_some.mpr
  have hlt := h.nonempty
  refine ⟨?_, mem_range.mpr (by omega), fun t ht => ?_⟩
  · simpa using h.equal (start + (max lo start - start)) (by omega) (by omega)
  · have hne : arr (start + t) ≠ key := by
      rw [ne_eq, h.eq_iff (by omega)]
      omega
    simpa using hne

variable (hn : n < 2 ^ 31) {l r s : ℤ} (hl : 0 ≤ l) (hlo : l ≤ lo) (hhi : hi ≤ r + 1) (hr : r < n)

include hn hl hlo hhi hr

omit hl in
/-- A turn that looks at one key. -/
lemma bisect_turn {m : ℕ} (hprobed : probed n l r = (l + (r - l) / 2, 1))
    (hm : l + (r - l) / 2 = m) {below above : ℤ}
    (habove : m < lo → (above = s ↔ StopsAt n lo hi s (m + 1, r)))
    (hbelow : hi ≤ m → (below = s ↔ StopsAt n lo hi s (l, m - 1))) :
    (if arr m = key then castInt m else if arr m < key then above else below) = s
      ↔ StopsAt n lo hi s (l, r) := by
  have hlt := h.nonempty
  rw [hm] at hprobed
  simp only [h.eq_iff (show m < n by omega), h.lt_iff (show m < n by omega)]
  split_ifs with heq hless
  · rw [castInt_of_lt (by omega), stopsAt_of_touches hlo hhi (by rw [hprobed]; dsimp only; omega)
      (by rw [hprobed]; dsimp only; omega), hprobed]
    omega
  · rw [habove hless, stopsAt_above hlo (by omega) hhi (by rw [hprobed]; dsimp only; omega),
      hprobed]
  · rw [hbelow (by omega), stopsAt_below hlo (by omega) hhi
      (by rw [hprobed]; dsimp only; omega), hprobed]

lemma bisect_eq_iff (hplain : ¬ (128 < n ∧ 16 ≤ r - l + 1)) (fuel : ℕ) (hfuel : r + 1 - l ≤ fuel) :
    bisect arr key fuel l r = s ↔ StopsAt n lo hi s (l, r) := by
  have hlt := h.nonempty
  induction fuel generalizing l r with
  | zero => omega
  | succ fuel ih =>
    obtain ⟨m, hm⟩ : ∃ m : ℕ, l + (r - l) / 2 = m := ⟨(l + (r - l) / 2).toNat, by omega⟩
    have hprobed : probed n l r = (l + (r - l) / 2, 1) :=
      if_neg fun hchunk => hplain ⟨hchunk.1, hchunk.2.1⟩
    rw [bisect, if_pos (by omega), hm]
    dsimp only [Int.toNat_natCast]
    exact bisect_turn h hn hlo hhi hr hprobed hm
      (fun hless => ih (by omega) (by omega) hhi hr (by omega) (by omega))
      (fun hge => ih hl hlo (by omega) (by omega) (by omega) (by omega))

lemma bisectChunks_eq_iff (hlarge : 128 < n) (fuel : ℕ) (hfuel : r + 1 - l ≤ fuel) :
    bisectChunks arr n key fuel l r = s ↔ StopsAt n lo hi s (l, r) := by
  have hlt := h.nonempty
  induction fuel generalizing l r with
  | zero => omega
  | succ fuel ih =>
    rw [bisectChunks]
    by_cases hlong : 16 ≤ r - l + 1
    · obtain ⟨m, hm⟩ : ∃ m : ℕ, l + (r - l) / 2 = m := ⟨(l + (r - l) / 2).toNat, by omega⟩
      obtain ⟨start, hstart, hsl, hsr⟩ : ∃ start : ℕ, chunkStart l r = start
          ∧ l < start + 8 ∧ start ≤ r := by
        refine ⟨(chunkStart l r).toNat, ?_, ?_, ?_⟩ <;> dsimp only [chunkStart] <;> omega
      rw [if_pos hlong, hm, hstart]
      dsimp only [Int.toNat_natCast]
      by_cases hchunk : (start : ℤ) + 8 ≤ n ∧ (start : ℤ) + 7 ≤ r
      · have hprobed : probed n l r = ((start : ℤ), 8) := by
          rw [probed, hstart, if_pos ⟨hlarge, hlong, hchunk⟩]
        rw [if_pos hchunk]
        by_cases htouch : start < hi ∧ lo < start + 8
        · -- the probe meets the run of the key
          rw [h.eqLane_eq (by omega) htouch.1 htouch.2]
          dsimp only
          rw [castInt_of_lt (by omega), stopsAt_of_touches hlo hhi
            (by rw [hprobed]; dsimp only; omega) (by rw [hprobed]; dsimp only; omega), hprobed]
          omega
        · have hnone : eqLane arr key start = none := by
            apply find?_eq_none.mpr
            intro t ht
            have := mem_range.mp ht
            have hne : arr (start + t) ≠ key := by
              rw [ne_eq, h.eq_iff (by omega)]
              omega
            simpa using hne
          rw [hnone]
          dsimp only
          simp only [h.lt_iff (show start + 4 < n by omega)]
          split_ifs with hless
          · rw [stopsAt_above hlo (by omega) hhi (by rw [hprobed]; dsimp only; omega), hprobed]
            exact ih (by omega) (by omega) hhi hr (by omega)
          · rw [stopsAt_below hlo (by omega) hhi (by rw [hprobed]; dsimp only; omega), hprobed]
            exact ih hl hlo (by omega) (by omega) (by omega)
      · have hprobed : probed n l r = (l + (r - l) / 2, 1) := by
          rw [probed, hstart, if_neg fun hall => hchunk hall.2.2]
        rw [if_neg hchunk]
        exact bisect_turn h hn hlo hhi hr hprobed hm
          (fun hless => ih (by omega) (by omega) hhi hr (by omega))
          (fun hge => ih hl hlo (by omega) (by omega) (by omega))
    · rw [if_neg hlong]
      exact bisect_eq_iff h hn hl hlo hhi hr (fun hboth => hlong hboth.2) (fuel + 1) hfuel

end Runs

section Cases

variable {arr : ℕ → UInt64} {n : ℕ} (hn : n < 2 ^ 31)

lemma avx512_of_small (hsmall : n ≤ 32) (key : UInt64) :
    u64BinarySearchEqAvx512 arr n key = firstIndex arr n key := by
  rw [u64BinarySearchEqAvx512]
  split_ifs with hzero
  · rw [firstIndex_of_absent fun s hs => by omega]
  · exact scanSmall_eq_firstIndex (by omega)

include hn

omit hn in
lemma avx512_of_absent (habsent : ∀ s < n, arr s ≠ key) :
    u64BinarySearchEqAvx512 arr n key = -1 := by
  rcases le_or_gt n 32 with hsmall | hlarge
  · rw [avx512_of_small hsmall, firstIndex_of_absent habsent]
  rw [u64BinarySearchEqAvx512, if_neg (by omega), if_neg (by omega)]
  split_ifs
  · exact bisectChunks_of_absent habsent le_rfl (by omega) _
  · exact bisect_of_absent habsent le_rfl (by omega) _

lemma Run.avx512_eq_iff (h : Run arr n key lo hi) (hlarge : 32 < n) (s : ℤ) :
    u64BinarySearchEqAvx512 arr n key = s ↔ StopsAt n lo hi s (0, n - 1) := by
  have hle := h.le_size
  rw [u64BinarySearchEqAvx512, if_neg (by omega), if_neg (by omega)]
  split_ifs with hchunks
  · exact bisectChunks_eq_iff h hn le_rfl (by omega) (by omega) (by omega) hchunks _ (by omega)
  · exact bisect_eq_iff h hn le_rfl (by omega) (by omega) (by omega) (fun h => hchunks h.1) _
      (by omega)

end Cases

section Sorted

variable {keys : List UInt64}

lemma eq_append_replicate (hsorted : keys.Pairwise (· ≤ ·)) (key : UInt64) :
    ∃ after, keys = keys.filter (· < key) ++ (replicate (keys.count key) key ++ after)
      ∧ ∀ b ∈ after, key < b := by
  have hbefore : keys = keys.filter (· < key) ++ keys.filter fun a => !decide (a < key) :=
    eq_filter_append_filter (hsorted.imp fun {a b} hab hb => by
      simpa using UInt64.lt_of_le_of_lt hab (by simpa using hb))
  set rest := keys.filter fun a => !decide (a < key) with hrest
  have hafter : rest = rest.filter (· == key) ++ rest.filter fun a => !(a == key) := by
    apply eq_filter_append_filter
    refine (hsorted.filter _).imp_of_mem fun {a b} ha hb hab heq => ?_
    have hge : key ≤ a := by simpa using (mem_filter.mp ha).2
    have hb' : b = key := by simpa using heq
    simpa using UInt64.le_antisymm (hb' ▸ hab) hge
  have hcount : rest.filter (· == key) = replicate (keys.count key) key := by
    rw [filter_beq]
    congr 1
    rw [hrest, count_filter (by simp)]
  refine ⟨_, by rw [← hcount, ← hafter]; exact hbefore, fun b hb => ?_⟩
  obtain ⟨hb, hne⟩ := mem_filter.mp hb
  have hge : key ≤ b := by simpa using (mem_filter.mp hb).2
  have hne : b ≠ key := by simpa using hne
  exact UInt64.lt_of_le_of_ne hge hne.symm

lemma run_of_mem (hsorted : keys.Pairwise (· ≤ ·)) (hmem : key ∈ keys) :
    Run (entries keys) keys.length key (keys.countP (· < key))
      (keys.countP (· < key) + keys.count key) := by
  obtain ⟨after, hkeys, hafter⟩ := eq_append_replicate hsorted key
  have hpos : 0 < keys.count key := count_pos_iff.mpr hmem
  have hbefore : ∀ a ∈ keys.filter (· < key), a < key := fun a ha => by
    simpa using (mem_filter.mp ha).2
  rw [countP_eq_length_filter]
  set c := keys.count key
  set before := keys.filter (· < key)
  have hlen : keys.length = before.length + (c + after.length) := by
    rw [hkeys, length_append, length_append, length_replicate]
  refine ⟨by omega, by omega, fun s hs => ?_, fun s hlo hhi => ?_, fun s hhi hs => ?_⟩
  · rw [entries, hkeys, getElem?_append_left hs, getElem?_eq_getElem hs]
    exact hbefore _ (getElem_mem hs)
  · rw [entries, hkeys, getElem?_append_right hlo, getElem?_append_left (by
      rw [length_replicate]
      omega), getElem?_replicate, if_pos (by omega)]
    rfl
  · have hlt : s - before.length - c < after.length := by omega
    rw [entries, hkeys, getElem?_append_right (by omega), getElem?_append_right (by
      rw [length_replicate]
      omega), length_replicate, getElem?_eq_getElem hlt]
    exact hafter _ (getElem_mem hlt)

lemma idxOf_eq_countP (hsorted : keys.Pairwise (· ≤ ·)) (hmem : key ∈ keys) :
    keys.idxOf key = keys.countP (· < key) := by
  have hrun := run_of_mem hsorted hmem
  have hlt : keys.idxOf key < keys.length := idxOf_lt_length_iff.mpr hmem
  have hfound : entries keys (keys.idxOf key) = key := by
    rw [entries_of_lt hlt, getElem_idxOf]
  have hge := ((hrun.eq_iff hlt).mp hfound).1
  refine le_antisymm (not_lt.mp fun hgt => ?_) hge
  -- the first of the equal keys would come before the first occurrence
  have hpos := hrun.nonempty.trans_le hrun.le_size
  have heq := hrun.equal _ le_rfl hrun.nonempty
  rw [entries_of_lt hpos] at heq
  have hnot := not_of_lt_findIdx hgt
  simp [heq] at hnot

end Sorted

/-- Both searches return the first position of the key, or -1. -/
def SearchesAgree (keys : List UInt64) (key : UInt64) : Prop :=
  u64BinarySearchEqRef (entries keys) keys.length key = firstIndex (entries keys) keys.length key
    ∧ u64BinarySearchEqAvx512 (entries keys) keys.length key
      = u64BinarySearchEqRef (entries keys) keys.length key

/-- **Which occurrence the AVX-512 search finds**: it returns what the reference returns, the first
occurrence, exactly if the array is scanned, the key does not occur twice, or the search comes to
the first occurrence before any other. -/
theorem u64BinarySearchEqAvx512_iff {keys : List UInt64} (hn : keys.length < 2 ^ 31)
    (hsorted : keys.Pairwise (· ≤ ·)) (key : UInt64) :
    SearchesAgree keys key ↔ keys.length ≤ 32 ∨ keys.count key ≤ 1
      ∨ StopsAt keys.length (keys.idxOf key) (keys.idxOf key + keys.count key) (keys.idxOf key)
        (0, keys.length - 1) := by
  have href := u64BinarySearchEqRef_eq_firstIndex key hn (entries_mono hsorted)
  rw [SearchesAgree, href, and_iff_right rfl]
  rcases le_or_gt keys.length 32 with hsmall | hlarge
  · exact iff_of_true (avx512_of_small hsmall key) (.inl hsmall)
  by_cases hmem : key ∈ keys
  · have hrun := run_of_mem hsorted hmem
    have hiff := hrun.avx512_eq_iff hn hlarge
    rw [hrun.firstIndex_eq, hiff, or_iff_right (by omega), idxOf_eq_countP hsorted hmem,
      ← Nat.cast_add]
    refine ⟨.inr, fun h => h.elim (fun honce => ?_) id⟩
    -- there is one position to stop at
    have hstop := (hiff _).mp rfl
    have hbounds := hstop.bounds (by exact_mod_cast hrun.nonempty)
    rwa [show u64BinarySearchEqAvx512 (entries keys) keys.length key = keys.countP (· < key) by
      omega] at hstop
  · have habsent : ∀ s < keys.length, entries keys s ≠ key := fun s hs heq =>
      hmem (heq ▸ entries_of_lt hs ▸ getElem_mem hs)
    refine iff_of_true ?_ (.inr (.inl (by rw [count_eq_zero.mpr hmem]; exact zero_le_one)))
    rw [avx512_of_absent habsent, firstIndex_of_absent habsent]

/-- `n` keys, with `p - 1` at the positions `p - 1` and `p`. -/
def doubled (n p : ℕ) : List UInt64 :=
  (range p).map UInt64.ofNat ++ (range' (p - 1) (n - p)).map UInt64.ofNat

/-- 33 keys, with 16 at the positions 16 and 17: the search begins with the first of them. -/
theorem u64BinarySearchEqAvx512_firstOfTwo : SearchesAgree (doubled 33 17) 16 :=
  (u64BinarySearchEqAvx512_iff (by decide) (by decide +kernel) 16).mpr
    (.inr (.inr ⟨(0, 32), .refl, by decide +kernel⟩))

/-- 33 keys, with 15 at the positions 15 and 16: the search stops at the second of them. -/
theorem u64BinarySearchEqAvx512_secondOfTwo :
    (doubled 33 16).length = 33 ∧ (doubled 33 16).Pairwise (· ≤ ·) ∧
      u64BinarySearchEqRef (entries (doubled 33 16)) 33 15 = 15 ∧
      u64BinarySearchEqAvx512 (entries (doubled 33 16)) 33 15 = 16 := by
  decide +kernel

/-! ### The first key that is not less -/

section Ge

variable {keys : List UInt64} {target : UInt64} {p fuel : ℕ} {r left right result : ℤ}

/-- The first `p` keys are less than the target, `r` is what is to be returned. -/
structure GeRange (keys : List UInt64) (p : ℕ) (r left right result : ℤ) : Prop where
  left_nonneg : 0 ≤ left
  left_le : left ≤ p
  le_right : p ≤ right + 1
  right_lt : right < keys.length
  found : p = right + 1 → result = r

lemma rd_entries {i : ℤ} (h : 0 ≤ i ∧ i < keys.length) :
    rd keys i = some (entries keys i.toNat) := by
  rw [rd, if_pos h.1, entries_of_lt (by omega)]
  exact getElem?_eq_getElem _

variable (hp : ∀ s < keys.length, entries keys s < target ↔ s < p)
include hp

lemma geMask_eq {start : ℕ} (hfit : start + 8 ≤ keys.length) :
    geMask keys target start = some (decide (p < start + 8)) := by
  have hlanes : ((range 8).mapM fun t => rd keys ((start : ℤ) + (t : ℕ)))
      = some ((range 8).map fun t => entries keys (start + t)) := by
    apply mapM_eq_some_map
    intro t ht
    have := mem_range.mp ht
    exact rd_entries (by omega)
  rw [geMask, hlanes, some_bind, any_map]
  refine congrArg some (Bool.eq_iff_iff.mpr ⟨fun hany => ?_, fun hlt => ?_⟩)
  · obtain ⟨t, ht, hge⟩ := any_eq_true.mp hany
    have := mem_range.mp ht
    have := mt (hp (start + t) (by omega)).mpr (UInt64.not_lt.mpr (of_decide_eq_true hge))
    exact decide_eq_true (by omega)
  · refine any_eq_true.mpr ⟨7, by decide, decide_eq_true (UInt64.not_lt.mp fun hlane => ?_)⟩
    have := (hp (start + 7) (by omega)).mp hlane
    have := of_decide_eq_true hlt
    omega

section

variable (hr : p < keys.length → r = p) (h : GeRange keys p r left right result)
  (hfuel : right + 1 - left < fuel)
include hr h hfuel

lemma bisectGe_eq : bisectGe keys target fuel left right result = some r := by
  induction fuel generalizing left right result with
  | zero =>
    obtain ⟨-, h1, h2, -, -⟩ := h
    omega
  | succ fuel ih =>
    obtain ⟨h0, h1, h2, h3, h4⟩ := h
    rw [bisectGe]
    by_cases hle : left ≤ right
    · rw [if_pos hle]
      dsimp only
      rw [rd_entries (by omega), some_bind]
      have hmid := hp (left + (right - left) / 2).toNat (by omega)
      split_ifs with hge
      · have := mt hmid.mpr (UInt64.not_lt.mpr hge)
        exact ih ⟨h0, h1, by omega, by omega, by omega⟩ (by omega)
      · have := hmid.mp (UInt64.not_le.mp hge)
        exact ih ⟨by omega, by omega, h2, h3, h4⟩ (by omega)
    · rw [if_neg hle, h4 (by omega)]

lemma bisectGeChunks_eq :
    bisectGeChunks keys target keys.length fuel left right result = some r := by
  induction fuel generalizing left right result with
  | zero =>
    obtain ⟨-, h1, h2, -, -⟩ := h
    omega
  | succ fuel ih =>
    rw [bisectGeChunks]
    by_cases hlong : 32 ≤ right - left + 1
    · obtain ⟨h0, h1, h2, h3, h4⟩ := h
      -- the chunk lies inside of the range
      obtain ⟨start, hstart, hlow, hhigh⟩ : ∃ start : ℕ,
          alignedMid keys.length left right = start ∧ left < start ∧ start + 7 < right := by
        refine ⟨(alignedMid keys.length left right).toNat, ?_⟩
        dsimp only [alignedMid]
        split_ifs <;> omega
      rw [if_pos hlong, hstart]
      dsimp only
      rw [if_pos (by omega), geMask_eq hp (by omega), some_bind]
      simp only [decide_eq_true_eq]
      split_ifs with hge
      · exact ih ⟨h0, h1, by omega, by omega, by omega⟩ (by omega)
      · exact ih ⟨by omega, by omega, h2, h3, h4⟩ (by omega)
    · rw [if_neg hlong]
      exact bisectGe_eq hp hr h hfuel

end

end Ge

/-- **The AVX-512 search finds the first key that is not less**, as the reference does. -/
theorem u64BinarySearchGeAvx512_eq {keys : List UInt64} (hn : keys.length < 2 ^ 31)
    (hsorted : keys.Pairwise (· ≤ ·)) (target : UInt64) :
    let r := u64BinarySearchGeRef (entries keys) keys.length target
    u64BinarySearchGeAvx512 keys target = some r
      ∧ IsFirstGe (entries keys) target keys.length r := by
  intro r
  have hmono := entries_mono hsorted
  have hfirst : IsFirstGe (entries keys) target keys.length r :=
    u64BinarySearchGeRef_isFirstGe (castInt_of_lt hn) target fun s s' hs hs' =>
      UInt64.not_lt.mpr (hmono s s' hs hs')
  refine ⟨?_, hfirst⟩
  obtain ⟨p, hle, hr, hnone, hp⟩ : ∃ p ≤ keys.length, (p < keys.length → r = p) ∧
      (p = keys.length → r = -1) ∧ ∀ s < keys.length, entries keys s < target ↔ s < p := by
    obtain ⟨hr, hall⟩ | ⟨p, hr, hlt, hge, hbelow⟩ := hfirst
    · exact ⟨_, le_rfl, by omega, fun _ => hr, fun s hs => iff_of_true (hall s (by omega)) hs⟩
    · refine ⟨p, by omega, fun _ => hr, by omega, fun s hs => ⟨fun hs' => ?_, hbelow s⟩⟩
      by_contra hnot
      exact hge (UInt64.lt_of_le_of_lt (hmono p s (by omega) hs) hs')
  rw [u64BinarySearchGeAvx512, castInt_of_lt hn]
  split_ifs with hzero
  · rw [hnone (by omega)]
  · exact bisectGeChunks_eq hp hr ⟨le_rfl, by omega, by omega, by omega, by omega⟩ (by omega)

theorem u64BinarySearchGeAvx512_pairs :
    ∃ r, u64BinarySearchGeAvx512 ((range 40).map fun i => ofNat (i / 2)) 9 = some r
      ∧ IsFirstGe (entries ((range 40).map fun i => ofNat (i / 2))) 9 40 r :=
  ⟨_, u64BinarySearchGeAvx512_eq (by decide) (by decide) 9⟩

end Rvanns.Simd
