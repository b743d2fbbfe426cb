import Rvanns.Knowhere.MinHash
import Rvanns.Simd.Equiv.Hook

/-!
# Which vector the MinHash table search returns

For `topk = 1` the table search takes the first band in which the query's hash occurs among the base
vectors, and a position of that hash in the band's sorted table.  The vector that it returns stands
at this position of the table of band 0 (`searchIsCorrect_iff`), whether it is filtered or not.
-/

namespace Rvanns.Knowhere.MinHash

open Cpp List Option ResultHandler KVPair Simd
open UInt64 (lt_iff_toNat_lt)

/-! ### Sorted tables -/

lemma keyLt_strictWeak : StrictWeak keyLt :=
  StrictWeak.of_key (fun a => a.key.toNat) fun a b => by simp [keyLt, lt_iff_toNat_lt]

section Search

variable (hash : List UInt8 → UInt64) (p : LshParams) (S : StdSort KVPair) (x y : ℕ → UInt8)
  (ny : ℕ) (simd : SimdType)

def bandRow (b : ℕ) : List KVPair :=
  (range ny).map fun j => ⟨getHashKey hash p y j b, j⟩

def sortedRow (b : ℕ) : List KVPair := S.run keyLt (bandRow hash p y ny b)

def rowKeys (b : ℕ) : List UInt64 := (sortedRow hash p S y ny b).map key

/-- The keys from the first one of band `b` on. -/
def bandKeys (b s : ℕ) : UInt64 :=
  (((tableOf p.band (sortedRow hash p S y ny)).map key)[b * ny + s]?).getD 0

/-- How many base vectors have a smaller hash than the query in band `b`. -/
def hashesBelow (q b : ℕ) : ℕ :=
  (range ny).countP fun j => decide (getHashKey hash p y j b < getHashKey hash p x q b)

/-- How many base vectors have the hash of the query in band `b`. -/
def hashesEqual (q b : ℕ) : ℕ :=
  (range ny).countP fun j => getHashKey hash p y j b == getHashKey hash p x q b

/-- In the sorted table of band `b` the query's hash stands at as many positions as base vectors
have it, behind those that have a smaller one; the lookup finds it at `s`. -/
def FoundAt (q b s : ℕ) : Prop :=
  FindsAt simd ny (hashesBelow hash p x y ny q b)
    (hashesBelow hash p x y ny q b + hashesEqual hash p x y ny q b) s

/-- The first band in which a base vector has the hash of the query. -/
def firstBand (q : ℕ) : Option ℕ :=
  (range p.band).find? fun b => decide (0 < hashesEqual hash p x y ny q b)

def lookup (q b : ℕ) : ℤ :=
  u64BinarySearchEq simd (bandKeys hash p S y ny b) ny (getHashKey hash p x q b)

def labelOf (q : ℕ) : ℤ :=
  match firstBand hash p x y ny q with
  | none => -1
  | some b =>
    ((rd (sortedRow hash p S y ny 0) (lookup hash p S x y ny simd q b)).map value).getD (-1)

/-- The result of a search that has found a vector, or none. -/
def handlerWith (label : ℤ) : ResultHandler :=
  if label = -1 then ResultHandler.new 1 else ⟨[label], [1], 1, 1⟩

variable {hash p S x y ny}

/-! ### The table of a band -/

lemma length_bandRow : (bandRow hash p y ny b).length = ny := by
  simp [bandRow]

lemma sortedRow_perm : (sortedRow hash p S y ny b).Perm (bandRow hash p y ny b) :=
  S.perm keyLt_strictWeak _

lemma length_sortedRow : (sortedRow hash p S y ny b).length = ny := by
  rw [sortedRow_perm.length_eq, length_bandRow]

lemma sortHashKV_eq : sortHashKV S (genTransposedHashKV hash p y ny) ny p.band =
      tableOf p.band (sortedRow hash p S y ny) := by
  refine flatMap_congr fun b hb => ?_
  have hrow := take_drop_tableOf (f := bandRow hash p y ny)
    (fun b _ => length_bandRow) (mem_range.mp hb)
  rw [sortedRow, ← hrow]
  rfl

lemma length_rowKeys : (rowKeys hash p S y ny b).length = ny := by
  rw [rowKeys, length_map, length_sortedRow]

lemma rowKeys_sorted : (rowKeys hash p S y ny b).Pairwise (· ≤ ·) := by
  have hsorted : (sortedRow hash p S y ny b).Pairwise fun a b => ¬ keyLt b a :=
    S.sorted keyLt_strictWeak _
  refine pairwise_map.mpr (hsorted.imp fun {a b} h => ?_)
  simpa [keyLt] using h

lemma rowKeys_perm :
    (rowKeys hash p S y ny b).Perm ((range ny).map fun j => getHashKey hash p y j b) := by
  have hperm : (rowKeys hash p S y ny b).Perm _ := sortedRow_perm.map key
  rwa [bandRow, List.map_map] at hperm

lemma countP_rowKeys : (rowKeys hash p S y ny b).countP (· < getHashKey hash p x q b) =
      hashesBelow hash p x y ny q b := by
  rw [rowKeys_perm.countP_eq, countP_map]
  rfl

lemma count_rowKeys : (rowKeys hash p S y ny b).count (getHashKey hash p x q b) =
      hashesEqual hash p x y ny q b := by
  rw [rowKeys_perm.count_eq, count, countP_map]
  rfl

section Lookup

variable (hb : b < p.band)

include hb

lemma bandKeys_eq (hs : s < ny) :
    bandKeys hash p S y ny b s = entries (rowKeys hash p S y ny b) s := by
  have hslot : (tableOf p.band (sortedRow hash p S y ny))[b * ny + s]? = _ :=
    getElem?_tableOf (fun b _ => length_sortedRow) hb hs
  rw [bandKeys, entries, rowKeys, getElem?_map, getElem?_map, hslot]

lemma bandKeys_mono (s s' : ℕ) (hss' : s ≤ s') (hs' : s' < ny) :
    bandKeys hash p S y ny b s ≤ bandKeys hash p S y ny b s' := by
  rw [bandKeys_eq hb (by omega), bandKeys_eq hb hs']
  exact entries_mono rowKeys_sorted s s' hss' (by rwa [length_rowKeys])

lemma run_bandKeys (hpos : 0 < hashesEqual hash p x y ny q b) :
    Run (bandKeys hash p S y ny b) ny (getHashKey hash p x q b) (hashesBelow hash p x y ny q b)
      (hashesBelow hash p x y ny q b + hashesEqual hash p x y ny q b) := by
  rw [← count_rowKeys (S := S)] at hpos
  have hrun := run_of_mem rowKeys_sorted (count_pos_iff.mp hpos)
  rw [length_rowKeys, countP_rowKeys, count_rowKeys] at hrun
  exact hrun.congr fun s hs => (bandKeys_eq hb hs).symm

lemma bandKeys_ne (hzero : hashesEqual hash p x y ny q b = 0) (s : ℕ) (hs : s < ny) :
    bandKeys hash p S y ny b s ≠ getHashKey hash p x q b := by
  rw [← count_rowKeys (S := S), count_eq_zero] at hzero
  rw [bandKeys_eq hb hs, entries_of_lt (by rwa [length_rowKeys])]
  rintro heq
  exact hzero (heq ▸ getElem_mem _)

variable (hny : ny < 2 ^ 31)

include hny

lemma lookup_of_absent (hzero : hashesEqual hash p x y ny q b = 0) :
    lookup hash p S x y ny simd q b = -1 :=
  u64BinarySearchEq_of_absent simd hny (bandKeys_mono hb) (bandKeys_ne hb hzero)

variable (hpos : 0 < hashesEqual hash p x y ny q b)

include hpos

lemma lookup_eq_iff (s : ℕ) :
    lookup hash p S x y ny simd q b = s ↔ FoundAt hash p x y ny simd q b s :=
  (run_bandKeys hb hpos).u64BinarySearchEq_eq_iff simd hny (bandKeys_mono hb) s

/-- The position of the hash, and the base vector that stands there in band 0. -/
lemma exists_found : ∃ s < ny, ∃ j < ny, lookup hash p S x y ny simd q b = s ∧
      (sortedRow hash p S y ny 0)[s]? = some ⟨getHashKey hash p y j 0, j⟩ := by
  obtain ⟨s, hs, hfound⟩ := (run_bandKeys hb hpos).exists_findsAt simd hny (bandKeys_mono hb)
  have hlt : s < (sortedRow hash p S y ny 0).length := by rwa [length_sortedRow]
  obtain ⟨j, hj, heq⟩ := mem_map.mp (sortedRow_perm.mem_iff.mp (getElem_mem hlt))
  exact ⟨s, hs, j, mem_range.mp hj, hfound, by rw [getElem?_eq_getElem hlt, ← heq]⟩

end Lookup

/-! ### The result of the search -/

lemma push_new {id : ℤ} (hid : id ≠ -1) : (new 1).push id 1 = handlerWith id := by
  have hgood : ¬ (id = -1 ∨ (1 : ℚ) < 1 / 1000000) := by
    rw [not_or]
    exact ⟨hid, by norm_num⟩
  have hone : ¬ (1 < (new 1).topk ∧ (new 1).find id) := fun h =>
    absurd h.1 (by decide)
  rw [push, if_neg hgood, if_neg hone, handlerWith, if_neg hid]
  rfl

lemma searchBands_eq (hny : ny < 2 ^ 31) {q : ℕ} {queryKeys : List UInt64}
    (hkeys : ∀ b < p.band, rd queryKeys b = some (getHashKey hash p x q b)) (bands : List ℕ)
    (hbands : ∀ b ∈ bands, b < p.band) :
    let table := tableOf p.band (sortedRow hash p S y ny)
    searchBands p simd (table.map key) (table.map value) queryKeys ny bands (new 1) =
    match bands.find? fun b => decide (0 < hashesEqual hash p x y ny q b) with
    | none => some (new 1)
    | some b => (rd (sortedRow hash p S y ny 0) (lookup hash p S x y ny simd q b)).map fun kv =>
        handlerWith kv.value := by
  intro table
  induction bands with
  | nil => rfl
  | cons b bands ih =>
    have hb := hbands b mem_cons_self
    have hih := ih fun b' hb' => hbands b' (mem_cons_of_mem b hb')
    have hlookup : u64BinarySearchEq simd (fun s => ((table.map key)[b * ny + s]?).getD 0) ny
        (getHashKey hash p x q b) = lookup hash p S x y ny simd q b := rfl
    rcases Nat.eq_zero_or_pos (hashesEqual hash p x y ny q b) with hzero | hpos
    · rw [find?_cons_of_neg (by simp [hzero])]
      simp only [searchBands, hkeys b hb, some_bind, hlookup, lookup_of_absent simd hb hny hzero,
        ne_eq, not_true_eq_false, if_false]
      exact hih
    · obtain ⟨s, hs, j, hj, hfound, hrow⟩ := exists_found (S := S) simd hb hny hpos
      -- The values are read without the offset of band `b`, that is, in row 0.
      have hslot : table[0 * ny + s]? = _ :=
        getElem?_tableOf (fun b _ => length_sortedRow) (Nat.zero_lt_of_lt hb) hs
      rw [Nat.zero_mul, Nat.zero_add, hrow] at hslot
      have hvalue : rd (table.map value) (s : ℤ) = some (j : ℤ) := by
        rw [rd_natCast, getElem?_map, hslot]
        rfl
      have hne : (s : ℤ) ≠ -1 := by omega
      have hj1 : (j : ℤ) ≠ -1 := by omega
      have hpush := push_new hj1
      have hfull : (handlerWith j).full = true := by rw [handlerWith, if_neg hj1]; rfl
      have hstop : ∀ fuel hitId, pushWhileEqual (table.map key) (table.map value) p.band b
          (getHashKey hash p x q b) fuel (handlerWith j) hitId = some (handlerWith j) := by
        intro fuel hitId
        cases fuel <;> simp [pushWhileEqual, hfull]
      rw [find?_cons_of_pos (by simpa using hpos)]
      simp only [searchBands, hkeys b hb, some_bind, hlookup, hfound, ne_eq, hne,
        not_false_eq_true, if_true, hvalue, hpush, hstop, hfull, rd_natCast, hrow, map_some]

lemma rd_queryKeys (hq : q < nx) (hb : b < p.band) :
    rd ((((genHashKV hash p x nx).map key).drop (p.band * q)).take p.band) b =
      some (getHashKey hash p x q b) := by
  have hrow := take_drop_tableOf
    (f := fun j => (range p.band).map fun b => (⟨getHashKey hash p x j b, j⟩ : KVPair))
    (n := p.band) (fun j _ => by simp) hq
  rw [← map_drop, ← map_take]
  rw [show ((genHashKV hash p x nx).drop (p.band * q)).take p.band = _ from hrow]
  simp [hb]

lemma firstBand_eq_some_iff : firstBand hash p x y ny q = some b ↔
      b < p.band ∧ 0 < hashesEqual hash p x y ny q b ∧
        ∀ b' < b, hashesEqual hash p x y ny q b' = 0 := by
  rw [firstBand, find?_range_eq_some]
  simp only [decide_eq_true_eq, mem_range, Bool.not_eq_true', decide_eq_false_iff_not, not_lt,
    Nat.le_zero]
  exact and_left_comm

variable (hash p S x y ny)

lemma minHashVecSearch_eq (hny : ny < 2 ^ 31) (nx : ℕ) (bitset : BitsetView) :
    minHashVecSearch hash p simd S x y nx ny 1 bitset =
      some ((range nx).map fun q => handlerWith (labelOf hash p S x y ny simd q)) := by
  refine mapM_eq_some_map fun q hq => ?_
  rw [sortHashKV_eq, searchBands_eq simd hny (fun b hb => rd_queryKeys (mem_range.mp hq) hb) _
    fun b hb => mem_range.mp hb]
  change (match firstBand hash p x y ny q with | none => _ | some b => _) = _
  unfold labelOf
  cases hfirst : firstBand hash p x y ny q with
  | none => rfl
  | some b =>
    obtain ⟨hb, hpos, -⟩ := firstBand_eq_some_iff.mp hfirst
    obtain ⟨s, -, j, -, hfound, hrow⟩ := exists_found (S := S) simd hb hny hpos
    simp only [hfound, rd_natCast, hrow, map_some, getD_some]

/-! ### Correct answers -/

/-- The query agrees with base vector `j` on a whole band. -/
def SharesBand (q j : ℕ) : Prop := ∃ b < p.band, p.bandBytes x q b = p.bandBytes y j b

def passes (bitset : BitsetView) (j : ℕ) : Bool := bitset.empty || !bitset.test j

/-- The label is -1 exactly if no unfiltered base vector shares a band with the query, and otherwise
the label of one that does. -/
def IsCorrectLabel (bitset : BitsetView) (q : ℕ) (label : ℤ) : Prop :=
  (label = -1 ↔ ∀ j < ny, ¬ (passes bitset j ∧ SharesBand p x y q j)) ∧
    (label ≠ -1 → ∃ j : ℕ, j < ny ∧ label = j ∧ passes bitset j ∧ SharesBand p x y q j)

/-- Every query gets a correct label, however `std::sort` orders equal hashes. -/
def SearchIsCorrect (nx : ℕ) (bitset : BitsetView) : Prop :=
  ∀ S : StdSort KVPair, ∃ results,
    minHashVecSearch hash p simd S x y nx ny 1 bitset = some results ∧
    ∀ q < nx, ∃ label, (results[q]?).map ResultHandler.idsList = some [label] ∧
      IsCorrectLabel p x y ny bitset q label

/-- Base vector `j` can get to position `pos` when the base vectors are sorted by their hash in
band 0. -/
def MayStandAt (pos j : ℕ) : Prop :=
  ((range ny).countP fun i => decide (getHashKey hash p y i 0 < getHashKey hash p y j 0)) ≤
    pos ∧
  pos < (range ny).countP fun i => !decide (getHashKey hash p y j 0 < getHashKey hash p y i 0)

/-- If `b` is the first band in which base vectors have the query's hash, then every base vector
that may stand in band 0 where the query's hash is found in band `b` is an answer. -/
def AnswersQuery (bitset : BitsetView) (q : ℕ) : Prop :=
  ∀ b < p.band, 0 < hashesEqual hash p x y ny q b →
    (∀ b' < b, hashesEqual hash p x y ny q b' = 0) →
    ∀ s < ny, FoundAt hash p x y ny simd q b s →
      ∀ j < ny, MayStandAt hash p y ny s j → passes bitset j ∧ SharesBand p x y q j

lemma idsList_handlerWith (label : ℤ) : (handlerWith label).idsList = [label] := by
  unfold handlerWith
  split_ifs with h
  · rw [h]
    rfl
  · rfl

lemma searchIsCorrect_iff_labelOf (hny : ny < 2 ^ 31) (nx : ℕ) (bitset : BitsetView) :
    SearchIsCorrect hash p x y ny simd nx bitset ↔ ∀ S : StdSort KVPair, ∀ q < nx,
        IsCorrectLabel p x y ny bitset q (labelOf hash p S x y ny simd q) := by
  refine forall_congr' fun S => ?_
  rw [minHashVecSearch_eq hash p S x y ny simd hny]
  simp only [some.injEq, exists_eq_left']
  refine forall₂_congr fun q hq => ?_
  simp [hq, idsList_handlerWith]

variable {hash p x y ny}

lemma isCorrectLabel_natCast (hj : j < ny) :
    IsCorrectLabel p x y ny bitset q j ↔ passes bitset j ∧ SharesBand p x y q j := by
  have hne : (j : ℤ) ≠ -1 := by omega
  constructor
  · rintro ⟨-, h⟩
    obtain ⟨i, -, heq, hi⟩ := h hne
    rwa [show j = i by omega]
  · intro h
    refine ⟨⟨fun heq => absurd heq hne, fun hall => absurd h (hall j hj)⟩, fun _ => ?_⟩
    exact ⟨j, hj, rfl, h⟩

lemma isCorrectLabel_neg_one : IsCorrectLabel p x y ny bitset q (-1) ↔
      ∀ j < ny, passes bitset j → ¬ SharesBand p x y q j := by
  simp [IsCorrectLabel]

lemma mayStandAt_iff (hj : j < ny) : MayStandAt hash p y ny pos j ↔ ∃ S : StdSort KVPair,
        (sortedRow hash p S y ny 0)[pos]? = some ⟨getHashKey hash p y j 0, j⟩ := by
  set kv : KVPair := ⟨getHashKey hash p y j 0, j⟩ with hkv
  have hless : ((bandRow hash p y ny 0).countP fun a => keyLt a kv) =
      (range ny).countP fun i =>
        decide (getHashKey hash p y i 0 < getHashKey hash p y j 0) := by
    rw [bandRow, countP_map]
    rfl
  have hnotless : ((bandRow hash p y ny 0).countP fun a => !keyLt kv a) =
      (range ny).countP fun i =>
        !decide (getHashKey hash p y j 0 < getHashKey hash p y i 0) := by
    rw [bandRow, countP_map]
    rfl
  unfold MayStandAt
  rw [← hless, ← hnotless]
  constructor
  · rintro ⟨hle, hlt⟩
    refine StdSort.exists_getElem? keyLt_strictWeak ?_ hle hlt
    exact mem_map.mpr ⟨j, mem_range.mpr hj, rfl⟩
  · rintro ⟨S, hS⟩
    have := countP_le_of_sorted keyLt_strictWeak (S.sorted keyLt_strictWeak _) hS
    rwa [(S.perm keyLt_strictWeak _).countP_eq, (S.perm keyLt_strictWeak _).countP_eq] at this

lemma not_sharesBand (hnone : firstBand hash p x y ny q = none) (hj : j < ny) :
    ¬ SharesBand p x y q j := by
  rintro ⟨b, hb, hbytes⟩
  have hpos : 0 < hashesEqual hash p x y ny q b := by
    refine countP_pos_iff.mpr ⟨j, mem_range.mpr hj, ?_⟩
    rw [beq_iff_eq, getHashKey, getHashKey, hbytes]
  simpa [hpos] using find?_eq_none.mp hnone b (mem_range.mpr hb)

variable (hash p x y ny)

/-- **When the table search is right**: exactly when the vectors found through band 0 are answers,
for every query. -/
theorem searchIsCorrect_iff (hny : ny < 2 ^ 31) (nx : ℕ) (bitset : BitsetView) :
    SearchIsCorrect hash p x y ny simd nx bitset ↔
      ∀ q < nx, AnswersQuery hash p x y ny simd bitset q := by
  rw [searchIsCorrect_iff_labelOf hash p x y ny simd hny]
  constructor
  · intro h q hq b hb hpos hbefore s hs hfound j hj hstand
    obtain ⟨S, hrow⟩ := (mayStandAt_iff hj).mp hstand
    have hfirst := firstBand_eq_some_iff.mpr ⟨hb, hpos, hbefore⟩
    have hlabel := h S q hq
    simp only [labelOf, hfirst, (lookup_eq_iff simd hb hny hpos s).mpr hfound, rd_natCast, hrow,
      map_some, getD_some] at hlabel
    exact (isCorrectLabel_natCast hj).mp hlabel
  · intro h S q hq
    unfold labelOf
    cases hfirst : firstBand hash p x y ny q with
    | none => exact isCorrectLabel_neg_one.mpr fun j hj _ => not_sharesBand hfirst hj
    | some b =>
      obtain ⟨hb, hpos, hbefore⟩ := firstBand_eq_some_iff.mp hfirst
      obtain ⟨s, hs, j, hj, hfound, hrow⟩ := exists_found (S := S) simd hb hny hpos
      simp only [hfound, rd_natCast, hrow, map_some, getD_some]
      refine (isCorrectLabel_natCast hj).mpr (h q hq b hb hpos hbefore s hs ?_ j hj ?_)
      · exact (lookup_eq_iff simd hb hny hpos s).mp hfound
      · exact (mayStandAt_iff hj).mpr ⟨S, hrow⟩

end Search

/-! ### A vector found in the second band -/

/-- Vectors of two bands of one byte. -/
def twoBands (bytes : List UInt8) (t : ℕ) : UInt8 := (bytes[t]?).getD 0

def firstByte (bytes : List UInt8) : UInt64 := (bytes.headD 0).toUInt64

/-- The query agrees with the second vector in its second band; in both bands the second vector is
behind the first one. -/
theorem searchIsCorrect_secondBand :
    SearchIsCorrect firstByte ⟨2, 1, 2, 1⟩ (twoBands [9, 6]) (twoBands [1, 5, 2, 6]) 2 .avx512 1
      { bits := fun _ => 1, numBits := 2, numFilteredOutBits := 1 } := by
  refine (searchIsCorrect_iff _ _ _ _ 2 _ (by decide) _ _).mpr
    fun q hq b hb hpos _ s _ hs j hj => ?_
  obtain rfl : q = 0 := by omega
  -- the query's hash does not occur in band 0
  obtain rfl : b = 1 := by
    have hb : b < 2 := hb
    rcases (by omega : b = 0 ∨ b = 1) with rfl | rfl
    · exact absurd hpos (by decide)
    · rfl
  obtain rfl : s = 1 := by
    rw [FoundAt, FindsAt, if_neg (by decide)] at hs
    exact hs.trans (by decide)
  rcases (by omega : j = 0 ∨ j = 1) with rfl | rfl
  · intro hstand
    exact absurd hstand.2 (by decide)
  · exact fun _ => ⟨by decide, 1, by decide, by decide⟩

/-! ### A filtered vector is returned -/

def NoCollision (hash : List UInt8 → UInt64) (p : LshParams) (x y : ℕ → UInt8) (nx ny : ℕ) : Prop :=
  let bands := (range nx).flatMap (fun q => (range p.band).map (p.bandBytes x q)) ++
    (range ny).flatMap fun j => (range p.band).map (p.bandBytes y j)
  ∀ u ∈ bands, ∀ v ∈ bands, hash u = hash v → u = v

def xxh3OfOne (bytes : List UInt8) : UInt64 :=
  if bytes = [1, 0, 0, 0] then 15781232456890734344 else 0

def oneVector (t : ℕ) : UInt8 := if t = 0 then 1 else 0

theorem not_searchIsCorrect_filtered :
    NoCollision xxh3OfOne ⟨4, 4, 1, 1⟩ oneVector oneVector 1 1 ∧
      ∀ simd, ¬ SearchIsCorrect xxh3OfOne ⟨4, 4, 1, 1⟩ oneVector oneVector 1 simd 1
        { bits := fun _ => 1, numBits := 1, numFilteredOutBits := 1 } := by
  refine ⟨by unfold NoCollision; decide, fun simd h => ?_⟩
  have hlabel := (searchIsCorrect_iff_labelOf _ _ _ _ _ _ (by decide) _ _).mp h
    StdSort.insertion 0 (by decide)
  have hzero : labelOf xxh3OfOne ⟨4, 4, 1, 1⟩ StdSort.insertion oneVector oneVector 1 simd 0 =
      ((0 : ℕ) : ℤ) := by cases simd <;> decide
  rw [hzero, isCorrectLabel_natCast (by decide)] at hlabel
  exact absurd hlabel.1 (by decide)

end Rvanns.Knowhere.MinHash
