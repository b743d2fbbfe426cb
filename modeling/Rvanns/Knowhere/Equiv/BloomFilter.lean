import Rvanns.Knowhere.BloomFilter

/-!
# What a Bloom filter contains

It contains what has been added, until it is saved and loaded.
-/

namespace Rvanns.Knowhere.BloomFilter

open Cpp List

variable {A : BloomArith} {bf : BloomFilter} {element : UInt64}

lemma getElem?_setBits (ps : List ℕ) {bits : List Bool} (hpos : pos < bits.length) :
    (setBits ps bits)[pos]? = if pos ∈ ps then some true else bits[pos]? := by
  induction ps generalizing bits with
  | nil => simp [setBits]
  | cons p ps ih =>
    have hcons : setBits (p :: ps) bits = setBits ps (bits.set p true) := rfl
    rw [hcons, ih (by rwa [length_set])]
    by_cases hmem : pos ∈ ps
    · rw [if_pos hmem, if_pos (mem_cons_of_mem p hmem)]
    · rw [if_neg hmem]
      by_cases hp : pos = p
      · subst hp
        rw [getElem?_set_self hpos, if_pos mem_cons_self]
      · rw [getElem?_set_ne (.symm hp), if_neg (by simp [hp, hmem])]

lemma lt_of_mem_positions (hpos : pos ∈ bf.positions A element) : pos < bf.bits.length := by
  obtain ⟨i, -, rfl⟩ := mem_map.mp hpos
  rw [bf.length_bits]
  exact Nat.mod_lt _ bf.m_pos

lemma contains_add_iff (a : UInt64) : (bf.add A a).contains A element = true ↔
      ∀ pos ∈ bf.positions A element,
        pos ∈ bf.positions A a ∨ bf.bits[pos]? = some true := by
  have hpositions : (bf.add A a).positions A element = bf.positions A element := rfl
  rw [contains, all_eq_true, hpositions]
  refine forall₂_congr fun pos hpos => ?_
  have hlt := lt_of_mem_positions hpos
  rw [BloomFilter.add, getElem?_setBits _ hlt]
  by_cases hmem : pos ∈ bf.positions A a
  · simp [hmem]
  · rw [getElem?_eq_getElem hlt]
    simp [hmem]

lemma contains_add_self (a : UInt64) : (bf.add A a).contains A a = true :=
  (contains_add_iff a).mpr fun _ hpos => .inl hpos

lemma contains_add (a : UInt64) (hc : bf.contains A element = true) :
    (bf.add A a).contains A element = true := by
  refine (contains_add_iff a).mpr fun pos hpos => .inr ?_
  have hlt := lt_of_mem_positions hpos
  have hbit := all_eq_true.mp hc pos hpos
  rw [getElem?_eq_getElem hlt] at hbit ⊢
  simpa using hbit

/-- **No false negatives.**  After a run of calls of `add`, the filter has every key of the run and
every key it had before. -/
theorem contains_addAll (ha : a ∈ elements ∨ bf.contains A a = true) :
    (bf.addAll A elements).contains A a = true := by
  induction elements generalizing bf with
  | nil =>
    rcases ha with ha | ha
    · cases ha
    · exact ha
  | cons e elements ih =>
    apply ih
    rcases ha with ha | ha
    · rcases mem_cons.mp ha with rfl | ha
      · exact .inr (contains_add_self a)
      · exact .inl ha
    · exact .inr (contains_add e ha)

lemma length_packBits (bits : List Bool) : (packBits bits).length = (bits.length + 7) / 8 := by
  have hloop : ∀ (l : List (Bool × ℕ)) (buffer : List UInt8), (l.foldl (fun buffer b => if b.1 then
        buffer.modify (b.2 / 8) (· ||| 1 <<< UInt8.ofNat (b.2 % 8)) else buffer) buffer).length =
        buffer.length := by
    intro l
    induction l with
    | nil => exact fun _ => rfl
    | cons b l ih =>
      intro buffer
      rw [foldl_cons, ih]
      split_ifs
      · exact length_modify _ _ _
      · rfl
  exact (hloop _ _).trans length_replicate

lemma load_of_save (ofPattern : ℕ → ℚ) (hsave : bf.save pattern = some bytes) :
    ∃ read p, load ofPattern bytes = .ok
      { bits := replicate bf.m false ++ read, n := bf.n, p := p, m := bf.m
        k := bf.k } := by
  obtain ⟨numbers, hnumbers, ⟨⟩⟩ := Option.bind_eq_some_iff.mp hsave
  unfold load
  rw [header.read_write hnumbers]
  have hlength : ¬ (packBits bf.bits).length < (bf.m + 7) / 8 := by
    rw [length_packBits, bf.length_bits]
    exact lt_irrefl _
  exact ⟨_, _, if_neg hlength⟩

lemma contains_loaded {s : Loaded} {read : List Bool} (hm : 0 < s.m) (hk : 0 < s.k)
    (hbits : s.bits = replicate s.m false ++ read) (element : UInt64) :
    s.contains A element = false := by
  unfold Loaded.contains
  rw [all_eq_false]
  refine ⟨0, mem_range.mpr (by omega), ?_⟩
  have hpos := Nat.mod_lt (((leBytes 8 element.toNat).foldl
    (fun result b => result * 31 + A.castChar b) 0).toNat % s.m + 0) hm
  rw [hbits, getElem?_append_left (by rwa [length_replicate]), getElem?_replicate, if_pos hpos]
  exact Bool.false_ne_true

lemma new_spec (hnew : new A expectedElements prob = some bf) :
    bf.bits = replicate bf.m false ∧ 0 < bf.k := by
  obtain ⟨⟨m, k⟩, -, h⟩ := Option.bind_eq_some_iff.mp hnew
  split_ifs at h
  cases h
  exact ⟨rfl, Int.lt_of_lt_of_le Int.one_pos (Int.le_max_right k 1)⟩

lemma k_addAll (bf : BloomFilter) (elements : List UInt64) :
    (bf.addAll A elements).k = bf.k := by
  induction elements generalizing bf with
  | nil => rfl
  | cons e elements ih => exact ih (bf.add A e)

/-- **A file keeps the answers** of a filter exactly if nothing has been added to it: the filter
that is loaded contains no element. -/
theorem load_save_iff (A : BloomArith) {pattern : ℚ → ℕ} (ofPattern : ℕ → ℚ)
    {expectedElements : ℕ} {prob : ℚ} {bf : BloomFilter}
    (hnew : new A expectedElements prob = some bf) (elements : List UInt64)
    {bytes : List UInt8} (hsave : (bf.addAll A elements).save pattern = some bytes) :
    (∃ loaded, load ofPattern bytes = .ok loaded ∧
      ∀ element, loaded.contains A element = (bf.addAll A elements).contains A element) ↔
      elements = [] := by
  obtain ⟨hbits, hk⟩ := new_spec hnew
  obtain ⟨read, p, hload⟩ := load_of_save ofPattern hsave
  have hnone : ∀ element, Loaded.contains A
      { bits := replicate (bf.addAll A elements).m false ++ read
        n := (bf.addAll A elements).n, p := p, m := (bf.addAll A elements).m
        k := (bf.addAll A elements).k } element = false :=
    contains_loaded (bf.addAll A elements).m_pos (hk.trans_eq (k_addAll bf elements).symm) rfl
  constructor
  · rintro ⟨loaded, hloaded, hsame⟩
    obtain rfl := Except.ok.inj (hload.symm.trans hloaded)
    cases elements with
    | nil => rfl
    | cons a elements =>
      have hadded : (bf.addAll A (a :: elements)).contains A a = true :=
        contains_addAll (.inl mem_cons_self)
      rw [← hsame a, hnone] at hadded
      cases hadded
  · rintro rfl
    refine ⟨_, hload, fun element => ?_⟩
    have hfresh := contains_loaded (A := A) (s := ⟨bf.bits, bf.n, bf.p, bf.m, bf.k⟩)
      bf.m_pos hk (hbits.trans (append_nil _).symm) element
    rw [hnone]
    show false = (map _ _).all _
    rw [all_map]
    exact hfresh.symm

/-- The sizes for a few elements and the probability 1 / 100. -/
def hundredth : BloomArith where
  rawSizes := fun n _ => some (n * 959 / 100, 6)
  castChar := UInt8.toUInt64

theorem load_save_twoElements : ∃ bf bytes loaded, new hundredth 3 (1 / 100) = some bf ∧
      (bf.addAll hundredth [7, 11]).save (fun _ => 0x3F847AE147AE147B) = some bytes ∧
      load (fun _ => 1 / 100) bytes = .ok loaded ∧
      (bf.addAll hundredth [7, 11]).contains hundredth 7 = true ∧
      loaded.contains hundredth 7 = false := by
  obtain ⟨bf, bytes, hnew, hsave⟩ : ∃ bf bytes, new hundredth 3 (1 / 100) = some bf ∧
      (bf.addAll hundredth [7, 11]).save (fun _ => 0x3F847AE147AE147B) = some bytes :=
    ⟨_, _, rfl, rfl⟩
  obtain ⟨read, p, hload⟩ := load_of_save (fun _ => 1 / 100) hsave
  refine ⟨bf, bytes, _, hnew, hsave, hload, contains_addAll (.inl mem_cons_self),
    contains_loaded (bf.addAll hundredth [7, 11]).m_pos ?_ rfl 7⟩
  exact (new_spec hnew).2

/-- The same filter without elements. -/
theorem load_save_noElement : ∃ bf bytes loaded, new hundredth 3 (1 / 100) = some bf ∧
      bf.save (fun _ => 0x3F847AE147AE147B) = some bytes ∧
      load (fun _ => 1 / 100) bytes = .ok loaded ∧
      ∀ element, loaded.contains hundredth element = bf.contains hundredth element := by
  obtain ⟨bf, bytes, hnew, hsave⟩ : ∃ bf bytes, new hundredth 3 (1 / 100) = some bf ∧
      bf.save (fun _ => 0x3F847AE147AE147B) = some bytes := ⟨_, _, rfl, rfl⟩
  obtain ⟨loaded, hloaded⟩ := (load_save_iff hundredth (fun _ => 1 / 100) hnew [] hsave).mpr rfl
  exact ⟨bf, bytes, loaded, hnew, hsave, hloaded⟩

end Rvanns.Knowhere.BloomFilter
