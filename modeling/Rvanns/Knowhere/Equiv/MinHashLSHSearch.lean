import Rvanns.Knowhere.Equiv.MinHashLSHLoad

/-!
# Searching a loaded index

A search of a band hands the ids of all entries with the query's key to the result handler, in the
order of the sorted entries and across the borders of the blocks; the Bloom filter never hides such
an entry.
-/

namespace Rvanns.Knowhere.MinHash

open Cpp List Simd
open UInt64 (lt_iff_toNat_lt ofNat)

/-! ### The result handler -/

/-- The handler that has kept the ids `ids`. -/
def handlerOf (topk : ℕ) (ids : List ℤ) : ResultHandler where
  idsList := ids ++ replicate (topk - ids.length) (-1)
  disList := replicate ids.length 1 ++ replicate (topk - ids.length) 0
  topk := topk
  counter := ids.length

/-- The kept ids after a further id. -/
def pushId (topk : ℕ) (ids : List ℤ) (id : ℤ) : List ℤ :=
  if ids.length = topk ∨ id ∈ ids then ids else ids ++ [id]

def pushAll (res : ResultHandler) (ids : List ℤ) : ResultHandler :=
  ids.foldl (fun res id => res.push id 1) res

lemma pushAll_append (res : ResultHandler) (ids ids' : List ℤ) :
    pushAll res (ids ++ ids') = pushAll (pushAll res ids) ids' := foldl_append

lemma pushAll_of_full (h : res.full = true) (ids : List ℤ) : pushAll res ids = res := by
  induction ids with
  | nil => rfl
  | cons id ids ih =>
    have hpush : res.push id 1 = res := if_pos h
    show pushAll (res.push id 1) ids = res
    rw [hpush, ih]

/-- Overwriting the first free slot. -/
lemma set_append_replicate {α : Type*} (l : List α) (free : ℕ) (a b : α) :
    (l ++ replicate (free + 1) a).set l.length b = l ++ [b] ++ replicate free a := by
  simp [replicate_succ]

lemma push_handlerOf {topk : ℕ} {ids : List ℤ} {id : ℤ} (hlen : ids.length ≤ topk)
    (hid : id ≠ -1) : (handlerOf topk ids).push id 1 = handlerOf topk (pushId topk ids id) := by
  have hfull : (handlerOf topk ids).full = decide (ids.length = topk) := by
    rw [ResultHandler.full, Bool.eq_iff_iff, beq_iff_eq, decide_eq_true_eq]
    exact eq_comm
  have hfind : (handlerOf topk ids).find id = decide (id ∈ ids) := by
    rw [ResultHandler.find]
    simp [handlerOf, hid]
  have hdist : ¬ (id = -1 ∨ (1 : ℚ) < 1 / 1000000) := by
    rintro (h | h)
    · exact hid h
    · norm_num at h
  unfold ResultHandler.push pushId
  rw [hfull, hfind, if_neg hdist]
  by_cases hlt : ids.length = topk
  · simp [hlt]
  · by_cases hmem : id ∈ ids
    · -- two ids are kept only if there is room for two
      have hpos := length_pos_of_mem hmem
      have htwo : 1 < topk := by omega
      simp [hlt, hmem, htwo, handlerOf]
    · obtain ⟨free, hfree⟩ : ∃ free, topk - ids.length = free + 1 :=
        ⟨topk - ids.length - 1, by omega⟩
      have hfree' : topk - (ids.length + 1) = free := by omega
      have hdis := set_append_replicate (replicate ids.length (1 : ℚ)) free 0 1
      rw [length_replicate, ← replicate_succ'] at hdis
      simp only [hlt, hmem, decide_false, Bool.false_eq_true, and_false, or_self, if_false,
        handlerOf, hfree, set_append_replicate, hdis, length_append, length_singleton, hfree']

lemma length_pushId_le (hlen : ids.length ≤ topk) (id : ℤ) :
    (pushId topk ids id).length ≤ topk := by
  unfold pushId
  split_ifs with h
  · exact hlen
  · rw [length_append, length_singleton]
    omega

lemma pushAll_handlerOf {topk : ℕ} {ids cands : List ℤ} (hlen : ids.length ≤ topk)
    (hcands : ∀ id ∈ cands, id ≠ -1) :
    pushAll (handlerOf topk ids) cands = handlerOf topk (cands.foldl (pushId topk) ids) := by
  induction cands generalizing ids with
  | nil => rfl
  | cons c cands ih =>
    show pushAll ((handlerOf topk ids).push c 1) cands = _
    rw [push_handlerOf hlen (hcands c mem_cons_self)]
    exact ih (length_pushId_le hlen c) fun id hid => hcands id (mem_cons_of_mem c hid)

lemma foldl_pushId_spec (topk : ℕ) (cands : List ℤ) (hnodup : ids.Nodup)
    (hlen : ids.length ≤ topk) :
    let kept := cands.foldl (pushId topk) ids
    kept.Nodup ∧ kept.length ≤ topk ∧ ids ⊆ kept ∧ (∀ id ∈ kept, id ∈ ids ∨ id ∈ cands) ∧
      (kept.length = topk ∨ cands ⊆ kept) := by
  induction cands generalizing ids with
  | nil =>
    exact ⟨hnodup, hlen, List.Subset.refl ids, fun id hid => .inl hid, .inr (nil_subset _)⟩
  | cons c cands ih =>
    have hstep : (pushId topk ids c).Nodup ∧ ids ⊆ pushId topk ids c ∧
        (∀ id ∈ pushId topk ids c, id ∈ ids ∨ id = c) ∧
        (ids.length = topk ∨ c ∈ pushId topk ids c) := by
      unfold pushId
      split_ifs with h
      · exact ⟨hnodup, List.Subset.refl ids, fun id hid => .inl hid, h⟩
      · rw [not_or] at h
        refine ⟨?_, subset_append_left _ _, ?_, ?_⟩
        · exact nodup_append_comm.mp (nodup_cons.mpr ⟨h.2, hnodup⟩)
        · intro id hid
          simpa using hid
        · exact .inr (mem_append_right _ mem_cons_self)
    obtain ⟨hnodup', hsub, hnew, hc⟩ := hstep
    obtain ⟨h1, h2, h3, h4, h5⟩ := ih hnodup' (length_pushId_le hlen c)
    refine ⟨h1, h2, List.Subset.trans hsub h3, ?_, ?_⟩
    · intro id hid
      rcases h4 id hid with hid | hid
      · rcases hnew id hid with hid | rfl
        · exact .inl hid
        · exact .inr mem_cons_self
      · exact .inr (mem_cons_of_mem c hid)
    · rcases hc with hfull | hc
      · -- no room from the start
        left
        have := (List.Nodup.subperm hnodup (List.Subset.trans hsub h3)).length_le
        show (cands.foldl (pushId topk) (pushId topk ids c)).length = topk
        omega
      · rcases h5 with hfull | hall
        · exact .inl hfull
        · exact .inr (cons_subset.mpr ⟨h3 hc, hall⟩)

/-! ### Entries with a key -/

section Sorted

variable {l : List KVPair} {key : UInt64}

lemma takeWhile_eq_filter_of_sorted (hl : l.Pairwise fun a b => ¬ keyLt b a)
    (hge : ∀ e ∈ l, ¬ e.key < key) :
    l.takeWhile (fun e => key == e.key) = l.filter fun e => key == e.key := by
  induction l with
  | nil => rfl
  | cons a l ih =>
    obtain ⟨hfirst, hrest⟩ := pairwise_cons.mp hl
    by_cases ha : key = a.key
    · rw [takeWhile_cons_of_pos (by simpa using ha), filter_cons_of_pos (by simpa using ha),
        ih hrest fun e he => hge e (mem_cons_of_mem a he)]
    · rw [takeWhile_cons_of_neg (by simpa using ha), filter_cons_of_neg (by simpa using ha),
        eq_comm, filter_eq_nil_iff]
      -- a greater key is followed by greater keys only
      intro e he heq
      have hae := hfirst e he
      have hka := hge a mem_cons_self
      rw [beq_iff_eq] at heq
      rw [keyLt, decide_eq_true_eq, ← heq] at hae
      exact ha (eq_of_not_lt hka hae).symm

lemma filter_eq_nil_of_ne (h : ∀ e ∈ l, key ≠ e.key) : (l.filter fun e => key == e.key) = [] :=
  filter_eq_nil_iff.mpr fun e he heq => h e he (beq_iff_eq.mp heq)

/-- The order of sorted entries, by position. -/
lemma not_lt_of_sorted (hl : l.Pairwise fun a b => ¬ keyLt b a) {s s' : ℕ} {a b : KVPair}
    (hss : s ≤ s') (ha : l[s]? = some a) (hb : l[s']? = some b) : ¬ b.key < a.key := by
  obtain ⟨hs, rfl⟩ := List.getElem?_eq_some_iff.mp ha
  obtain ⟨hs', rfl⟩ := List.getElem?_eq_some_iff.mp hb
  rcases Nat.lt_or_eq_of_le hss with hlt | rfl
  · have := pairwise_iff_getElem.mp hl s s' hs hs' hlt
    rwa [keyLt, decide_eq_true_eq] at this
  · rw [lt_iff_toNat_lt]
    omega

end Sorted

/-! ### A block -/

/-- The ids of entries that pass the selector. -/
def selectedIds (sel : Option (ℤ → Bool)) (es : List KVPair) : List ℤ :=
  (es.map KVPair.value).filter (isMember sel)

def hitIds (key : UInt64) (sel : Option (ℤ → Bool)) (es : List KVPair) : List ℤ :=
  selectedIds sel (es.filter fun e => key == e.key)

lemma hitIds_append (key : UInt64) (sel : Option (ℤ → Bool)) (l l' : List KVPair) :
    hitIds key sel (l ++ l') = hitIds key sel l ++ hitIds key sel l' := by
  simp [hitIds, selectedIds]

section Block

variable {band : BandIndex} {key : UInt64} {sel : Option (ℤ → Bool)} {keys values : ℕ}
  {es : List KVPair}

/-- The loop that follows a run of equal keys. -/
lemma pushRun_spec
    (hkey : ∀ j e, es[j]? = some e → readU64 band.data (keys + 8 * j) = some e.key.toNat)
    (hvalue : ∀ j e, es[j]? = some e →
      (readU64 band.data (values + 8 * j)).map ofInt64Bits = some e.value)
    (hbehind : (readU64 band.data (keys + 8 * es.length)).isSome)
    (hle : innerId ≤ es.length) (hfuel : es.length - innerId < fuel) :
    band.pushRun key sel keys values es.length fuel res innerId =
      some (pushAll res (selectedIds sel
        ((es.drop innerId).takeWhile fun e => key == e.key))) := by
  induction fuel generalizing res innerId with
  | zero => omega
  | succ fuel ih =>
    unfold BandIndex.pushRun
    rcases Nat.lt_or_eq_of_le hle with hlt | rfl
    · obtain ⟨e, he⟩ : ∃ e, es[innerId]? = some e := ⟨_, getElem?_eq_getElem hlt⟩
      have hdrop : es.drop innerId = e :: es.drop (innerId + 1) := by
        obtain ⟨_, rfl⟩ := List.getElem?_eq_some_iff.mp he
        exact drop_eq_getElem_cons hlt
      rw [hkey innerId e he, some_bind, hdrop]
      by_cases heq : key = e.key
      · rw [if_pos ⟨congrArg UInt64.toNat heq, hlt⟩, hvalue innerId e he, some_bind,
          takeWhile_cons_of_pos (by simpa using heq)]
        set res' := if isMember sel e.value then res.push e.value 1 else res with hres'
        have hpush : ∀ rest : List KVPair, pushAll res (selectedIds sel (e :: rest)) =
            pushAll res' (selectedIds sel rest) := by
          intro rest
          rw [selectedIds, map_cons, filter_cons, hres']
          split_ifs <;> rfl
        rw [hpush]
        show (if res'.full then some res' else _) = _
        split_ifs with hfull
        · rw [pushAll_of_full hfull]
        · exact ih hlt (by omega)
      · have hne : ¬ (key.toNat = e.key.toNat ∧ innerId < es.length) :=
          fun h => heq (UInt64.toNat_inj.mp h.1)
        rw [if_neg hne, takeWhile_cons_of_neg (by simpa using heq)]
        rfl
    · -- the key behind the last entry is read, but not used
      obtain ⟨k, hk⟩ := Option.isSome_iff_exists.mp hbehind
      rw [hk, some_bind, if_neg (by omega), drop_length]
      rfl

variable {bs rows i : ℕ} {kv : List KVPair}

lemma RepresentsBand.read_key (h : RepresentsBand band bs rows kv)
    (hi : i < blocksNum (bs / 16) rows) (he : (blockEntries kv (bs / 16) rows i)[j]? = some e) :
    readU64 band.data (bs * i + 8 * j) = some e.key.toNat := by
  refine (h.block i hi).left.readU64_getElem (fun a ha => ?_) (by rw [getElem?_map, he]; rfl)
  obtain ⟨e, -, rfl⟩ := mem_map.mp ha
  exact e.key.toNat_lt

lemma RepresentsBand.read_valueBits (h : RepresentsBand band bs rows kv)
    (hi : i < blocksNum (bs / 16) rows) (he : (blockEntries kv (bs / 16) rows i)[j]? = some e) :
    readU64 band.data (bs * i + (blockEntries kv (bs / 16) rows i).length * 8 + 8 * j) =
      some (int64Bits e.value) := by
  have hright := (h.block i hi).right
  rw [keyBytes, length_u64Bytes, length_map, mul_comm 8] at hright
  refine hright.readU64_getElem (fun a ha => ?_) (by rw [getElem?_map, he]; rfl)
  obtain ⟨e, -, rfl⟩ := mem_map.mp ha
  exact BitVec.isLt _

structure SearchableBand (band : BandIndex) (bs rows : ℕ) (kv : List KVPair) : Prop
    extends RepresentsBand band bs rows kv where
  length_eq : kv.length = rows
  sorted : kv.Pairwise fun a b => ¬ keyLt b a
  values : ∀ e ∈ kv, 0 ≤ e.value ∧ e.value < 2 ^ 63
  perBlock_pos : 0 < bs / 16
  perBlock_lt : bs / 16 < 2 ^ 31
  blocks_lt : blocksNum (bs / 16) rows < 2 ^ 31

section

variable (h : SearchableBand band bs rows kv)

include h

lemma SearchableBand.searchBlock (hi : i < blocksNum (bs / 16) rows) (res : ResultHandler) :
    band.searchBlock key sel res i (blockEntries kv (bs / 16) rows i).length =
      some (pushAll res (hitIds key sel (blockEntries kv (bs / 16) rows i))) := by
  set es := blockEntries kv (bs / 16) rows i with hes
  have hsize := h.perBlock_lt
  have hle : es.length ≤ bs / 16 := length_blockEntries_le h.length_eq _ _
  have hne : 0 < es.length := length_blockEntries_pos h.length_eq h.perBlock_pos hi
  have hsub : es.Sublist kv := (take_sublist _ _).trans (drop_sublist _ _)
  have hsort := h.sorted.sublist hsub
  have hkey : ∀ j e, es[j]? = some e →
      readU64 band.data (bs * i + 8 * j) = some e.key.toNat := fun j e he => h.read_key hi he
  set keyOf := fun j => ofNat ((readU64 band.data (bs * i + 8 * j)).getD 0) with hkeyOf
  have hdata : ∀ j e, es[j]? = some e → keyOf j = e.key := by
    intro j e he
    show ofNat ((readU64 band.data (bs * i + 8 * j)).getD 0) = e.key
    rw [hkey j e he, Option.getD_some, UInt64.ofNat_toNat]
  have hcast : castInt es.length = es.length := castInt_of_lt (by omega)
  have hmono : ∀ s s' : ℕ, s ≤ s' → s' < es.length → ¬ keyOf s' < keyOf s := by
    intro s s' hss hs'
    rw [hdata s _ (getElem?_eq_getElem (by omega)), hdata s' _ (getElem?_eq_getElem (by omega))]
    exact not_lt_of_sorted hsort hss (getElem?_eq_getElem (by omega))
      (getElem?_eq_getElem (by omega))
  have hhit := u64BinarySearchEqRef_isFirstHit hcast key hmono
  unfold BandIndex.searchBlock
  rw [h.size_eq]
  dsimp only
  rcases hhit with ⟨hres, hnone⟩ | ⟨s, hres, hs, hat, hbefore⟩
  · -- no entry has the key
    rw [hres]
    rw [hitIds, filter_eq_nil_of_ne]
    · rfl
    · intro e he heq
      obtain ⟨j, hj⟩ := getElem?_of_mem he
      have hjlt := lt_length hj
      exact hnone j (by omega) ((hdata j e hj).trans heq.symm)
  · rw [hres, if_pos (by omega), Int.toNat_natCast]
    have hbehind : (readU64 band.data (bs * i + 8 * es.length)).isSome := by
      obtain ⟨e, he⟩ : ∃ e, es[0]? = some e := ⟨_, getElem?_eq_getElem hne⟩
      have := h.read_valueBits hi he
      rw [Nat.add_zero, Nat.mul_comm _ 8] at this
      rw [this]
      rfl
    rw [pushRun_spec hkey (fun j e he => ?_) hbehind (by omega) (by omega)]
    · -- the entries before the hit are smaller, those after it are not
      have hsplit : (es.filter fun e => key == e.key) =
          (es.drop s).filter fun e => key == e.key := by
        conv_lhs => rw [← take_append_drop s es, filter_append]
        rw [filter_eq_nil_of_ne, nil_append]
        intro e he
        obtain ⟨j, hj⟩ := getElem?_of_mem he
        rw [getElem?_take] at hj
        split_ifs at hj with hjs
        rw [← hdata j e hj]
        exact (UInt64.ne_of_lt (hbefore j hjs)).symm
      rw [hitIds, hsplit, takeWhile_eq_filter_of_sorted (hsort.sublist (drop_sublist s _))]
      intro e he
      obtain ⟨j, hj⟩ := getElem?_of_mem he
      rw [getElem?_drop] at hj
      have hkeyAt := (hdata s _ (getElem?_eq_getElem (by omega))).symm.trans hat
      rw [← hkeyAt]
      exact not_lt_of_sorted hsort (Nat.le_add_right s j) (getElem?_eq_getElem (by omega)) hj
    · obtain ⟨hlow, hhigh⟩ := h.values e (hsub.subset (mem_of_getElem? he))
      rw [h.read_valueBits hi he, Option.map_some, ofInt64Bits_int64Bits (by omega) hhigh]

/-! ### A band -/

lemma SearchableBand.keyAt_mins (hi : i < blocksNum (bs / 16) rows) :
    ∃ e, kv[i * (bs / 16)]? = some e ∧ band.mins[i]? = some e.key := by
  have hlt := mul_lt_of_lt_blocksNum hi
  rw [← h.length_eq] at hlt
  refine ⟨_, getElem?_eq_getElem hlt, ?_⟩
  rw [h.mins, blockMins, getElem?_range_map hi, keyAt, getElem?_eq_getElem hlt]
  rfl

lemma SearchableBand.drop_eq (i : ℕ) : kv.drop (i * (bs / 16)) =
      blockEntries kv (bs / 16) rows i ++ kv.drop ((i + 1) * (bs / 16)) := by
  rw [blockEntries_eq_take h.length_eq, Nat.succ_mul, ← drop_drop, take_append_drop]

lemma SearchableBand.searchBlocks {fuel blockId : ℕ}
    {res : ResultHandler} (hle : blockId ≤ blocksNum (bs / 16) rows)
    (hfuel : blocksNum (bs / 16) rows - blockId < fuel) :
    band.searchBlocks key sel fuel res blockId =
      some (pushAll res (hitIds key sel (kv.drop (blockId * (bs / 16))))) := by
  have hmins : band.mins.length = blocksNum (bs / 16) rows := by
    rw [h.mins, blockMins, length_map, length_range]
  induction fuel generalizing res blockId with
  | zero => omega
  | succ fuel ih =>
    unfold BandIndex.searchBlocks
    rw [hmins]
    rcases Nat.lt_or_eq_of_le hle with hlt | rfl
    · obtain ⟨e, he, hmin⟩ := h.keyAt_mins hlt
      rw [hmin, some_bind]
      split_ifs with hkey
      · have hnum : band.numInABlk[blockId]? =
            some (blockEntries kv (bs / 16) rows blockId).length := by
          rw [h.numInABlk, length_blockEntries h.length_eq, blockNums,
            getElem?_range_map hlt]
        rw [hnum, some_bind, h.searchBlock hlt, some_bind, ih hlt (by omega), ← pushAll_append,
          ← hitIds_append, ← h.drop_eq]
      · -- the block begins with a greater key, and so do all later ones
        rw [hitIds, filter_eq_nil_of_ne]
        · rfl
        · rintro e' he' rfl
          obtain ⟨j, hj⟩ := getElem?_of_mem he'
          rw [getElem?_drop] at hj
          have := not_lt_of_sorted h.sorted (Nat.le_add_right _ j) he hj
          exact hkey (UInt64.not_lt.mp this)
    · rw [if_neg (lt_irrefl _), drop_of_length_le]
      · rfl
      · rw [h.length_eq]
        exact rows_le_blocksNum_mul rows h.perBlock_pos

lemma SearchableBand.keyAt_maxs (hi : i < blocksNum (bs / 16) rows) :
    ∃ e, kv[min ((i + 1) * (bs / 16)) rows - 1]? = some e ∧ band.maxs[i]? = some e.key := by
  have hlt := mul_lt_of_lt_blocksNum hi
  have hidx : min ((i + 1) * (bs / 16)) rows - 1 < kv.length := by
    rw [h.length_eq]
    omega
  refine ⟨_, getElem?_eq_getElem hidx, ?_⟩
  rw [h.maxs, blockMaxs, getElem?_range_map hi, keyAt, getElem?_eq_getElem hidx]
  rfl

end

lemma SearchableBand.hitIds_drop (h : SearchableBand band bs rows kv) {s : ℕ}
    (hs : s ≤ blocksNum (bs / 16) rows) (hbefore : ∀ t < s, (band.maxs[t]?).getD 0 < key) :
    hitIds key sel kv = hitIds key sel (kv.drop (s * (bs / 16))) := by
  have hnil : ((kv.take (s * (bs / 16))).filter fun e => key == e.key) = [] := by
    cases s with
    | zero => simp
    | succ s =>
      obtain ⟨e, he, hmax⟩ := h.keyAt_maxs hs
      have hlast := hbefore s s.lt_succ_self
      rw [hmax] at hlast
      rw [take_eq_take_min, h.length_eq]
      refine filter_eq_nil_of_ne fun e' he' heq => ?_
      obtain ⟨j, hj⟩ := getElem?_of_mem he'
      rw [getElem?_take] at hj
      split_ifs at hj with hjn
      exact not_lt_of_sorted h.sorted (by omega) hj he (heq ▸ hlast)
  conv_lhs => rw [← take_append_drop (s * (bs / 16)) kv, hitIds_append]
  rw [hitIds, hnil]
  rfl

lemma SearchableBand.search (h : SearchableBand band bs rows kv) (res : ResultHandler) :
    band.search key sel res = some (pushAll res (hitIds key sel kv)) := by
  have hmaxs : band.maxs.length = blocksNum (bs / 16) rows := by
    rw [h.maxs, blockMaxs, length_map, length_range]
  have hmins : band.mins.length = blocksNum (bs / 16) rows := by
    rw [h.mins, blockMins, length_map, length_range]
  have hmono : ∀ s s' : ℕ, s ≤ s' → s' < blocksNum (bs / 16) rows →
      ¬ (band.maxs[s']?).getD 0 < (band.maxs[s]?).getD 0 := by
    intro s s' hss hs'
    obtain ⟨a, ha, hmax⟩ := h.keyAt_maxs (i := s) (by omega)
    obtain ⟨b, hb, hmax'⟩ := h.keyAt_maxs hs'
    rw [hmax, hmax', Option.getD_some]
    refine not_lt_of_sorted h.sorted ?_ ha hb
    have hle : (s + 1) * (bs / 16) ≤ (s' + 1) * (bs / 16) :=
      Nat.mul_le_mul_right _ (Nat.succ_le_succ hss)
    omega
  have hfirst := u64BinarySearchGeRef_isFirstGe (castInt_of_lt h.blocks_lt) key hmono
  unfold BandIndex.search
  rw [hmaxs]
  rcases hfirst with ⟨hres, hall⟩ | ⟨s, hres, hs, hge, hbefore⟩
  · -- every block ends with a smaller key
    rw [hres, h.hitIds_drop le_rfl fun t ht => hall t (by omega),
      drop_of_length_le (h.length_eq.trans_le (rows_le_blocksNum_mul rows h.perBlock_pos))]
    rfl
  · have hs' : s < blocksNum (bs / 16) rows := by omega
    rw [hres, if_neg (by omega), rd_natCast]
    obtain ⟨e, he, hmin⟩ := h.keyAt_mins hs'
    -- the entries before the block are smaller
    rw [hmin, some_bind, h.hitIds_drop hs'.le hbefore]
    have hblocks : band.searchBlocks key sel (band.mins.length + 1) res s =
        some (pushAll res (hitIds key sel (kv.drop (s * (bs / 16))))) :=
      h.searchBlocks hs'.le (by omega)
    split_ifs with hlt
    · -- the first block is not entered; its loop would not be either
      rw [← hblocks]
      unfold BandIndex.searchBlocks
      rw [if_pos (by omega), hmin, some_bind, if_neg (UInt64.not_le.mpr hlt)]
    · exact hblocks

end Block

end Rvanns.Knowhere.MinHash
