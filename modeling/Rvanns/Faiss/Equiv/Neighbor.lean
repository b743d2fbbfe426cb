import Rvanns.Cpp.Vector
import Rvanns.Faiss.Neighbor

/-!
# What the candidate lists keep

An insertion neither loses nor duplicates a neighbour.
-/

namespace Rvanns.Faiss

open Cpp List Option NeighborSetPopList

variable {D : Type} [LinearOrder D]

namespace NeighborSetPopList

variable {s : NeighborSetPopList D} {nbr : Neighbor D} {keep : Bool}

structure Sorted (s : NeighborSetPopList D) : Prop where
  length_le : s.data.length ≤ s.capacity
  pairwise : s.data.Pairwise fun x y => x.distance ≤ y.distance

/-! ### Insertion -/

def position (s : NeighborSetPopList D) (nbr : Neighbor D) : ℕ :=
  upperBound (·.distance) s.data nbr.distance

lemma position_le (s : NeighborSetPopList D) (nbr : Neighbor D) : s.position nbr ≤ s.data.length :=
  upperBound_le_length _ _ _

lemma insert_of_le_position (h : s.capacity ≤ s.position nbr) :
    s.insert keep nbr = (s, some nbr) := by
  exact if_pos h

lemma insert_of_position_lt (h : s.position nbr < s.capacity) : s.insert keep nbr =
      (if keep && decide (s.position nbr < s.cur) then
          { s.insertHelper nbr (s.position nbr) with cur := s.position nbr }
        else s.insertHelper nbr (s.position nbr),
        if s.data.length = s.capacity then s.data.getLast? else none) := by
  exact if_neg (not_le.mpr h)

@[simp]
lemma insert_capacity : (s.insert keep nbr).1.capacity = s.capacity := by
  unfold insert
  dsimp only
  split_ifs <;> rfl

section

variable (hs : s.Sorted)

include hs

lemma data_insert (keep : Bool) (nbr : Neighbor D) :
    (s.insert keep nbr).1.data = (s.data.insertIdx (s.position nbr) nbr).take s.capacity := by
  have hlen := length_insertIdx_of_le_length (s.position_le nbr) nbr
  have hle := hs.length_le
  rcases lt_or_ge (s.position nbr) s.capacity with hlt | hge
  · have hdata : (s.insert keep nbr).1.data = (s.insertHelper nbr (s.position nbr)).data := by
      rw [insert_of_position_lt hlt]
      split_ifs <;> rfl
    rw [hdata, insertHelper]
    split_ifs
    · rw [take_of_length_le hlen.le, take_of_length_le (by omega)]
    · rw [show s.data.length = s.capacity by omega]
  · rw [insert_of_le_position hge, take_insertIdx_eq_take_of_le _ _ _ _ hge, take_of_length_le hle]

lemma data_insert_append (keep : Bool) (h : s.position nbr < s.capacity) :
    (s.insert keep nbr).1.data ++ (s.insert keep nbr).2.toList
      = s.data.insertIdx (s.position nbr) nbr := by
  have hpos := s.position_le nbr
  have hlen := length_insertIdx_of_le_length hpos nbr
  rw [data_insert hs, insert_of_position_lt h]
  rcases Nat.lt_or_eq_of_le hs.length_le with hroom | hfull
  · rw [if_neg hroom.ne, toList_none, append_nil, take_of_length_le (by omega)]
  · -- the last entry is behind the new one, and falls out
    rw [if_pos hfull, ← hfull]
    have hne : s.data ≠ [] := length_pos_iff.mp (hfull ▸ s.capacity.2)
    have hlast : (s.data.insertIdx (s.position nbr) nbr)[s.data.length]?
        = some (s.data.getLast hne) := by
      rw [getElem?_insertIdx_of_gt (by omega), getLast_eq_getElem, getElem?_eq_getElem]
    have htake := take_add_one (l := s.data.insertIdx (s.position nbr) nbr) (i := s.data.length)
    rw [hlast, ← hlen, take_length] at htake
    rw [getLast?_eq_some_getLast hne]
    exact htake.symm

/-- **Nothing is lost**: what was in the list and the new neighbour are in it afterwards, or have
fallen out. -/
theorem perm_insert (keep : Bool) (nbr : Neighbor D) :
    ((s.insert keep nbr).1.data ++ (s.insert keep nbr).2.toList).Perm (nbr :: s.data) := by
  rcases lt_or_ge (s.position nbr) s.capacity with hlt | hge
  · rw [data_insert_append hs keep hlt]
    exact perm_insertIdx nbr s.data (s.position_le nbr)
  · rw [insert_of_le_position hge]
    exact perm_append_singleton nbr s.data

lemma insert_snd_eq_none_iff (keep : Bool) (nbr : Neighbor D) :
    (s.insert keep nbr).2 = none ↔ s.data.length < s.capacity := by
  have hpos := s.position_le nbr
  have hlen := hs.length_le
  rcases lt_or_ge (s.position nbr) s.capacity with hlt | hge
  · rw [insert_of_position_lt hlt]
    dsimp only
    split_ifs with hfull
    · have hne : s.data ≠ [] := by
        rintro hnil
        rw [hnil, length_nil] at hfull
        omega
      simp [hne, hfull]
    · simp only [true_iff]
      omega
  · rw [insert_of_le_position hge]
    simp only [reduceCtorEq, false_iff]
    omega

lemma length_insert (keep : Bool) (nbr : Neighbor D) : (s.insert keep nbr).1.data.length
      = if s.data.length < s.capacity then s.data.length + 1 else s.data.length := by
  have hperm := (perm_insert hs keep nbr).length_eq
  have hnone := insert_snd_eq_none_iff hs keep nbr
  rw [length_append, length_cons] at hperm
  cases hout : (s.insert keep nbr).2 with
  | none =>
    rw [hout, toList_none] at hperm
    rw [if_pos (hnone.mp hout)]
    omega
  | some x =>
    rw [hout, toList_some, length_singleton] at hperm
    rw [if_neg (fun hlt => by simp [hnone.mpr hlt] at hout)]
    omega

lemma Sorted.insert (keep : Bool) (nbr : Neighbor D) : (s.insert keep nbr).1.Sorted := by
  constructor
  · have hlen := hs.length_le
    rw [length_insert hs, insert_capacity]
    split_ifs <;> omega
  · rcases lt_or_ge (s.position nbr) s.capacity with hlt | hge
    · have hsorted := pairwise_insertIdx_upperBound (·.distance) hs.pairwise nbr
      have happend := data_insert_append hs keep hlt
      exact List.Pairwise.sublist (happend ▸ sublist_append_left _ _) hsorted
    · rw [insert_of_le_position hge]
      exact hs.pairwise

lemma Sorted.of_distances {s' : NeighborSetPopList D} (hcap : s'.capacity = s.capacity)
    (hsub : (s'.data.map (·.distance)).Sublist (s.data.map (·.distance))) : s'.Sorted := by
  constructor
  · have hlen := hsub.length_le
    rw [length_map, length_map] at hlen
    rw [hcap]
    exact hlen.trans hs.length_le
  · exact pairwise_map.mp (List.Pairwise.sublist hsub (pairwise_map.mpr hs.pairwise))

end

/-! ### The cursor -/

structure HasCursor (s : NeighborSetPopList D) : Prop where
  cur_le : s.cur ≤ s.data.length
  checked_before : ∀ i < s.cur, ∀ x, s.data[i]? = some x → x.status = .checked
  unchecked_at : ∀ x, s.data[s.cur]? = some x → x.status ≠ .checked

lemma cur_insert (h : s.position nbr < s.capacity) :
    (s.insert true nbr).1.cur = min (s.position nbr) s.cur := by
  rw [insert_of_position_lt h]
  simp only [Bool.true_and, decide_eq_true_eq]
  split_ifs with hlt
  · exact (min_eq_left hlt.le).symm
  · exact (min_eq_right (not_lt.mp hlt)).symm

lemma getElem?_insert (hs : s.Sorted) (h : s.position nbr < s.capacity) {i : ℕ} {x : Neighbor D}
    (hx : (s.insert keep nbr).1.data[i]? = some x) :
    (s.data.insertIdx (s.position nbr) nbr)[i]? = some x := by
  have hi := lt_length hx
  rw [← data_insert_append hs keep h, getElem?_append_left hi]
  exact hx

lemma HasCursor.insert (hc : s.HasCursor) (hs : s.Sorted) (hnbr : nbr.status ≠ .checked) :
    (s.insert true nbr).1.HasCursor := by
  rcases lt_or_ge (s.position nbr) s.capacity with hlt | hge
  · have hpos := s.position_le nbr
    constructor
    · rw [cur_insert hlt, length_insert hs]
      split_ifs <;> omega
    · intro i hi x hx
      rw [cur_insert hlt, lt_inf_iff] at hi
      have hget := getElem?_insert hs hlt hx
      rw [getElem?_insertIdx_of_lt hi.1] at hget
      exact hc.checked_before i hi.2 x hget
    · intro x hx
      have hget := getElem?_insert hs hlt hx
      rw [cur_insert hlt] at hget
      -- the cursor goes back to the new neighbour, or stays where it was
      rcases lt_or_ge s.cur (s.position nbr) with hcur | hcur
      · rw [min_eq_right hcur.le, getElem?_insertIdx_of_lt hcur] at hget
        exact hc.unchecked_at x hget
      · rw [min_eq_left hcur, getElem?_insertIdx_self, if_pos hpos] at hget
        cases hget
        exact hnbr
  · rw [insert_of_le_position hge]
    exact hc

def check (s : NeighborSetPopList D) (ret : Neighbor D) : NeighborSetPopList D :=
  let data := s.data.set s.cur { ret with status := .checked }
  { s with data := data, cur := skipChecked data (s.cur + 1) }

variable {ret : Neighbor D}

omit [LinearOrder D] in
lemma pop_true_eq (h : s.data[s.cur]? = some ret) : s.pop true = some (ret, s.check ret) := by
  simp [pop, check, h]

omit [LinearOrder D] in
lemma HasCursor.check (hc : s.HasCursor) (h : s.data[s.cur]? = some ret) :
    (s.check ret).HasCursor := by
  have hlt := lt_length h
  constructor
  · apply skipWhile_le
    rw [length_set]
    exact hlt
  · intro i hi x hx
    rcases Nat.lt_trichotomy i s.cur with hbefore | rfl | hafter
    · rw [NeighborSetPopList.check, getElem?_set_ne hbefore.ne'] at hx
      exact hc.checked_before i hbefore x hx
    · rw [NeighborSetPopList.check, getElem?_set_self hlt] at hx
      cases hx
      rfl
    · have hskip := of_lt_skipWhile (α := Neighbor D) (p := (·.status = .checked)) hafter hi hx
      exact of_decide_eq_true hskip
  · intro x hx
    have hstop := not_of_skipWhile (α := Neighbor D) (p := (·.status = .checked)) hx
    exact of_decide_eq_false hstop

def unchecked (s : NeighborSetPopList D) : ℕ := s.data.countP (·.status ≠ .checked)

omit [LinearOrder D] in
lemma HasCursor.unchecked_check (hc : s.HasCursor)
    (h : s.data[s.cur]? = some ret) : (s.check ret).unchecked + 1 = s.unchecked := by
  have hret := hc.unchecked_at ret h
  obtain ⟨hlt, hget⟩ := List.getElem?_eq_some_iff.mp h
  have hpos : 0 < s.data.countP (·.status ≠ .checked) :=
    countP_pos_iff.mpr ⟨ret, mem_of_getElem? h, by simpa using hret⟩
  unfold unchecked NeighborSetPopList.check
  rw [countP_set hlt, hget]
  simp only [ne_eq, hret, not_false_eq_true, decide_true, if_true, not_true_eq_false, decide_false,
    Bool.false_eq_true, if_false, Nat.add_zero]
  simp only [ne_eq] at hpos
  omega

omit [LinearOrder D] in
lemma HasCursor.checked_of_not_hasNext (hc : s.HasCursor) (h : s.hasNext true = false) :
    ∀ x ∈ s.data, x.status = .checked := by
  intro x hx
  obtain ⟨i, hi⟩ := mem_iff_getElem?.mp hx
  have hlt := lt_length hi
  apply hc.checked_before i _ x hi
  simp only [hasNext, if_true, decide_eq_false_iff_not, not_lt] at h
  omega

omit [LinearOrder D] in
lemma map_check {β : Type*} {f : Neighbor D → β}
    (hf : f { ret with status := .checked } = f ret) (h : s.data[s.cur]? = some ret) :
    (s.check ret).data.map f = s.data.map f := by
  obtain ⟨hlt, hget⟩ := List.getElem?_eq_some_iff.mp h
  have hlt' : s.cur < (s.data.map f).length := by
    rw [length_map]
    exact hlt
  have hsame : f { ret with status := .checked } = (s.data.map f).get ⟨s.cur, hlt'⟩ := by
    rw [hf, ← hget, get_eq_getElem, getElem_map]
  rw [check, map_set, hsame]
  exact set_getElem_self hlt'

/-! ### Histories -/

inductive Op (D : Type) where
  | insert (nbr : Neighbor D)
  | pop

def key (n : Neighbor D) : ℕ × D := (n.id, n.distance)

def Op.keys : Op D → List (ℕ × D)
  | .insert nbr => [key nbr]
  | .pop => []

/-- A list, `none` if its capacity is 0, and the heap of what it does not keep. -/
abbrev WithHeap (D : Type) := Option (NeighborSetPopList D) × List (Neighbor D)

def step : Op D → WithHeap D → Option (WithHeap D)
  | .insert nbr, (some s, heap) =>
    some (some (s.insert true nbr).1, (s.insert true nbr).2.toList ++ heap)
  | .insert nbr, (none, heap) => some (none, nbr :: heap)
  | .pop, (some s, heap) => (s.pop true).map fun p => (some p.2, heap)
  | .pop, (none, _) => none

/-- A history, the newest operation first; `none` if something was popped that was not there. -/
def run (cap : ℕ) : List (Op D) → Option (WithHeap D)
  | [] => some (if h : 0 < cap then some { capacity := ⟨cap, h⟩ } else none, [])
  | op :: ops => run cap ops >>= step op

/-- The stable sort by distance: what was inserted earlier comes first. -/
def closest (keys : List (ℕ × D)) : List (ℕ × D) := keys.insertionSort fun a b => a.2 < b.2

structure Best (cap : ℕ) (keys : List (ℕ × D)) (r : WithHeap D) : Prop where
  capacity_eq : cap = r.1.elim 0 fun s => (s.capacity : ℕ)
  sorted : ∀ s ∈ r.1, s.Sorted
  cursor : ∀ s ∈ r.1, s.HasCursor
  stored : (r.1.elim [] (·.data)).map key = (closest keys).take cap
  handedOn : ((r.1.elim [] (·.data) ++ r.2).map key).Perm keys

lemma map_key_insertIdx (data : List (Neighbor D)) (nbr : Neighbor D) :
    (data.insertIdx (upperBound (·.distance) data nbr.distance) nbr).map key
      = (data.map key).orderedInsert (fun a b => a.2 < b.2) (key nbr) := by
  induction data with
  | nil => rfl
  | cons x data ih =>
    rw [upperBound_cons, map_cons, orderedInsert_cons]
    show _ = if nbr.distance < x.distance then _ else _
    by_cases hle : x.distance ≤ nbr.distance
    · rw [if_pos hle, if_neg (not_lt.mpr hle), insertIdx_succ_cons, map_cons, ih]
    · rw [if_neg hle, if_pos (not_le.mp hle)]
      rfl

lemma take_orderedInsert {α : Type*} (r : α → α → Prop) [DecidableRel r] (a : α) (l : List α)
    (k : ℕ) : ((l.take k).orderedInsert r a).take k = (l.orderedInsert r a).take k := by
  induction l generalizing k with
  | nil => rw [take_nil]
  | cons b l ih =>
    cases k with
    | zero => rfl
    | succ k =>
      rw [take_succ_cons, orderedInsert_cons, orderedInsert_cons]
      split_ifs
      · cases k <;> simp [take_take]
      · rw [take_succ_cons, take_succ_cons, ih]

lemma Best.step {keys : List (ℕ × D)} {r r' : WithHeap D} (h : Best cap keys r)
    (hnew : ∀ nbr, op = .insert nbr → nbr.status ≠ .checked) (hstep : step op r = some r') :
    Best cap (op.keys ++ keys) r' := by
  obtain ⟨hcap, hs, hc, hstored, hperm⟩ := h
  obtain ⟨_ | s, heap⟩ := r
  · -- without a list everything goes to the heap
    cases op with
    | insert nbr =>
      cases hcap
      cases hstep
      exact ⟨rfl, nofun, nofun, rfl, hperm.cons (key nbr)⟩
    | pop => cases hstep
  · have hs := hs s rfl
    have hc := hc s rfl
    cases op with
    | insert nbr =>
      cases hstep
      refine ⟨hcap.trans (congrArg PNat.val insert_capacity.symm), ?_, ?_, ?_, ?_⟩
      · rintro _ ⟨⟩
        exact hs.insert true nbr
      · rintro _ ⟨⟩
        exact hc.insert hs (hnew nbr rfl)
      · calc (s.insert true nbr).1.data.map key
          _ = ((s.data.map key).orderedInsert (fun a b => a.2 < b.2) (key nbr)).take cap := by
            rw [data_insert hs, map_take, position, map_key_insertIdx, hcap]
            rfl
          _ = (closest (key nbr :: keys)).take cap := by
            rw [show s.data.map key = (closest keys).take cap from hstored, take_orderedInsert]
            rfl
      · have hkept := (perm_insert hs true nbr).append_right heap
        rw [append_assoc] at hkept
        exact (hkept.map key).trans (hperm.cons (key nbr))
    | pop =>
      cases hcur : s.data[s.cur]? with
      | none => simp [NeighborSetPopList.step, pop, hcur] at hstep
      | some ret =>
        rw [NeighborSetPopList.step, pop_true_eq hcur] at hstep
        cases hstep
        have hkeys := map_check (f := key) rfl hcur
        have hdists := map_check (f := (·.distance)) rfl hcur
        refine ⟨hcap, ?_, ?_, hkeys.trans hstored, ?_⟩
        · rintro _ ⟨⟩
          exact hs.of_distances rfl (hdists ▸ List.Sublist.refl _)
        · rintro _ ⟨⟩
          exact hc.check hcur
        · rw [map_append] at hperm ⊢
          exact hkeys ▸ hperm

/-- **Over every history the list holds the closest of what was inserted**, in the order of a stable
sort, and what it does not hold is on the heap. -/
theorem run_best {cap : ℕ} {ops : List (Op D)} {r : WithHeap D}
    (hnew : ∀ nbr, .insert nbr ∈ ops → nbr.status ≠ .checked) (hrun : run cap ops = some r) :
    Best cap (ops.flatMap Op.keys) r := by
  induction ops generalizing r with
  | nil =>
    cases hrun
    split_ifs with hpos
    · refine ⟨rfl, ?_, ?_, take_nil.symm, .refl _⟩
      · rintro _ ⟨⟩
        exact ⟨Nat.zero_le _, .nil⟩
      · rintro _ ⟨⟩
        exact ⟨le_rfl, nofun, nofun⟩
    · exact ⟨by simpa using hpos, nofun, nofun, take_nil.symm, .refl _⟩
  | cons op ops ih =>
    obtain ⟨r₀, hr₀, hstep⟩ := bind_eq_some_iff.mp hrun
    refine (ih (fun nbr hmem => hnew nbr (mem_cons_of_mem op hmem)) hr₀).step ?_ hstep
    rintro nbr rfl
    exact hnew nbr mem_cons_self

theorem run_best_evicts :
    Best 1 ([.insert ⟨1, 2, .valid⟩, .pop, .insert ⟨0, 3, .valid⟩].flatMap Op.keys)
      (some { capacity := ⟨1, one_pos⟩, data := [⟨1, 2, .valid⟩] }, [⟨0, 3, .checked⟩]) :=
  run_best (by simp) rfl

/-- A neighbour that comes with the mark of a checked one can end up under the cursor. -/
theorem run_checked : ∃ s heap,
    run 1 [.insert ⟨0, 0, .checked⟩] = some (some s, heap) ∧ ¬ s.HasCursor :=
  ⟨_, _, rfl, fun h => h.unchecked_at _ rfl rfl⟩

end NeighborSetPopList

/-! ### Both lists -/

namespace NeighborSetDoublePopList

variable {s s' : NeighborSetDoublePopList D} {nbr : Neighbor D} {maxDist : D}

def entries (s : NeighborSetDoublePopList D) : List (Neighbor D) :=
  s.validNs.data ++ s.invalidNs.data

structure Ordered (s : NeighborSetDoublePopList D) : Prop where
  valid : s.validNs.Sorted
  cursor : s.validNs.HasCursor
  invalid : s.invalidNs.Sorted

lemma insert_cases (maxDist : D) (s : NeighborSetDoublePopList D) (nbr : Neighbor D) :
    (nbr.status = .valid ∧ s.insert maxDist nbr =
      ({ s with validNs := (s.validNs.insert true nbr).1 }, (s.validNs.insert true nbr).2)) ∨
    (nbr.status ≠ .valid ∧ nbr.distance < s.validNs.atSearchBackDist maxDist ∧
      s.insert maxDist nbr = ({ s with invalidNs := (s.invalidNs.insert false nbr).1 },
          (s.invalidNs.insert false nbr).2)) ∨
    (nbr.status ≠ .valid ∧ s.validNs.atSearchBackDist maxDist ≤ nbr.distance ∧
      s.insert maxDist nbr = (s, some nbr)) := by
  unfold insert
  by_cases hvalid : nbr.status = .valid
  · exact .inl ⟨hvalid, if_pos hvalid⟩
  · rw [if_neg hvalid]
    by_cases hback : nbr.distance < s.validNs.atSearchBackDist maxDist
    · exact .inr (.inl ⟨hvalid, hback, if_pos hback⟩)
    · exact .inr (.inr ⟨hvalid, not_lt.mp hback, if_neg hback⟩)

lemma perm_insert (hs : s.Ordered) (maxDist : D) (nbr : Neighbor D) :
    ((s.insert maxDist nbr).1.entries ++ (s.insert maxDist nbr).2.toList).Perm
      (nbr :: s.entries) := by
  rcases insert_cases maxDist s nbr with ⟨-, heq⟩ | ⟨-, -, heq⟩ | ⟨-, -, heq⟩
  · rw [heq]
    have hperm := NeighborSetPopList.perm_insert hs.valid true nbr
    -- the second list stands between the first and what fell out of it
    have hmid : ((s.validNs.insert true nbr).1.data ++ s.invalidNs.data
        ++ (s.validNs.insert true nbr).2.toList).Perm
        ((s.validNs.insert true nbr).1.data ++ (s.validNs.insert true nbr).2.toList
        ++ s.invalidNs.data) := by
      rw [append_assoc, append_assoc]
      exact perm_append_comm.append_left _
    exact hmid.trans (hperm.append_right s.invalidNs.data)
  · rw [heq]
    have hperm := NeighborSetPopList.perm_insert hs.invalid false nbr
    unfold entries
    rw [append_assoc]
    exact (hperm.append_left s.validNs.data).trans perm_middle
  · rw [heq]
    exact perm_append_singleton nbr s.entries

lemma Ordered.insert (hs : s.Ordered) (maxDist : D) (hnbr : nbr.status ≠ .checked) :
    (s.insert maxDist nbr).1.Ordered := by
  rcases insert_cases maxDist s nbr with ⟨-, heq⟩ | ⟨-, -, heq⟩ | ⟨-, -, heq⟩
  · rw [heq]
    exact ⟨hs.valid.insert true nbr, hs.cursor.insert hs.valid hnbr, hs.invalid⟩
  · rw [heq]
    exact ⟨hs.valid, hs.cursor, hs.invalid.insert false nbr⟩
  · rw [heq]
    exact hs

inductive Pops (s : NeighborSetDoublePopList D) (n : Neighbor D) :
    NeighborSetDoublePopList D → Prop
  | valid (h : s.validNs.data[s.validNs.cur]? = some n) :
      Pops s n { s with validNs := s.validNs.check n }
  | invalid {rest : List (Neighbor D)} (h : s.invalidNs.data = n :: rest) :
      Pops s n { s with invalidNs := { s.invalidNs with data := rest } }

variable {n : Neighbor D}

omit [LinearOrder D] in
lemma popValid_pops (h : s.validNs.data[s.validNs.cur]? = some n) :
    ∃ s', s.popValid = some (n, s') ∧ s.Pops n s' := by
  refine ⟨_, ?_, Pops.valid h⟩
  rw [popValid, pop_true_eq h]
  rfl

omit [LinearOrder D] in
lemma popInvalid_pops
    (h : s.invalidNs.data = n :: rest) : ∃ s', s.popInvalid = some (n, s') ∧ s.Pops n s' := by
  refine ⟨_, ?_, Pops.invalid h⟩
  simp [popInvalid, NeighborSetPopList.pop, h]

lemma exists_pops (h : s.hasNext maxDist = true) : ∃ n s', s.pop = some (n, s') ∧ s.Pops n s' := by
  unfold pop
  cases hinv : s.invalidNs.data with
  | nil =>
    have hcand : s.invalidNs.front false = none := by simp [front, hinv]
    have hlt : s.validNs.cur < s.validNs.data.length := by
      simpa [hasNext, hcand, NeighborSetPopList.hasNext] using h
    have hres : s.validNs.front true = some (s.validNs.data.get ⟨s.validNs.cur, hlt⟩) := by
      simp [front, hlt]
    rw [hcand, hres]
    exact ⟨_, popValid_pops (getElem?_eq_getElem hlt)⟩
  | cons cand rest =>
    have hcand : s.invalidNs.front false = some cand := by simp [front, hinv]
    rw [hcand]
    cases hres : s.validNs.front true with
    | none => exact ⟨_, popInvalid_pops hinv⟩
    | some res =>
      dsimp only
      split_ifs
      · exact ⟨_, popInvalid_pops hinv⟩
      · exact ⟨_, popValid_pops hres⟩

omit [LinearOrder D] in
lemma Pops.mem (h : s.Pops n s') : n ∈ s.entries := by
  cases h with
  | valid h => exact mem_append_left _ (mem_of_getElem? h)
  | invalid h => exact mem_append_right _ (by rw [h]; exact mem_cons_self)

lemma Pops.ordered (h : s.Pops n s') (hs : s.Ordered) : s'.Ordered := by
  cases h with
  | valid h =>
    have hmap := map_check (f := (·.distance)) rfl h
    exact ⟨hs.valid.of_distances rfl (hmap ▸ List.Sublist.refl _), hs.cursor.check h, hs.invalid⟩
  | invalid h =>
    refine ⟨hs.valid, hs.cursor, hs.invalid.of_distances rfl ?_⟩
    rw [h]
    exact sublist_cons_self _ _

def pending (s : NeighborSetDoublePopList D) : ℕ :=
  s.validNs.unchecked + s.invalidNs.data.length

lemma Pops.pending (h : s.Pops n s') (hs : s.Ordered) : s'.pending + 1 = s.pending := by
  cases h with
  | valid h =>
    have hcheck := hs.cursor.unchecked_check h
    simp only [NeighborSetDoublePopList.pending]
    omega
  | invalid h =>
    simp only [NeighborSetDoublePopList.pending, h, length_cons]
    omega

lemma pending_insert_le (hs : s.Ordered) (maxDist : D) (nbr : Neighbor D) :
    (s.insert maxDist nbr).1.pending ≤ s.pending + 1 := by
  rcases insert_cases maxDist s nbr with ⟨-, heq⟩ | ⟨-, -, heq⟩ | ⟨-, -, heq⟩
  · have hcount := (NeighborSetPopList.perm_insert hs.valid true nbr).countP_eq
      (·.status ≠ .checked)
    rw [countP_append, countP_cons] at hcount
    rw [heq]
    simp only [pending, unchecked]
    split_ifs at hcount <;> omega
  · have hlen := length_insert hs.invalid false nbr
    rw [heq]
    simp only [pending]
    split_ifs at hlen <;> omega
  · rw [heq]
    exact Nat.le_succ _

end NeighborSetDoublePopList

end Rvanns.Faiss
