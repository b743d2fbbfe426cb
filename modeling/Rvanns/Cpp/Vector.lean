import Mathlib

/-!
# Vectors with checked access

A `std::vector` is a list.
-/

namespace Rvanns.Cpp

open List Option

variable {α : Type*}

lemma some_bind {α β} (a : α) (f : α → Option β) : (some a >>= f) = f a := rfl

lemma lt_length {l : List α} (h : l[i]? = some a) : i < l.length :=
  (List.getElem?_eq_some_iff.mp h).1

lemma getElem?_eq_getD {l : List α} (h : i < l.length) (a : α) : l[i]? = some (l.getD i a) := by
  rw [getD_eq_getElem?_getD, getElem?_eq_getElem h, getD_some]

lemma forall_mem_concat {l : List α} {p : α → Prop} :
    (∀ b ∈ l ++ [a], p b) ↔ (∀ b ∈ l, p b) ∧ p a := by
  rw [forall_mem_append, forall_mem_singleton]

lemma pairwise_concat {l : List α} {r : α → α → Prop} :
    (l ++ [a]).Pairwise r ↔ l.Pairwise r ∧ ∀ b ∈ l, r b a := by
  simp [pairwise_append]

/-- `v[i]` as a value. -/
def rd (v : List α) (i : ℤ) : Option α := if 0 ≤ i then v[i.toNat]? else none

@[simp] lemma rd_natCast (v : List α) (i : ℕ) : rd v i = v[i]? := by
  simp [rd]

/-- `v[i] = a`. -/
def wr (v : List α) (i : ℕ) (a : α) : Option (List α) :=
  if i < v.length then some (v.set i a) else none

variable {v : List α} {i : ℕ}

lemma wr_of_lt (h : i < v.length) (a : α) : wr v i a = some (v.set i a) :=
  if_pos h

lemma getElem?_set_of_lt (h : i < v.length) (a : α) (j : ℕ) :
    (v.set i a)[j]? = if i = j then some a else v[j]? := by
  by_cases hij : i = j
  · subst hij
    rw [if_pos rfl, getElem?_set_self h]
  · rw [if_neg hij, getElem?_set_ne hij]

variable {old : α}

lemma getElem?_set_of_eq_some (a : α) (hi : v[i]? = some old) : (v.set i a)[i]? = some a := by
  have hlt := lt_length hi
  exact getElem?_set_self hlt

variable {a : α}

lemma eq_or_of_getElem?_set (hj : (v.set i a)[j]? = some b) :
    (j = i ∧ b = a) ∨ (j ≠ i ∧ v[j]? = some b) := by
  rw [getElem?_set] at hj
  split_ifs at hj with hij hlt
  · exact .inl ⟨hij.symm, (some.inj hj).symm⟩
  · exact .inr ⟨fun h => hij h.symm, hj⟩

/-- A change of `v[i]` in place. -/
def modifyAt (v : List α) (i : ℕ) (f : α → α) : Option (List α) :=
  v[i]?.map fun a => v.set i (f a)

lemma getElem?_range_map {α : Type*} {f : ℕ → α} (hi : i < n) :
    ((range n).map f)[i]? = some (f i) := by
  simp [hi]

lemma modifyAt_range_map {α : Type*} (hi : i < n) (f : ℕ → α) (g : α → α) :
    modifyAt ((range n).map f) i g
      = some ((range n).map fun j => if j = i then g (f j) else f j) := by
  rw [modifyAt, getElem?_range_map hi, map_some]
  congr 1
  apply ext_getElem?
  intro j
  by_cases hj : j < n
  · by_cases hij : i = j
    · simp [hij, hj]
    · simp [hij, hj, Ne.symm hij]
  · simp [hj]

lemma map_getD_range (l : List α) (d : α) : (range l.length).map (l.getD · d) = l := by
  apply ext_getElem (by simp)
  intro i _ hi
  simp [hi]

def filled (full : List α) (d : α) (i : ℕ) : List α :=
  full.take i ++ replicate (full.length - i) d

lemma filled_zero (full : List α) (d : α) : filled full d 0 = replicate full.length d := by
  simp [filled]

lemma filled_length (full : List α) (d : α) : filled full d full.length = full := by
  simp [filled]

lemma wr_filled (d : α) (ha : full[i]? = some a) :
    wr (filled full d i) i a = some (filled full d (i + 1)) := by
  obtain ⟨hi, rfl⟩ := List.getElem?_eq_some_iff.mp ha
  have hlen : (full.take i).length = i := by simp; omega
  rw [wr_of_lt (by simp [filled]; omega), filled, set_append_right _ _ (by omega), hlen,
    Nat.sub_self, show full.length - i = full.length - (i + 1) + 1 by omega, replicate_succ, filled,
      take_add_one, ha, append_assoc]
  rfl

lemma getElem?_filled (d : α) (hj : j < i) (hi : i ≤ full.length) :
    (filled full d i)[j]? = full[j]? := by
  rw [filled, getElem?_append_left (by simp; omega), getElem?_take_of_lt hj]

lemma countP_set_add (hold : v[i]? = some old)
    (a : α) : (v.set i a).countP p + (p old).toNat = v.countP p + (p a).toNat := by
  obtain ⟨hlt, rfl⟩ := List.getElem?_eq_some_iff.mp hold
  rw [countP_set hlt]
  cases hp : p v[i] with
  | false => cases p a <;> simp
  | true =>
    have hpos : 0 < v.countP p := countP_pos_iff.mpr ⟨v[i], getElem_mem hlt, hp⟩
    cases p a <;> simp <;> omega

lemma perm_flatMap_set (hold : v[i]? = some old) (a : α) :
    (f old ++ (v.set i a).flatMap f).Perm (f a ++ v.flatMap f) := by
  obtain ⟨hlt, rfl⟩ := List.getElem?_eq_some_iff.mp hold
  have hv : v.flatMap f = (v.take i).flatMap f ++ (f v[i] ++ (v.drop (i + 1)).flatMap f) := by
    rw [← flatMap_cons, ← flatMap_append, ← drop_eq_getElem_cons hlt, take_append_drop]
  rw [hv, set_eq_take_append_cons_drop, if_pos hlt, flatMap_append]
  apply (perm_append_comm_assoc _ _ _).trans
  apply (List.Perm.append_left _ (perm_append_comm_assoc _ _ _)).trans
  exact perm_append_comm_assoc _ _ _

lemma countP_set_add_one (hold : v[i]? = some old)
    (hp : p old = false) (ha : p a = true) : (v.set i a).countP p = v.countP p + 1 := by
  obtain ⟨hi, rfl⟩ := List.getElem?_eq_some_iff.mp hold
  simp [countP_set hi, hp, ha]

def readRange (v : List α) (b e : ℕ) : Option (List α) :=
  if e ≤ b then some []
  else if e ≤ v.length then some ((v.drop b).take (e - b))
  else none

variable {b : ℕ}

lemma readRange_of_le (h : e ≤ v.length) : readRange v b e = some ((v.drop b).take (e - b)) := by
  unfold readRange
  split
  · rw [Nat.sub_eq_zero_of_le (by assumption), take_zero]
  · rfl

/-- A range read entry by entry. -/
lemma readRange_eq_map (h : ∀ t < n, v[b + t]? = some (f t)) :
    readRange v b (b + n) = some ((range n).map f) := by
  rcases Nat.eq_zero_or_pos n with rfl | hn
  · rw [Nat.add_zero, readRange, if_pos le_rfl]
    rfl
  · have hlast := (List.getElem?_eq_some_iff.mp (h (n - 1) (by omega))).1
    rw [readRange_of_le (by omega), Nat.add_sub_cancel_left]
    congr 1
    apply ext_getElem?
    intro t
    rcases lt_or_ge t n with ht | ht
    · rw [getElem?_take_of_lt ht, getElem?_drop, h t ht]
      simp [ht]
    · rw [getElem?_take_eq_none ht, getElem?_eq_none (by simpa using ht)]

lemma length_readRange_le (h : readRange v b e = some vals) : vals.length ≤ e - b := by
  unfold readRange at h
  split_ifs at h
  · cases h
    exact Nat.zero_le _
  · cases h
    exact length_take_le _ _

/-- `v[b] = vals[0]; v[b + 1] = vals[1]; …` -/
def writeRange (v : List α) (b : ℕ) (vals : List α) : Option (List α) :=
  if b + vals.length ≤ v.length then some (v.take b ++ vals ++ v.drop (b + vals.length)) else none

/-- `v[i].push_back(a)` in a vector of vectors. -/
def pushBackAt (v : List (List α)) (i : ℕ) (a : α) : Option (List (List α)) := do
  let row ← v[i]?
  wr v i (row ++ [a])

/-- A range inside the first of two vectors. -/
lemma readRange_append (h : e ≤ v.length) (w : List α) :
    readRange (v ++ w) b e = readRange v b e := by
  rw [readRange_of_le (by rw [length_append]; omega), readRange_of_le h]
  rcases lt_or_ge e b with hlt | hle
  · rw [Nat.sub_eq_zero_of_le (le_of_lt hlt), take_zero, take_zero]
  · rw [drop_append_of_le_length (by omega), take_append_of_le_length (by
      rw [length_drop]
      omega)]

variable {l : List α}

lemma mapM_eq_some_map_iff {β : Type*} {f : α → Option β} {g : α → β} :
    l.mapM f = some (l.map g) ↔ ∀ a ∈ l, f a = some (g a) := by
  induction l with
  | nil => simp
  | cons a l ih =>
    rw [mapM_cons, forall_mem_cons, ← ih]
    cases f a with
    | none => simp
    | some b => cases l.mapM f <;> simp

lemma mapM_eq_some_map {β : Type*} {f : α → Option β} {g : α → β}
    (h : ∀ a ∈ l, f a = some (g a)) : l.mapM f = some (l.map g) :=
  mapM_eq_some_map_iff.mpr h

lemma forall₂_of_mapM {β : Type*} {f : α → Option β} {l' : List β} (h : l.mapM f = some l') :
    Forall₂ (fun a b => f a = some b) l l' := by
  induction l generalizing l' with
  | nil =>
    cases h
    exact .nil
  | cons a l ih =>
    rw [mapM_cons] at h
    obtain ⟨b, hb, h⟩ := bind_eq_some_iff.mp h
    obtain ⟨bs, hbs, ⟨⟩⟩ := bind_eq_some_iff.mp h
    exact .cons hb (ih hbs)

lemma length_of_mapM {β : Type*} {f : α → Option β} {l' : List β}
    (h : l.mapM f = some l') : l'.length = l.length :=
  (forall₂_of_mapM h).length_eq.symm

/-- A result of the loop is the result of a turn. -/
lemma exists_of_mem_mapM {β : Type*} {f : α → Option β} {l' : List β}
    (h : l.mapM f = some l') {b : β} (hb : b ∈ l') : ∃ a ∈ l, f a = some b := by
  replace h := forall₂_of_mapM h
  induction h with
  | nil => cases hb
  | cons hc hcs ih =>
    rcases mem_cons.mp hb with rfl | hb
    · exact ⟨_, mem_cons_self, hc⟩
    · obtain ⟨a', ha', hf⟩ := ih hb
      exact ⟨a', mem_cons_of_mem _ ha', hf⟩

/-- Every turn has its result. -/
lemma exists_mem_of_mapM (h : l.mapM f = some l') (ha : a ∈ l) : ∃ b ∈ l', f a = some b := by
  replace h := forall₂_of_mapM h
  induction h with
  | nil => cases ha
  | cons hb hbs ih =>
    rcases mem_cons.mp ha with rfl | ha
    · exact ⟨_, mem_cons_self, hb⟩
    · obtain ⟨b', hb', hf⟩ := ih ha
      exact ⟨b', mem_cons_of_mem _ hb', hf⟩

lemma nodup_of_mapM {β γ δ : Type*} {f : α → Option β} {key : α → γ} {key' : β → δ}
    {l' : List β} (h : l.mapM f = some l') (hl : (l.map key).Nodup)
    (hinj : ∀ a a' b b', f a = some b → f a' = some b' → key' b = key' b' → key a = key a') :
    (l'.map key').Nodup := by
  induction l generalizing l' with
  | nil =>
    obtain rfl : [] = l' := by simpa using h
    exact nodup_nil
  | cons a l ih =>
    rw [mapM_cons] at h
    obtain ⟨b, hb, h⟩ := bind_eq_some_iff.mp h
    obtain ⟨bs, hbs, ⟨⟩⟩ := bind_eq_some_iff.mp h
    rw [map_cons, nodup_cons] at hl ⊢
    refine ⟨fun hmem => hl.1 ?_, ih hbs hl.2⟩
    obtain ⟨b', hb', heq⟩ := mem_map.mp hmem
    obtain ⟨a', ha', hf⟩ := exists_of_mem_mapM hbs hb'
    rw [hinj a a' b b' hb hf heq.symm]
    exact mem_map_of_mem ha'

/-- What a loop has read can be read off its results. -/
lemma map_eq_of_mapM_eq_some (h : l.mapM f = some l') (hg : ∀ a b, f a = some b → g b = a) :
    l'.map g = l := by
  replace h := forall₂_of_mapM h
  induction h with
  | nil => rfl
  | cons hb _ ih => rw [map_cons, hg _ _ hb, ih]

/-- A loop over a list succeeds when every turn does. -/
lemma exists_mapM (h : ∀ a ∈ l, ∃ b, f a = some b) : ∃ l', l.mapM f = some l' := by
  induction l with
  | nil => exact ⟨[], rfl⟩
  | cons a l ih =>
    obtain ⟨⟨b, hb⟩, hl⟩ := forall_mem_cons.mp h
    obtain ⟨l', hl'⟩ := ih hl
    exact ⟨b :: l', by rw [mapM_cons, hb, hl']; rfl⟩

/-! ### Literals

What makes a literal of a kernel a number has a name here, which the definitions of all modules
that open `Literals` share. -/

namespace Literals

scoped instance neZero_four : NeZero 4 := ⟨by decide⟩
scoped instance atLeastTwo_two : Nat.AtLeastTwo 2 := ⟨by decide⟩
scoped instance atLeastTwo_fifteen : Nat.AtLeastTwo 15 := ⟨by decide⟩
scoped instance atLeastTwo_sixtyThree : Nat.AtLeastTwo 63 := ⟨by decide⟩
scoped instance atLeastTwo_oneTwentyEight : Nat.AtLeastTwo 128 := ⟨by decide⟩
scoped instance atLeastTwo_twoFiftyFive : Nat.AtLeastTwo 255 := ⟨by decide⟩

end Literals

end Rvanns.Cpp
