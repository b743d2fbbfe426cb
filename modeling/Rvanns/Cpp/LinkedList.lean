import Rvanns.Cpp.Sort

/-!
# Doubly linked lists

Nodes are numbers; `prev` and `next` give the links of every node, `none` being the null link.
-/

namespace Rvanns.Cpp

open List Function

def IsDList (prev next : ℕ → Option ℕ) (l : List ℕ) : Prop :=
  ∀ a x b, l = a ++ x :: b → prev x = a.getLast? ∧ next x = b.head?

variable {prev next prev' next' : ℕ → Option ℕ} {a b : List ℕ} {x : ℕ}

/-- The last node before a cut is not behind it. -/
lemma getLast?_ne_of_nodup (hnd : (a ++ b).Nodup) (hy : y ∈ b) : a.getLast? ≠ some y := by
  intro hlast
  exact disjoint_of_nodup_append hnd (mem_of_getLast? hlast) hy

lemma head?_ne_of_nodup (hnd : (a ++ b).Nodup) (hy : y ∈ a) : b.head? ≠ some y := by
  intro hhead
  exact disjoint_of_nodup_append hnd hy (mem_of_head? hhead)

lemma getLast?_ne_of_cons (hnd : (a ++ y :: z :: c ++ b).Nodup) :
    (a ++ y :: z :: c).getLast? ≠ some y := by
  rw [show a ++ y :: z :: c ++ b = (a ++ [y]) ++ (z :: c ++ b) by simp] at hnd
  rw [getLast?_append_cons]
  intro hlast
  have hmem : y ∈ z :: c ++ b := mem_append_left b (mem_of_getLast? hlast)
  exact disjoint_of_nodup_append hnd (by simp) hmem

lemma head?_ne_of_append (hnd : (a ++ (z :: c ++ y :: b)).Nodup) :
    (z :: c ++ y :: b).head? ≠ some y := by
  rw [cons_append, head?_cons, ne_eq, Option.some.injEq]
  rintro rfl
  have hnd' := (nodup_append.mp hnd).2.1
  simp at hnd'

/-- Where a cut of `a ++ b` can be: in `a` or in `b`. -/
lemma append_eq_append_cons (h : a ++ b = a' ++ y :: b') :
    (∃ c, a = a' ++ y :: c ∧ b' = c ++ b) ∨ ∃ c, b = c ++ y :: b' ∧ a' = a ++ c := by
  rcases append_eq_append_iff.mp h with ⟨c, ha', hb⟩ | ⟨c, ha, hb'⟩
  · exact .inr ⟨c, hb, ha'⟩
  · cases c with
    | nil => exact .inr ⟨[], by simpa using hb'.symm, by simpa using ha.symm⟩
    | cons z c =>
      rw [cons_append, List.cons.injEq] at hb'
      obtain ⟨rfl, hb'⟩ := hb'
      exact .inl ⟨c, ha, hb'⟩

lemma IsDList.remove (h : IsDList prev next (a ++ x :: b)) (hnd : (a ++ b).Nodup)
    (hnext : ∀ y ∈ a ++ b, next' y = if a.getLast? = some y then b.head? else next y)
    (hprev : ∀ y ∈ a ++ b, prev' y = if b.head? = some y then a.getLast? else prev y) :
    IsDList prev' next' (a ++ b) := by
  intro a' y b' heq
  have hy : y ∈ a ++ b := by simp [heq]
  rw [hnext y hy, hprev y hy]
  rcases append_eq_append_cons heq with ⟨c, rfl, rfl⟩ | ⟨c, rfl, rfl⟩
  · -- the cut is in the first part, so only the link to the next node can have changed
    have hold := h a' y (c ++ x :: b) (by simp)
    rw [if_neg (head?_ne_of_nodup hnd (by simp)), hold.1, hold.2]
    refine ⟨rfl, ?_⟩
    cases c with
    | nil => simp
    | cons z c =>
      rw [if_neg (getLast?_ne_of_cons hnd)]
      rfl
  · have hold := h (a ++ x :: c) y b' (by simp)
    rw [if_neg (getLast?_ne_of_nodup hnd (by simp)), hold.1, hold.2]
    refine ⟨?_, rfl⟩
    cases c with
    | nil => simp
    | cons z c =>
      rw [if_neg (head?_ne_of_append hnd)]
      simp [getLast?_append]

/-- **Putting a node in** between two parts of the list. -/
lemma IsDList.insert (h : IsDList prev next (a ++ b)) (hnd : (a ++ b).Nodup) (hx : x ∉ a ++ b)
    (hnext : ∀ y ∈ a ++ b, next' y = if a.getLast? = some y then some x else next y)
    (hprev : ∀ y ∈ a ++ b, prev' y = if b.head? = some y then some x else prev y)
    (hprevx : prev' x = a.getLast?) (hnextx : next' x = b.head?) :
    IsDList prev' next' (a ++ x :: b) := by
  intro a' y b' heq
  rcases append_eq_append_cons heq with ⟨c, rfl, rfl⟩ | ⟨c, hb, rfl⟩
  · -- the cut is before the new node
    have hy : y ∈ a' ++ y :: c ++ b := by simp
    have hold := h a' y (c ++ b) (by simp)
    rw [hnext y hy, hprev y hy, if_neg (head?_ne_of_nodup hnd (by simp)), hold.1, hold.2]
    refine ⟨rfl, ?_⟩
    cases c with
    | nil => simp
    | cons z c =>
      rw [if_neg (getLast?_ne_of_cons hnd)]
      rfl
  · cases c with
    | nil =>
      -- the cut is at the new node
      obtain ⟨rfl, rfl⟩ := hb
      rw [append_nil]
      exact ⟨hprevx, hnextx⟩
    | cons z c =>
      rw [cons_append] at hb
      obtain ⟨rfl, rfl⟩ := hb
      have hy : y ∈ a ++ (c ++ y :: b') := by simp
      have hold := h (a ++ c) y b' (by simp)
      rw [hnext y hy, hprev y hy, if_neg (getLast?_ne_of_nodup hnd (by simp)), hold.1, hold.2]
      refine ⟨?_, rfl⟩
      cases c with
      | nil => simp
      | cons w c =>
        rw [if_neg (head?_ne_of_append hnd)]
        simp [getLast?_append]

/-! ### Runs of equal keys in a list sorted by non-increasing key -/

section

variable {α : Type*} {key : α → ℕ}

def keyRun (key : α → ℕ) (k : ℕ) (l : List α) : List α := l.filter fun x => decide (key x = k)

def KeysDescend (key : α → ℕ) (l : List α) : Prop := l.Pairwise fun x y => key y ≤ key x

@[simp] lemma keyRun_nil (key : α → ℕ) (k : ℕ) : keyRun key k [] = [] := rfl

lemma keyRun_append (key : α → ℕ) (k : ℕ) (a b : List α) :
    keyRun key k (a ++ b) = keyRun key k a ++ keyRun key k b :=
  filter_append ..

lemma keyRun_cons_self (key : α → ℕ) (x : α) (l : List α) :
    keyRun key (key x) (x :: l) = x :: keyRun key (key x) l := by
  simp [keyRun]

variable {k : ℕ} {x : α}

lemma keyRun_cons_of_ne (h : key x ≠ k) (l : List α) : keyRun key k (x :: l) = keyRun key k l := by
  simp [keyRun, h]

variable {l : List α}

lemma mem_keyRun : x ∈ keyRun key k l ↔ x ∈ l ∧ key x = k := by
  simp [keyRun]

lemma keyRun_eq_nil (h : ∀ x ∈ l, key x ≠ k) : keyRun key k l = [] := by
  simpa [keyRun] using h

lemma keyRun_congr (h : ∀ x ∈ l, key' x = key x) (k : ℕ) : keyRun key' k l = keyRun key k l := by
  apply filter_congr
  intro x hx
  rw [h x hx]

lemma KeysDescend.congr (hl : KeysDescend key l)
    (h : ∀ x ∈ l, key' x = key x) : KeysDescend key' l := by
  refine List.Pairwise.imp_of_mem ?_ hl
  intro x y hx hy hxy
  rwa [h x hx, h y hy]

variable {a b : List α}

lemma KeysDescend.append_iff : KeysDescend key (a ++ b) ↔
    KeysDescend key a ∧ KeysDescend key b ∧ ∀ x ∈ a, ∀ y ∈ b, key y ≤ key x :=
  pairwise_append

lemma KeysDescend.cons_iff :
    KeysDescend key (x :: b) ↔ (∀ y ∈ b, key y ≤ key x) ∧ KeysDescend key b :=
  pairwise_cons

lemma KeysDescend.remove (h : KeysDescend key (a ++ x :: b)) : KeysDescend key (a ++ b) :=
  List.Pairwise.sublist (List.Sublist.append_left (sublist_cons_self x b) a) h

lemma KeysDescend.head?_eq (h : KeysDescend key (x :: b))
    (hne : keyRun key (key x) b ≠ []) : b.head? = (keyRun key (key x) b).head? := by
  cases b with
  | nil => rfl
  | cons y b =>
    obtain ⟨hx, hyb⟩ := KeysDescend.cons_iff.mp h
    rcases Nat.eq_or_lt_of_le (hx y (by simp)) with heq | hlt
    · rw [← heq, keyRun_cons_self]
      rfl
    · -- the keys only go down from here
      refine absurd (keyRun_eq_nil fun z hz => ?_) hne
      rcases mem_cons.mp hz with rfl | hz
      · omega
      · have := (KeysDescend.cons_iff.mp hyb).1 z hz
        omega

lemma KeysDescend.getLast?_eq (h : KeysDescend key (a ++ [x]))
    (hne : keyRun key (key x) a ≠ []) : a.getLast? = (keyRun key (key x) a).getLast? := by
  rcases eq_nil_or_concat a with rfl | ⟨a, y, rfl⟩
  · rfl
  · rw [concat_eq_append] at *
    obtain ⟨hay, -, hx⟩ := KeysDescend.append_iff.mp h
    have hyx : key x ≤ key y := hx y (by simp) x (by simp)
    rcases Nat.eq_or_lt_of_le hyx with heq | hlt
    · rw [heq, keyRun_append, keyRun_cons_self]
      simp
    · refine absurd (keyRun_eq_nil fun z hz => ?_) hne
      rcases mem_append.mp hz with hz | hz
      · have := (KeysDescend.append_iff.mp hay).2.2 z hz y (by simp)
        omega
      · rw [mem_singleton.mp hz]
        omega

lemma KeysDescend.split_before (hs : KeysDescend key (a ++ x :: b)) :
    ∃ a₁ a₂, a = a₁ ++ a₂ ∧ (∀ y ∈ a₁, key x < key y) ∧ ∀ y ∈ a₂, key y = key x := by
  have hle : ∀ y ∈ a, key x ≤ key y :=
    fun y hy => (KeysDescend.append_iff.mp hs).2.2 y hy x (by simp)
  refine ⟨_, _, eq_filter_append_filter (p := fun y => decide (key x < key y)) ?_, ?_, ?_⟩
  · refine (KeysDescend.append_iff.mp hs).1.imp ?_
    intro y z hzy hz
    rw [decide_eq_true_eq] at hz ⊢
    omega
  · intro y hy
    simpa using (mem_filter.mp hy).2
  · intro y hy
    obtain ⟨hya, hnot⟩ := mem_filter.mp hy
    have := hle y hya
    simp only [Bool.not_eq_true', decide_eq_false_iff_not] at hnot
    omega

lemma KeysDescend.insert [DecidableEq α]
    (hs : KeysDescend key (a ++ b)) (hx : x ∉ a ++ b) (ha : ∀ y ∈ a, k ≤ key y)
      (hb : ∀ y ∈ b, key y < k) : KeysDescend (update key x k) (a ++ x :: b) := by
  have hne : ∀ y ∈ a ++ b, update key x k y = key y := by
    intro y hy
    have hyx : y ≠ x := fun heq => hx (heq ▸ hy)
    exact update_of_ne hyx k key
  obtain ⟨hsa, hsb, hab⟩ := KeysDescend.append_iff.mp (hs.congr hne)
  refine KeysDescend.append_iff.mpr ⟨hsa, KeysDescend.cons_iff.mpr ⟨?_, hsb⟩, ?_⟩
  · intro y hy
    rw [hne y (mem_append_right a hy), update_self]
    exact (hb y hy).le
  · intro y hy z hz
    rcases mem_cons.mp hz with rfl | hz
    · rw [hne y (mem_append_left b hy), update_self]
      exact ha y hy
    · exact hab y hy z hz

lemma sum_map_update [DecidableEq α] {l : List α} (hnd : l.Nodup) (hx : x ∈ l) (f : α → ℕ) (k : ℕ) :
    (l.map (update f x k)).sum + f x = (l.map f).sum + k := by
  obtain ⟨a, b, rfl⟩ := append_of_mem hx
  have hxnot := (nodup_cons.mp (nodup_middle.mp hnd)).1
  have hsame : ∀ c : List α, (∀ y ∈ c, y ∈ a ++ b) → c.map (update f x k) = c.map f := by
    intro c hc
    apply map_congr_left
    intro y hy
    have hyx : y ≠ x := fun heq => hxnot (heq ▸ hc y hy)
    exact update_of_ne hyx k f
  simp only [map_append, map_cons, sum_append, sum_cons, update_self]
  rw [hsame a fun y hy => by simp [hy], hsame b fun y hy => by simp [hy]]
  omega

end

end Rvanns.Cpp
