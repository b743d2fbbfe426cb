import Mathlib

/-!
# Comparison functions, sorting and priority queues

The standard library's algorithms take a comparison function `lt` and require it to be a strict weak
ordering.  `std::sort` and `std::partial_sort` say what their result looks like, not how elements
that the comparison does not separate are arranged, nor in which order `partial_sort` leaves the
elements it has not selected.  A search for the `k` best elements may choose likewise.
-/

namespace Rvanns.Cpp

open List

variable {α : Type*}

structure StrictWeak (lt : α → α → Bool) : Prop where
  asymm : ∀ {a b}, lt a b → ¬ lt b a
  negTrans : ∀ {a b c}, ¬ lt a b → ¬ lt b c → ¬ lt a c

namespace StrictWeak

lemma of_key {κ : Type*} [LinearOrder κ] (key : α → κ)
    (h : ∀ a b, lt a b ↔ key a < key b) : StrictWeak lt where
  asymm := by
    intro a b hab
    rw [h] at hab ⊢
    exact hab.asymm
  negTrans := by
    intro a b c hab hbc
    rw [h, not_lt] at *
    exact hbc.trans hab

variable {lt : α → α → Bool}

lemma irrefl (h : StrictWeak lt) (a : α) : ¬ lt a a :=
  fun ha => h.asymm ha ha

lemma swap (h : StrictWeak lt) : StrictWeak fun a b => lt b a where
  asymm := fun hab => h.asymm hab
  negTrans := fun hab hbc => h.negTrans hbc hab

end StrictWeak

section

variable {α β : Type*}

structure IsTopK (le : β → β → Prop) (key : α → β) (k : ℕ) (all : Multiset α) (top : List α) :
    Prop where
  sorted : (top.map key).Pairwise le
  length_le : top.length ≤ k
  /-- What is left out is not better than anything in the list, and then the list is full. -/
  rest : ∃ rest : Multiset α, ↑top + rest = all ∧ (rest ≠ 0 → top.length = k)
    ∧ ∀ r ∈ rest, ∀ t ∈ top, le (key t) (key r)

namespace IsTopK

variable {le : β → β → Prop} {key : α → β} {k : ℕ} {all : Multiset α} {top : List α}

lemma length_eq_min (h : IsTopK le key k all top) : top.length = min k all.card := by
  obtain ⟨rest, rfl, hfull, -⟩ := h.rest
  have hle := h.length_le
  rw [Multiset.card_add, Multiset.coe_card]
  -- a list that leaves something out is full
  by_cases hr : rest = 0
  · rw [hr, Multiset.card_zero]
    omega
  · have hlen := hfull hr
    omega

end IsTopK

end

structure StdSort (α : Type*) where
  run : (α → α → Bool) → List α → List α
  perm : ∀ {lt}, StrictWeak lt → ∀ l, (run lt l).Perm l
  sorted : ∀ {lt}, StrictWeak lt → ∀ l, (run lt l).Pairwise fun a b => ¬ lt b a

structure StdPartialSort (α : Type*) where
  run : (α → α → Bool) → ℕ → List α → List α
  perm : ∀ {lt}, StrictWeak lt → ∀ m l, (run lt m l).Perm l
  sorted : ∀ {lt}, StrictWeak lt → ∀ m l, ((run lt m l).take m).Pairwise fun a b => ¬ lt b a
  selected : ∀ {lt}, StrictWeak lt → ∀ m l, ∀ a ∈ (run lt m l).take m,
    ∀ b ∈ (run lt m l).drop m, ¬ lt b a

/-- The comparison is a strict weak ordering of the elements of `l`. -/
structure StrictWeakOn (lt : α → α → Bool) (l : List α) : Prop where
  asymm : ∀ a ∈ l, ∀ b ∈ l, lt a b → ¬ lt b a
  negTrans : ∀ a ∈ l, ∀ b ∈ l, ∀ c ∈ l, ¬ lt a b → ¬ lt b c → ¬ lt a c

lemma strictWeakOn_iff {lt : α → α → Bool} {l : List α} : StrictWeakOn lt l
    ↔ (∀ a ∈ l, ∀ b ∈ l, lt a b → ¬ lt b a)
      ∧ ∀ a ∈ l, ∀ b ∈ l, ∀ c ∈ l, ¬ lt a b → ¬ lt b c → ¬ lt a c :=
  ⟨fun h => ⟨h.asymm, h.negTrans⟩, fun h => ⟨h.1, h.2⟩⟩

instance {lt : α → α → Bool} {l : List α} : Decidable (StrictWeakOn lt l) :=
  decidable_of_iff _ strictWeakOn_iff.symm

lemma StrictWeakOn.of_key {κ : Type*} [LinearOrder κ] {lt : α → α → Bool} {l : List α} (key : α → κ)
    (h : ∀ a ∈ l, ∀ b ∈ l, lt a b ↔ key a < key b) : StrictWeakOn lt l where
  asymm := by
    intro a ha b hb hab
    rw [h _ ha _ hb] at hab
    rw [h _ hb _ ha]
    exact hab.asymm
  negTrans := by
    intro a ha b hb c hc hab hbc
    rw [h _ ha _ hb, not_lt] at hab
    rw [h _ hb _ hc, not_lt] at hbc
    rw [h _ ha _ hc, not_lt]
    exact hbc.trans hab

section Within

variable [DecidableEq α] {lt : α → α → Bool} {l : List α}

/-- The comparison of the elements of `l`, with everything else behind them. -/
def within (lt : α → α → Bool) (l : List α) (a b : α) : Bool :=
  if b ∈ l then decide (a ∈ l) && lt a b else decide (a ∈ l)

lemma within_of_mem (ha : a ∈ l) (hb : b ∈ l) : within lt l a b = lt a b := by
  rw [within, if_pos hb, decide_eq_true ha, Bool.true_and]

lemma within_of_notMem (hb : b ∉ l) : within lt l a b ↔ a ∈ l := by
  rw [within, if_neg hb, decide_eq_true_eq]

lemma mem_of_within (h : within lt l a b) : a ∈ l := by
  rw [within] at h
  split at h <;> simp_all

lemma StrictWeakOn.within (h : StrictWeakOn lt l) : StrictWeak (within lt l) where
  asymm := by
    intro a b hab hba
    have ha := mem_of_within hab
    have hb := mem_of_within hba
    rw [within_of_mem ha hb] at hab
    rw [within_of_mem hb ha] at hba
    exact h.asymm a ha b hb hab hba
  negTrans := by
    intro a b c hab hbc hac
    have ha := mem_of_within hac
    -- only elements of the range have anything behind them
    have hb : b ∈ l := by_contra fun hb => hab ((within_of_notMem hb).mpr ha)
    have hc : c ∈ l := by_contra fun hc => hbc ((within_of_notMem hc).mpr hb)
    rw [within_of_mem ha hb] at hab
    rw [within_of_mem hb hc] at hbc
    rw [within_of_mem ha hc] at hac
    exact h.negTrans a ha b hb c hc hab hbc hac

/-- `std::sort` of a range, undefined unless the comparison orders its elements.  On anything else
the comparison is not called. -/
def StdSort.sortRange (S : StdSort α) (lt : α → α → Bool) (l : List α) : Option (List α) :=
  if StrictWeakOn lt l then some (S.run (Cpp.within lt l) l) else none

variable {S : StdSort α}

lemma StdSort.sortRange_eq_some_iff : S.sortRange lt l = some r
    ↔ StrictWeakOn lt l ∧ S.run (Cpp.within lt l) l = r := by
  rw [sortRange]
  split <;> simp_all

lemma StdSort.sortRange_perm (h : S.sortRange lt l = some r) : r.Perm l := by
  obtain ⟨hw, rfl⟩ := sortRange_eq_some_iff.mp h
  exact S.perm hw.within l

lemma StdSort.sortRange_sorted (h : S.sortRange lt l = some r) :
    r.Pairwise fun a b => ¬ lt b a := by
  have hperm := sortRange_perm h
  obtain ⟨hw, rfl⟩ := sortRange_eq_some_iff.mp h
  refine (S.sorted hw.within l).imp_of_mem fun {a b} ha hb hab => ?_
  rwa [within_of_mem (hperm.mem_iff.mp hb) (hperm.mem_iff.mp ha)] at hab

end Within

def unique [DecidableEq α] : List α → List α
  | [] => []
  | [a] => [a]
  | a :: b :: l => if a = b then unique (b :: l) else a :: unique (b :: l)

variable {l : List α}

lemma mem_unique [DecidableEq α] : x ∈ unique l ↔ x ∈ l := by
  fun_induction unique l with
  | case1 => rfl
  | case2 a => rfl
  | case3 a l ih => simp [ih]
  | case4 a b l hab ih => simp [ih]

def insertionSortBy (lt : α → α → Bool) (l : List α) : List α :=
  l.insertionSort fun a b => ¬ lt b a

lemma insertionSortBy_perm (lt : α → α → Bool) (l : List α) : (insertionSortBy lt l).Perm l :=
  perm_insertionSort _ l

variable {lt : α → α → Bool}

lemma insertionSortBy_sorted (hw : StrictWeak lt) (l : List α) :
    (insertionSortBy lt l).Pairwise fun a b => ¬ lt b a := by
  have htotal : Std.Total fun a b => ¬ lt b a := by
    refine ⟨fun a b => ?_⟩
    by_cases hba : lt b a
    · exact .inr (hw.asymm hba)
    · exact .inl hba
  have htrans : IsTrans α fun a b => ¬ lt b a := ⟨fun a b c hab hbc => hw.negTrans hbc hab⟩
  exact pairwise_insertionSort _ l

def StdSort.insertion : StdSort α where
  run := insertionSortBy
  perm := fun _ l => insertionSortBy_perm _ l
  sorted := fun hw l => insertionSortBy_sorted hw l

lemma eq_filter_append_filter
    (h : l.Pairwise fun a b => p b → p a) : l = l.filter p ++ l.filter fun a => !p a := by
  induction l with
  | nil => rfl
  | cons a l ih =>
    rw [pairwise_cons] at h
    by_cases ha : p a
    · simp only [filter_cons, ha, if_true, Bool.not_true, Bool.false_eq_true, if_false, cons_append]
      rw [← ih h.2]
    · have hl : l.filter p = [] := filter_eq_nil_iff.mpr fun b hb hpb => ha (h.1 b hb hpb)
      have hl' := ih h.2
      rw [hl, nil_append] at hl'
      simp only [filter_cons, ha, if_false, Bool.not_false, if_true, hl, nil_append,
        Bool.false_eq_true, ← hl']

lemma countP_le_of_sorted (hw : StrictWeak lt)
    (hl : l.Pairwise fun a b => ¬ lt b a) (ha : l[p]? = some a) :
    l.countP (fun b => lt b a) ≤ p ∧ p < l.countP fun b => !lt a b := by
  obtain ⟨hp, rfl⟩ := List.getElem?_eq_some_iff.mp ha
  have hsplit : l = l.take p ++ l[p] :: l.drop (p + 1) := by
    rw [← drop_eq_getElem_cons hp, take_append_drop]
  have hlen : (l.take p).length = p := by rw [length_take]; omega
  set a := l[p]
  rw [hsplit, pairwise_append, pairwise_cons] at hl
  obtain ⟨-, ⟨hafter, -⟩, hbefore⟩ := hl
  constructor
  · rw [hsplit, countP_append, countP_cons, if_neg (hw.irrefl a)]
    have hzero := countP_eq_zero.mpr fun b hb => hafter b hb
    rw [hzero]
    exact (countP_le_length).trans hlen.le
  · have hall : (l.take p).countP (fun b => !lt a b) = (l.take p).length :=
      countP_eq_length.mpr fun b hb => by simpa using hbefore b hb a mem_cons_self
    have hself : (!lt a a) = true := by simpa using hw.irrefl a
    rw [hsplit, countP_append, hall, countP_cons, if_pos hself]
    omega

lemma take_drop_reverseTail (m : ℕ) (l : List α) :
    (l.take m ++ (l.drop m).reverse).take m = l.take m ∧
      (l.take m ++ (l.drop m).reverse).drop m = (l.drop m).reverse := by
  rcases Nat.le_total m l.length with hm | hm
  · have hlen : (l.take m).length = m := by rw [length_take, min_eq_left hm]
    exact ⟨take_left' hlen, drop_left' hlen⟩
  · simp [drop_eq_nil_of_le hm, take_of_length_le hm]

lemma perm_filter_three (hw : StrictWeak lt) (a : α) (l : List α) :
    ((l.filter fun b => lt b a) ++ (l.filter fun b => !lt b a && !lt a b) ++
      l.filter fun b => lt a b).Perm l := by
  have hrest : ((l.filter fun b => !lt b a && !lt a b) ++ l.filter fun b => lt a b).Perm
      (l.filter fun b => !lt b a) := by
    have hgreater : (l.filter fun b => lt a b) =
        (l.filter fun b => !lt b a).filter fun b => lt a b := by
      rw [filter_filter]
      refine filter_congr fun b _ => ?_
      by_cases hab : lt a b
      · simp [hab, hw.asymm hab]
      · simp [hab]
    have hequal : (l.filter fun b => !lt b a && !lt a b) =
        (l.filter fun b => !lt b a).filter fun b => !lt a b := by
      rw [filter_filter]
      exact filter_congr fun b _ => Bool.and_comm _ _
    rw [hgreater, hequal]
    exact perm_append_comm.trans (filter_append_perm _ _)
  rw [append_assoc]
  exact (hrest.append_left _).trans (filter_append_perm _ l)

def StdSort.placing [DecidableEq α] (a : α) (d : ℕ) : StdSort α where
  run := fun lt l =>
    if a ∈ l then
      let equal := (l.filter fun b => !lt b a && !lt a b).erase a
      insertionSortBy lt (l.filter fun b => lt b a) ++ (equal.take d ++ a :: equal.drop d) ++
        insertionSortBy lt (l.filter fun b => lt a b)
    else insertionSortBy lt l
  perm := by
    intro lt hw l
    split_ifs with ha
    · set equal := l.filter fun b => !lt b a && !lt a b
      have hself : a ∈ equal := mem_filter.mpr ⟨ha, by simp [hw.irrefl a]⟩
      have hmid : ((equal.erase a).take d ++ a :: (equal.erase a).drop d).Perm equal := by
        refine perm_middle.trans ?_
        rw [take_append_drop]
        exact (perm_cons_erase hself).symm
      exact (((insertionSortBy_perm _ _).append hmid).append (insertionSortBy_perm _ _)).trans
        (perm_filter_three hw a l)
    · exact insertionSortBy_perm lt l
  sorted := by
    intro lt hw l
    split_ifs with ha
    · set equal := (l.filter fun b => !lt b a && !lt a b).erase a with hequal
      have hless : ∀ b ∈ insertionSortBy lt (l.filter fun b => lt b a), ¬ lt a b := fun b hb =>
        hw.asymm (mem_filter.mp ((insertionSortBy_perm _ _).mem_iff.mp hb)).2
      have hgreater : ∀ b ∈ insertionSortBy lt (l.filter fun b => lt a b), ¬ lt b a := fun b hb =>
        hw.asymm (mem_filter.mp ((insertionSortBy_perm _ _).mem_iff.mp hb)).2
      have hmid : ∀ b ∈ equal.take d ++ a :: equal.drop d, ¬ lt b a ∧ ¬ lt a b := by
        intro b hb
        have hb' : b = a ∨ b ∈ equal := by
          rcases mem_append.mp hb with hb | hb
          · exact Or.inr (mem_of_mem_take hb)
          · rcases mem_cons.mp hb with hb | hb
            · exact Or.inl hb
            · exact Or.inr (mem_of_mem_drop hb)
        rcases hb' with rfl | hb
        · exact ⟨hw.irrefl b, hw.irrefl b⟩
        · simpa using (mem_filter.mp (mem_of_mem_erase hb)).2
      refine pairwise_append.mpr ⟨pairwise_append.mpr ⟨insertionSortBy_sorted hw _, ?_,
        fun b hb c hc => hw.negTrans (hmid c hc).1 (hless b hb)⟩, insertionSortBy_sorted hw _, ?_⟩
      · exact pairwise_of_forall_mem_list fun b hb c hc =>
          hw.negTrans (hmid c hc).1 (hmid b hb).2
      · intro b hb c hc
        rcases mem_append.mp hb with hb | hb
        · exact hw.negTrans (hgreater c hc) (hless b hb)
        · exact hw.negTrans (hgreater c hc) (hmid b hb).2
    · exact insertionSortBy_sorted hw l

lemma StdSort.exists_getElem? [DecidableEq α] (hw : StrictWeak lt)
    (ha : a ∈ l) (hle : l.countP (fun b => lt b a) ≤ p)
    (hlt : p < l.countP fun b => !lt a b) : ∃ S : StdSort α, (S.run lt l)[p]? = some a := by
  set L := l.countP fun b => lt b a with hL
  set equal := l.filter fun b => !lt b a && !lt a b with hequal
  have hself : a ∈ equal := mem_filter.mpr ⟨ha, by simp [hw.irrefl a]⟩
  have hsum : (l.countP fun b => !lt a b) = L + equal.length := by
    have hless : (l.filter fun b => lt b a).countP (fun b => !lt a b) = L := by
      rw [hL, countP_eq_length_filter, countP_eq_length_filter, filter_eq_self.mpr]
      intro b hb
      simpa using hw.asymm (mem_filter.mp hb).2
    have hnotless : (l.filter fun b => !lt b a).countP (fun b => !lt a b) = equal.length := by
      rw [countP_eq_length_filter, filter_filter]
      congr 1
      exact filter_congr fun b _ => Bool.and_comm _ _
    rw [countP_eq_countP_filter_add l _ fun b => lt b a, hless, hnotless]
  have herase := length_erase_of_mem hself
  have hsorted : (insertionSortBy lt (l.filter fun b => lt b a)).length = L := by
    rw [(insertionSortBy_perm _ _).length_eq, hL, countP_eq_length_filter]
  have htake : ((equal.erase a).take (p - L)).length = p - L := by
    rw [length_take]
    omega
  refine ⟨StdSort.placing a (p - L), ?_⟩
  simp only [StdSort.placing, if_pos ha, ← hequal]
  rw [append_assoc, getElem?_append_right (by omega), hsorted, append_assoc, getElem?_append_right
    (by omega), htake, Nat.sub_self, cons_append, getElem?_cons_zero]

def StdPartialSort.reversedTail : StdPartialSort α where
  run := fun lt m l => (insertionSortBy lt l).take m ++ ((insertionSortBy lt l).drop m).reverse
  perm := by
    intro lt _ m l
    have h := (reverse_perm ((insertionSortBy lt l).drop m)).append_left
      ((insertionSortBy lt l).take m)
    rw [take_append_drop] at h
    exact h.trans (insertionSortBy_perm lt l)
  sorted := by
    intro lt hw m l
    rw [(take_drop_reverseTail m _).1]
    exact (insertionSortBy_sorted hw l).sublist (take_sublist m _)
  selected := by
    intro lt hw m l a ha b hb
    rw [(take_drop_reverseTail m _).1] at ha
    rw [(take_drop_reverseTail m _).2, mem_reverse] at hb
    have hsorted := insertionSortBy_sorted hw l
    rw [← take_append_drop m (insertionSortBy lt l), pairwise_append] at hsorted
    exact hsorted.2.2 a ha b hb

/-! ### Priority queues -/

structure StdPriorityQueue (α : Type*) where
  push : (α → α → Bool) → List α → α → List α
  pop : (α → α → Bool) → List α → Option (α × List α)
  perm_push : ∀ above l a, (push above l a).Perm (a :: l)
  pop_eq_none : ∀ {above l}, pop above l = none ↔ l = []
  perm_pop : ∀ {above l a rest}, pop above l = some (a, rest) → (a :: rest).Perm l
  top : ∀ {above}, StrictWeak above → ∀ {l a rest}, pop above l = some (a, rest) →
    ∀ b ∈ l, ¬ above b a

namespace StdPriorityQueue

variable (Q : StdPriorityQueue α) (above : α → α → Bool)

def pushAll (l : List α) (as : List α) : List α := as.foldl (Q.push above) l

lemma length_push (l : List α) (a : α) : (Q.push above l a).length = l.length + 1 :=
  (Q.perm_push above l a).length_eq

lemma mem_push : b ∈ Q.push above l a ↔ b = a ∨ b ∈ l := by
  rw [(Q.perm_push above l a).mem_iff, List.mem_cons]

lemma perm_pushAll (l as : List α) : (Q.pushAll above l as).Perm (as ++ l) := by
  induction as generalizing l with
  | nil => exact .refl l
  | cons a as ih =>
    have hstep := ih (Q.push above l a)
    have hpush := (Q.perm_push above l a).append_left as
    exact hstep.trans (hpush.trans List.perm_middle)

lemma exists_pop (h : l ≠ []) : ∃ a rest, Q.pop above l = some (a, rest) := by
  cases hpop : Q.pop above l with
  | none => exact absurd (Q.pop_eq_none.mp hpop) h
  | some p => exact ⟨p.1, p.2, rfl⟩

variable {Q above}

lemma length_pop (h : Q.pop above l = some (a, rest)) : l.length = rest.length + 1 :=
  (Q.perm_pop h).length_eq.symm

def sorting : StdPriorityQueue α where
  push := fun _ l a => a :: l
  pop := fun above l =>
    match insertionSortBy above l with
    | [] => none
    | a :: rest => some (a, rest)
  perm_push := fun _ l a => List.Perm.refl (a :: l)
  pop_eq_none := by
    intro above l
    have hperm := insertionSortBy_perm above l
    cases hs : insertionSortBy above l with
    | nil => simpa [hs] using hperm
    | cons a rest =>
      rw [hs] at hperm
      simp only [reduceCtorEq, false_iff]
      rintro rfl
      exact List.cons_ne_nil a rest hperm.eq_nil
  perm_pop := by
    intro above l a rest h
    have hperm := insertionSortBy_perm above l
    cases hs : insertionSortBy above l with
    | nil => simp [hs] at h
    | cons b rest' =>
      simp only [hs, Option.some.injEq, Prod.mk.injEq] at h
      obtain ⟨rfl, rfl⟩ := h
      rwa [hs] at hperm
  top := by
    intro above hw l a rest h b hb
    have hperm := insertionSortBy_perm above l
    have hsorted := insertionSortBy_sorted hw l
    cases hs : insertionSortBy above l with
    | nil => simp [hs] at h
    | cons c rest' =>
      simp only [hs, Option.some.injEq, Prod.mk.injEq] at h
      obtain ⟨rfl, rfl⟩ := h
      rw [hs] at hperm hsorted
      rcases List.mem_cons.mp (hperm.mem_iff.mpr hb) with rfl | hmem
      · exact hw.irrefl b
      · exact (List.pairwise_cons.mp hsorted).1 b hmem

end StdPriorityQueue

end Rvanns.Cpp
