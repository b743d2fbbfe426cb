import Rvanns.Cpp.Vector
import Rvanns.Knowhere.PrecomputedDistanceIterator

/-!
# What draining the iterator over precomputed distances yields

Filtered rows take part as *fillers*.
-/

namespace Rvanns.Knowhere

open Cpp List DistId StdPartialSort

variable {F : Type*} [LinearOrder F]

/-! ### The comparison -/

lemma DistId.lt_iff (a b : DistId F) : lt a b ↔ toLex (a.val, a.id) < toLex (b.val, b.id) := by
  simp [lt, Prod.Lex.toLex_lt_toLex]

lemma DistId.gt_iff (a b : DistId F) : gt a b ↔ lt b a := by
  have hkey : toLex (a.val, a.id) = toLex (b.val, b.id) ↔ a = b := by
    rw [toLex_inj, Prod.mk.injEq, DistId.ext_iff, and_comm]
  have hgt : gt a b ↔ ¬ lt a b ∧ a ≠ b := by simp [gt]
  rw [hgt, lt_iff, lt_iff, not_lt, ne_eq, ← hkey]
  constructor
  · rintro ⟨hle, hne⟩
    exact lt_of_le_of_ne hle (.symm hne)
  · intro hlt
    exact ⟨hlt.le, hlt.ne'⟩

lemma sortsBefore_strictWeak (larger : Bool) : StrictWeak (sortsBefore (F := F) larger) := by
  have hlt : StrictWeak (lt (F := F)) := StrictWeak.of_key (fun a => toLex (a.val, a.id)) lt_iff
  cases larger with
  | false => exact hlt
  | true =>
    refine ⟨fun {a b} hab => ?_, fun {a b c} hab hbc => ?_⟩
    · simp only [sortsBefore, if_true, gt_iff] at hab ⊢
      exact hlt.asymm hab
    · simp only [sortsBefore, if_true, gt_iff] at hab hbc ⊢
      exact hlt.negTrans hbc hab

lemma sortsBefore_of_better {a b : DistId F}
    (h : Better larger a.val b.val) : sortsBefore larger a b := by
  cases larger with
  | false =>
    simp only [Better, Bool.false_eq_true, if_false] at h
    simp [sortsBefore, lt, h]
  | true =>
    simp only [Better, if_true] at h
    simp only [sortsBefore, if_true, gt_iff]
    simp [lt, h]

namespace PrecomputedDistanceIterator

variable {P : StdPartialSort (DistId F)} {larger : Bool} {l : List (DistId F)}

/-! ### The lazily sorted list -/

structure Inv (larger : Bool) (l : List (DistId F))
    (it : PrecomputedDistanceIterator F) : Prop where
  perm : it.results.Perm l
  sortSize_pos : 0 < it.sortSize
  next_le : it.next ≤ it.sorted
  sorted_le : it.sorted ≤ it.results.length
  sorted : (it.results.take it.sorted).Pairwise fun a b => ¬ sortsBefore larger b a
  selected : ∀ a ∈ it.results.take it.sorted, ∀ b ∈ it.results.drop it.sorted,
    ¬ sortsBefore larger b a

lemma getSortSize_pos (rows : ℕ) : 0 < getSortSize rows := by
  unfold getSortSize
  omega

variable {it : PrecomputedDistanceIterator F}

lemma sortNext_spec (h : Inv larger l it) :
    Inv larger l (sortNext P larger it) ∧
      (sortNext P larger it).next = it.next ∧
      (sortNext P larger it).initialized = it.initialized ∧
      (sortNext P larger it).results.take it.next = it.results.take it.next ∧
      (it.next < l.length → it.next < (sortNext P larger it).sorted) := by
  have hlen := h.perm.length_eq
  have hsize := h.sortSize_pos
  by_cases hlt : it.next < it.sorted
  · have heq : sortNext P larger it = it := if_pos hlt
    rw [heq]
    exact ⟨h, rfl, rfl, rfl, fun _ => hlt⟩
  · have hnext : it.next = it.sorted := by have := h.next_le; omega
    have hle := h.sorted_le
    have hw := sortsBefore_strictWeak (F := F) larger
    -- `m` is the size of the block, `A` what was sorted before and `B` the rest.
    obtain ⟨m, hm⟩ : ∃ m, min it.results.length (it.sorted + it.sortSize) = it.sorted + m :=
      ⟨min it.results.length (it.sorted + it.sortSize) - it.sorted, by omega⟩
    set A := it.results.take it.sorted with hA
    set B := it.results.drop it.sorted with hB
    set B' := P.run (sortsBefore larger) m B with hB'
    have heq : sortNext P larger it =
        { it with results := A ++ B', sorted := it.sorted + m } := by
      simp only [sortNext, if_neg hlt, hm, Nat.add_sub_cancel_left, ← hA, ← hB, ← hB']
    have hAlen : A.length = it.sorted := by rw [hA, length_take, min_eq_left hle]
    have hperm : B'.Perm B := P.perm hw m B
    have hBlen : B'.length = it.results.length - it.sorted := by rw [hperm.length_eq, length_drop]
    have htake : (A ++ B').take (it.sorted + m) = A ++ B'.take m := by
      rw [← hAlen, take_length_add_append]
    have hdrop : (A ++ B').drop (it.sorted + m) = B'.drop m := by
      rw [← hAlen, drop_length_add_append]
    have hcross : ∀ a ∈ A, ∀ b ∈ B', ¬ sortsBefore larger b a := fun a ha b hb =>
      h.selected a ha b (hperm.mem_iff.mp hb)
    rw [heq]
    refine ⟨⟨?_, hsize, ?_, ?_, ?_, ?_⟩, rfl, rfl, ?_, ?_⟩
    · have hAB : (A ++ B').Perm (A ++ B) := hperm.append_left A
      rw [hB, take_append_drop] at hAB
      exact hAB.trans h.perm
    · show it.next ≤ it.sorted + m
      omega
    · show it.sorted + m ≤ (A ++ B').length
      rw [length_append, hBlen]
      omega
    · rw [htake]
      refine pairwise_append.mpr ⟨h.sorted, P.sorted hw m B, fun a ha b hb => ?_⟩
      exact hcross a ha b (mem_of_mem_take hb)
    · rw [htake, hdrop]
      intro a ha b hb
      rcases mem_append.mp ha with ha | ha
      · exact hcross a ha b (mem_of_mem_drop hb)
      · exact P.selected hw m B a ha b hb
    · rw [hnext, take_left' hAlen]
    · intro hl
      show it.next < it.sorted + m
      omega

variable (P larger l) in
lemma initializeIfNeeded_spec : Inv larger l (initializeIfNeeded P larger l {}) ∧
      (initializeIfNeeded P larger l {}).next = 0 ∧
      (initializeIfNeeded P larger l {}).initialized = true ∧
      (initializeIfNeeded P larger l {}).sorted = min l.length (getSortSize l.length) := by
  have hinv : Inv larger l
      { results := l, sortSize := getSortSize l.length : PrecomputedDistanceIterator F } :=
    { perm := .refl l
      sortSize_pos := getSortSize_pos _
      next_le := le_rfl
      sorted_le := Nat.zero_le _
      sorted := by simp
      selected := by simp }
  obtain ⟨h, hnext, -, -, -⟩ := sortNext_spec (P := P) hinv
  refine ⟨⟨h.perm, h.sortSize_pos, h.next_le, h.sorted_le, h.sorted, h.selected⟩, hnext, rfl, ?_⟩
  simp [initializeIfNeeded, sortNext]

lemma initializeIfNeeded_of_initialized
    (h : it.initialized = true) : initializeIfNeeded P larger l it = it := by
  simp [initializeIfNeeded, h]

lemma nextCall_spec (h : Inv larger l it)
    (hinit : it.initialized = true) (hn : it.next < l.length) :
    ∃ result it', nextCall P larger l it = some (result, it') ∧
      Inv larger l it' ∧ it'.initialized = true ∧ it'.next = it.next + 1 ∧
      it'.results.take it'.next = it.results.take it.next ++ [result] := by
  obtain ⟨hs, hnext, hsinit, htake, hsorted⟩ := sortNext_spec (P := P) h
  have hlt : it.next < (sortNext P larger it).results.length := by
    rw [hs.perm.length_eq]
    exact hn
  have hget := getElem?_eq_getElem hlt
  refine ⟨(sortNext P larger it).results[it.next],
    { sortNext P larger it with next := it.next + 1 }, ?_, ?_, ?_, rfl, ?_⟩
  · simp only [nextCall, initializeIfNeeded_of_initialized hinit, hnext, hget, Option.map_some]
  · exact ⟨hs.perm, hs.sortSize_pos, hsorted hn, hs.sorted_le, hs.sorted, hs.selected⟩
  · rw [← hinit, ← hsinit]
  · rw [← htake]
    exact take_succ_eq_append_getElem hlt

variable (P larger l) in
lemma hasNext_of_initialized (hinit : it.initialized = true) : hasNext P larger l it =
      ((it.results[it.next]?.map fun result => result.id != -1).getD false, it) := by
  rw [hasNext, initializeIfNeeded_of_initialized hinit]
  cases it.results[it.next]? <;> rfl

/-! ### Draining -/

lemma iterate_eq_drain : iterate P larger l =
      drain P larger l (l.length + 1) (initializeIfNeeded P larger l {}) := by
  obtain ⟨-, -, hinit, -⟩ := initializeIfNeeded_spec P larger l
  have hhas : hasNext P larger l (initializeIfNeeded P larger l {}) =
      hasNext P larger l {} := by
    rw [hasNext, initializeIfNeeded_of_initialized hinit, hasNext]
  rw [iterate, drain, drain, hhas]

lemma drain_succ_of_valid (hinit : it.initialized = true) (hget : it.results[it.next]? = some e)
    (hid : e.id ≠ -1) (hcall : nextCall P larger l it = some (result, it'))
    (hrest : drain P larger l fuel it' = some rest) :
    drain P larger l (fuel + 1) it = some (result :: rest) := by
  simp [drain, hasNext_of_initialized P larger l hinit, hget, hid, hcall, hrest]

lemma drain_succ_of_end (hinit : it.initialized = true)
    (hend : ∀ e ∈ it.results[it.next]?, e.id = -1) :
    drain P larger l (fuel + 1) it = some [] := by
  have hhas := hasNext_of_initialized P larger l hinit
  cases hget : it.results[it.next]? with
  | none => simp [drain, hhas, hget]
  | some e => simp [drain, hhas, hget, hend e hget]

lemma drain_of_no_filler (hid : ∀ e ∈ l, e.id ≠ -1) (fuel : ℕ)
    (it : PrecomputedDistanceIterator F) (h : Inv larger l it)
    (hinit : it.initialized = true) (hfuel : l.length < it.next + fuel) :
    ∃ rest, drain P larger l fuel it = some rest ∧
      (it.results.take it.next ++ rest).Perm l ∧
      (it.results.take it.next ++ rest).Pairwise fun a b => ¬ sortsBefore larger b a := by
  induction fuel generalizing it with
  | zero =>
    have hle := h.next_le.trans h.sorted_le
    rw [h.perm.length_eq] at hle
    omega
  | succ fuel ih =>
    by_cases hn : it.next < l.length
    · have hlt : it.next < it.results.length := by rwa [h.perm.length_eq]
      have hvalid : it.results[it.next].id ≠ -1 := hid _ (h.perm.mem_iff.mp (getElem_mem hlt))
      obtain ⟨result, it', hcall, h', hinit', hnext', htake'⟩ := nextCall_spec (P := P) h hinit hn
      obtain ⟨rest, hrest, hperm, hsorted⟩ := ih it' h' hinit' (by omega)
      rw [htake', append_assoc, singleton_append] at hperm hsorted
      refine ⟨result :: rest, ?_, hperm, hsorted⟩
      exact drain_succ_of_valid hinit (getElem?_eq_getElem hlt) hvalid hcall hrest
    · -- Everything has been returned, so everything is sorted.
      have hall : it.results.length ≤ it.next := by
        rw [h.perm.length_eq]
        omega
      have hend : it.sorted = it.results.length := by
        have := h.next_le
        have := h.sorted_le
        omega
      have hsorted := h.sorted
      rw [hend, take_length] at hsorted
      refine ⟨[], drain_succ_of_end hinit (by simp [getElem?_eq_none hall]), ?_⟩
      rw [append_nil, take_of_length_le hall]
      exact ⟨h.perm, hsorted⟩

variable (P larger l) in
lemma drain_of_valid_prefix (hV : ∀ e ∈ V, e.id ≠ -1) (hW : ∀ e ∈ W.head?, e.id = -1) (fuel : ℕ)
    (it : PrecomputedDistanceIterator F) (hinit : it.initialized = true)
    (hres : it.results = V ++ W) (hsorted : V.length ≤ it.sorted) (hnext : it.next ≤ V.length)
    (hfuel : V.length < it.next + fuel) :
    drain P larger l fuel it = some (V.drop it.next) := by
  induction fuel generalizing it with
  | zero => omega
  | succ fuel ih =>
    by_cases hn : it.next < V.length
    · have hget : it.results[it.next]? = some V[it.next] := by
        rw [hres, getElem?_append_left hn, getElem?_eq_getElem hn]
      have hsort : sortNext P larger it = it := if_pos (by omega)
      have hcall : nextCall P larger l it =
          some (V[it.next], { it with next := it.next + 1 }) := by
        simp only [nextCall, initializeIfNeeded_of_initialized hinit, hsort, hget, Option.map_some]
      have hrest := ih { it with next := it.next + 1 } hinit hres hsorted hn (by simp only; omega)
      rw [drop_eq_getElem_cons hn]
      exact drain_succ_of_valid hinit hget (hV _ (getElem_mem hn)) hcall hrest
    · have heq : it.next = V.length := by omega
      have hget : it.results[it.next]? = W.head? := by
        rw [hres, heq, getElem?_append_right le_rfl, Nat.sub_self, head?_eq_getElem?]
      rw [drain_succ_of_end hinit (hget ▸ hW), heq, drop_length]

/-! ### Arbitrary calls -/

lemma nextCall_eq_none (h : Inv larger l it)
    (hinit : it.initialized = true) (hn : l.length ≤ it.next) :
    nextCall P larger l it = none := by
  obtain ⟨hs, hnext, -, -, -⟩ := sortNext_spec (P := P) h
  have hnone : (sortNext P larger it).results[it.next]? = none := by
    refine getElem?_eq_none ?_
    rw [hs.perm.length_eq]
    exact hn
  simp only [nextCall, initializeIfNeeded_of_initialized hinit, hnext, hnone, Option.map_none]

lemma mem_of_runCalls_inv (calls : List Call) (it : PrecomputedDistanceIterator F)
    (returned : List (DistId F)) (h : Inv larger l it) (hinit : it.initialized = true)
    (hrun : runCalls P larger l calls it = some returned) : ∀ r ∈ returned, r ∈ l := by
  induction calls generalizing it returned with
  | nil =>
    intro r hr
    obtain rfl : [] = returned := by simpa [runCalls] using hrun
    cases hr
  | cons call calls ih =>
    intro r hr
    cases call with
    | hasNext =>
      rw [runCalls, hasNext_of_initialized P larger l hinit] at hrun
      exact ih it returned h hinit hrun r hr
    | next =>
      rcases Nat.lt_or_ge it.next l.length with hn | hn
      · obtain ⟨result, it', hcall, h', hinit', -, htake⟩ := nextCall_spec (P := P) h hinit hn
        simp only [runCalls, hcall, some_bind] at hrun
        obtain ⟨rest, hrest, hcons⟩ := Option.bind_eq_some_iff.mp hrun
        obtain rfl : result :: rest = returned := Option.some.inj hcons
        rcases mem_cons.mp hr with rfl | hr
        · have hmem : r ∈ it'.results.take it'.next := by rw [htake]; simp
          exact h'.perm.mem_iff.mp (mem_of_mem_take hmem)
        · exact ih it' rest h' hinit' hrest r hr
      · simp [runCalls, nextCall_eq_none h hinit hn] at hrun

variable (P larger l) in
lemma runCalls_initialized (calls : List Call) :
    runCalls P larger l calls (initializeIfNeeded P larger l {}) =
      runCalls P larger l calls {} ∨ calls = [] := by
  obtain ⟨-, -, hinit, -⟩ := initializeIfNeeded_spec P larger l
  cases calls with
  | nil => exact .inr rfl
  | cons call calls =>
    left
    cases call with
    | hasNext => rw [runCalls, runCalls, hasNext, initializeIfNeeded_of_initialized hinit, hasNext]
    | next => rw [runCalls, runCalls, nextCall, initializeIfNeeded_of_initialized hinit, nextCall]

lemma mem_of_runCalls
    (hrun : runCalls P larger l calls {} = some returned) : ∀ r ∈ returned, r ∈ l := by
  obtain ⟨h, -, hinit, -⟩ := initializeIfNeeded_spec P larger l
  rcases runCalls_initialized P larger l calls with heq | rfl
  · rw [← heq] at hrun
    exact mem_of_runCalls_inv calls _ returned h hinit hrun
  · obtain rfl : [] = returned := by simpa [runCalls] using hrun
    simp

lemma runCalls_replicate_next (n : ℕ) (it : PrecomputedDistanceIterator F)
    (h : Inv larger l it) (hinit : it.initialized = true) (hn : it.next + n = l.length) :
    ∃ rest, runCalls P larger l (List.replicate n .next) it = some rest ∧
      (it.results.take it.next ++ rest).Perm l := by
  induction n generalizing it with
  | zero =>
    refine ⟨[], rfl, ?_⟩
    rw [append_nil, take_of_length_le (by rw [h.perm.length_eq]; omega)]
    exact h.perm
  | succ n ih =>
    obtain ⟨result, it', hcall, h', hinit', hnext', htake⟩ :=
      nextCall_spec (P := P) h hinit (by omega)
    obtain ⟨rest, hrest, hperm⟩ := ih it' h' hinit' (by omega)
    rw [htake, append_assoc] at hperm
    refine ⟨result :: rest, ?_, hperm⟩
    simp only [replicate_succ, runCalls, hcall, hrest, some_bind]

lemma exists_runCalls_perm (P : StdPartialSort (DistId F)) (larger : Bool) (l : List (DistId F)) :
    ∃ calls returned, runCalls P larger l calls {} = some returned ∧ returned.Perm l := by
  obtain ⟨h, hnext, hinit, -⟩ := initializeIfNeeded_spec P larger l
  obtain ⟨rest, hrest, hperm⟩ := runCalls_replicate_next (P := P) l.length _ h hinit (by omega)
  rw [hnext, take_zero, nil_append] at hperm
  rcases runCalls_initialized P larger l (List.replicate l.length .next) with heq | hnil
  · exact ⟨_, rest, heq ▸ hrest, hperm⟩
  · obtain rfl : l = [] := by simpa using hnil
    exact ⟨[], [], rfl, .refl _⟩

/-! ### Fillers -/

def isValid (e : DistId F) : Bool := e.id != -1

def FillersAtWorst (larger : Bool) (worst : F) (l : List (DistId F)) : Prop :=
  ∀ e ∈ l, (e.id = -1 ∧ e.val = worst) ∨ (e.id ≠ -1 ∧ Better larger e.val worst)

def YieldsAllValid (P : StdPartialSort (DistId F)) (larger : Bool) (l : List (DistId F)) : Prop :=
  ∃ ys, iterate P larger l = some ys ∧ ys.Perm (l.filter isValid) ∧
    ys.Pairwise fun a b => ¬ Better larger b.val a.val

variable {worst : F}

omit [LinearOrder F] in
lemma isValid_iff (e : DistId F) : isValid e ↔ e.id ≠ -1 := by
  simp [isValid]

lemma FillersAtWorst.sortsBefore (hf : FillersAtWorst larger worst l) {a b : DistId F}
    (ha : a ∈ l) (hb : b ∈ l) (hva : isValid a) (hvb : ¬ isValid b) :
    sortsBefore larger a b := by
  rw [isValid_iff] at hva hvb
  rcases hf a ha with ⟨ha1, -⟩ | ⟨-, hbetter⟩
  · exact absurd ha1 hva
  · rcases hf b hb with ⟨-, hval⟩ | ⟨hb1, -⟩
    · rw [← hval] at hbetter
      exact sortsBefore_of_better hbetter
    · exact absurd hb1 hvb

lemma FillersAtWorst.valid_first (hf : FillersAtWorst larger worst l)
    {s : List (DistId F)} (hmem : ∀ e ∈ s, e ∈ l)
    (hs : s.Pairwise fun a b => ¬ Knowhere.sortsBefore larger b a) :
    s.Pairwise fun a b => isValid b → isValid a := by
  refine hs.imp_of_mem fun {a b} ha hb hab hvb => ?_
  by_contra hva
  exact hab (hf.sortsBefore (hmem b hb) (hmem a ha) hvb hva)

lemma pairwise_not_better {s : List (DistId F)}
    (hs : s.Pairwise fun a b => ¬ sortsBefore larger b a) :
    s.Pairwise fun a b => ¬ Better larger b.val a.val :=
  hs.imp fun {_ _} hab hbetter => hab (sortsBefore_of_better hbetter)

lemma yieldsAllValid_of_no_filler (hid : ∀ e ∈ l, e.id ≠ -1) : YieldsAllValid P larger l := by
  obtain ⟨h, hnext, hinit, -⟩ := initializeIfNeeded_spec P larger l
  obtain ⟨ys, hdrain, hperm, hsorted⟩ :=
    drain_of_no_filler (P := P) hid (l.length + 1) _ h hinit (by omega)
  rw [hnext, take_zero, nil_append] at hperm hsorted
  have hall : l.filter isValid = l := filter_eq_self.mpr fun e he => (isValid_iff e).mpr (hid e he)
  refine ⟨ys, iterate_eq_drain.trans hdrain, ?_, pairwise_not_better hsorted⟩
  rwa [hall]

section

variable (hf : FillersAtWorst larger worst l)

include hf

lemma valid_first_of_le (hle : (l.filter isValid).length ≤ getSortSize l.length) :
    (initializeIfNeeded P larger l {}).results.Pairwise
      fun a b => isValid b → isValid a := by
  obtain ⟨h, -, -, hend⟩ := initializeIfNeeded_spec P larger l
  set it := initializeIfNeeded P larger l {} with hit
  have hmem : ∀ e ∈ it.results, e ∈ l := fun e he => h.perm.mem_iff.mp he
  have hT : ∀ e ∈ it.results.take it.sorted, e ∈ l := fun e he =>
    hmem e (mem_of_mem_take he)
  have hD : ∀ e ∈ it.results.drop it.sorted, e ∈ l := fun e he =>
    hmem e (mem_of_mem_drop he)
  have hcross : ∀ a ∈ it.results.take it.sorted, ∀ b ∈ it.results.drop it.sorted,
      isValid b → isValid a := by
    intro a ha b hb hvb
    by_contra hva
    exact h.selected a ha b hb (hf.sortsBefore (hD b hb) (hT a ha) hvb hva)
  -- A valid entry outside the block would make more valid entries than the block can hold.
  have hnone : ∀ b ∈ it.results.drop it.sorted, ¬ isValid b := by
    intro b hb hvb
    have hfilter : (it.results.filter isValid).length = (l.filter isValid).length :=
      (h.perm.filter _).length_eq
    rw [← take_append_drop it.sorted it.results, filter_append, length_append,
      filter_eq_self.mpr fun a ha => hcross a ha b hb hvb, length_take] at hfilter
    have hpos := length_pos_of_mem (mem_filter.mpr ⟨hb, hvb⟩)
    have hdrop := length_pos_of_mem hb
    rw [length_drop, h.perm.length_eq] at hdrop
    rw [h.perm.length_eq] at hfilter
    omega
  rw [← take_append_drop it.sorted it.results]
  refine pairwise_append.mpr ⟨hf.valid_first hT h.sorted, ?_, hcross⟩
  exact pairwise_of_forall_mem_list fun a _ b hb hvb => absurd hvb (hnone b hb)

lemma yieldsAllValid_of_le (hle : (l.filter isValid).length ≤ getSortSize l.length) :
    YieldsAllValid P larger l := by
  obtain ⟨h, hnext, hinit, hend⟩ := initializeIfNeeded_spec P larger l
  have hsplit := eq_filter_append_filter (valid_first_of_le (P := P) hf hle)
  set it := initializeIfNeeded P larger l {} with hit
  set V := it.results.filter isValid with hV
  set W := it.results.filter fun e => !isValid e with hW
  have hperm : V.Perm (l.filter isValid) := h.perm.filter _
  have hlen : V.length ≤ it.sorted := by
    have := length_filter_le isValid l
    rw [hperm.length_eq]
    omega
  have hvalid : ∀ e ∈ V, e.id ≠ -1 := fun e he =>
    (isValid_iff e).mp (mem_filter.mp he).2
  have hfiller : ∀ e ∈ W.head?, e.id = -1 := by
    intro e he
    have := (mem_filter.mp (mem_of_mem_head? he)).2
    simpa [isValid] using this
  have hdrain := drain_of_valid_prefix P larger l hvalid hfiller
    (l.length + 1) it hinit hsplit hlen (by omega) (by
      have := length_filter_le isValid l
      rw [hperm.length_eq]
      omega)
  rw [hnext, drop_zero] at hdrain
  refine ⟨V, iterate_eq_drain.trans hdrain, hperm, pairwise_not_better ?_⟩
  have hsub : V.Sublist (it.results.take it.sorted) := by
    have hpre : V <+: it.results := ⟨W, hsplit.symm⟩
    have htake := take_prefix it.sorted it.results
    refine (prefix_of_prefix_length_le hpre htake ?_).sublist
    rw [length_take]
    exact le_min hlen hpre.length_le
  exact h.sorted.sublist hsub

lemma not_yieldsAllValid_of_lt
    (hfiller : ∃ e ∈ l, ¬ isValid e) (hlt : getSortSize l.length < (l.filter isValid).length) :
    ¬ YieldsAllValid reversedTail larger l := by
  rintro ⟨ys, hys, hperm, -⟩
  obtain ⟨-, hnext, hinit, hend⟩ := initializeIfNeeded_spec reversedTail larger l
  have hw := sortsBefore_strictWeak (F := F) larger
  have hle := length_filter_le isValid l
  set s := insertionSortBy (Knowhere.sortsBefore larger) l with hs
  set S := getSortSize l.length with hS
  have hsperm : s.Perm l := insertionSortBy_perm _ l
  have hsplit := eq_filter_append_filter
    (hf.valid_first (fun e he => hsperm.mem_iff.mp he) (insertionSortBy_sorted hw l))
  set V := s.filter isValid with hV
  set W := s.filter fun e => !isValid e with hW
  have hVlen : V.length = (l.filter isValid).length := (hsperm.filter _).length_eq
  have hWne : W ≠ [] := by
    obtain ⟨e, he, hve⟩ := hfiller
    exact ne_nil_of_mem (mem_filter.mpr ⟨hsperm.mem_iff.mpr he, by simpa using hve⟩)
  have hstake : s.take S = V.take S := by rw [hsplit, take_append_of_le_length (by omega)]
  have hsdrop : s.drop S = V.drop S ++ W := by rw [hsplit, drop_append_of_le_length (by omega)]
  -- The list after the first call: the first block, and then the fillers.
  have hres : (initializeIfNeeded reversedTail larger l {}).results =
      V.take S ++ (W.reverse ++ (V.drop S).reverse) := by
    have hmin : min l.length S = S := by omega
    simp only [initializeIfNeeded, sortNext, lt_irrefl, if_false, Bool.false_eq_true,
      take_zero, drop_zero, nil_append, Nat.zero_add, Nat.sub_zero, ← hS, hmin,
      reversedTail, ← hs, hstake, hsdrop, reverse_append]
  have hvalid : ∀ e ∈ V.take S, e.id ≠ -1 := fun e he =>
    (isValid_iff e).mp (mem_filter.mp (mem_of_mem_take he)).2
  have hhead : ∀ e ∈ (W.reverse ++ (V.drop S).reverse).head?, e.id = -1 := by
    intro e he
    rw [head?_append_of_ne_nil _ (by simpa using hWne)] at he
    have := (mem_filter.mp (mem_reverse.mp (mem_of_mem_head? he))).2
    simpa [isValid] using this
  have hlen : (V.take S).length = S := by rw [length_take]; omega
  have hdrain := drain_of_valid_prefix reversedTail larger l hvalid hhead
    (l.length + 1) _ hinit hres (by omega) (by omega) (by omega)
  rw [hnext, drop_zero, ← iterate_eq_drain, hys, Option.some.injEq] at hdrain
  have := hperm.length_eq
  rw [hdrain, hlen] at this
  omega

end

/-- **Draining the iterator**: whatever order `partial_sort` leaves the unsorted entries in, the
loop yields every valid entry once and best first, exactly when there is no filler or the valid
entries fit into the first block. -/
theorem yieldsAllValid_iff (hf : FillersAtWorst larger worst l) :
    (∀ P, YieldsAllValid P larger l) ↔
      (∀ e ∈ l, e.id ≠ -1) ∨ (l.filter isValid).length ≤ getSortSize l.length := by
  constructor
  · intro h
    by_contra hne
    simp only [not_or, not_forall, not_le] at hne
    obtain ⟨⟨e, he, hid⟩, hlt⟩ := hne
    have hfiller : ∃ e ∈ l, ¬ isValid e := ⟨e, he, by rwa [isValid_iff]⟩
    exact not_yieldsAllValid_of_lt hf hfiller hlt (h _)
  · rintro (hid | hle) P
    · exact yieldsAllValid_of_no_filler hid
    · exact yieldsAllValid_of_le hf hle

/-- Two valid entries and a filler between them. -/
theorem yieldsAllValid_iff_three :
    FillersAtWorst false 100 [⟨5, 3⟩, ⟨-1, 100⟩, ⟨2, (1 : ℤ)⟩] ∧
      ∀ P, YieldsAllValid P false [⟨5, 3⟩, ⟨-1, 100⟩, ⟨2, (1 : ℤ)⟩] := by
  have hf : FillersAtWorst false 100 [⟨5, 3⟩, ⟨-1, 100⟩, ⟨2, (1 : ℤ)⟩] := by
    simp [FillersAtWorst, Better]
  exact ⟨hf, (yieldsAllValid_iff hf).mpr (.inr (by decide))⟩

def longList : List (DistId ℤ) := (List.range 50001).map (fun i => ⟨i, i⟩) ++ [⟨-1, 100000⟩]

theorem not_yieldsAllValid_longList :
    FillersAtWorst false 100000 longList ∧ ¬ ∀ P, YieldsAllValid P false longList := by
  have hf : FillersAtWorst false 100000 longList := by
    intro e he
    rcases mem_append.mp he with he | he
    · obtain ⟨i, hi, rfl⟩ := mem_map.mp he
      rw [mem_range] at hi
      exact .inr ⟨by simp only; omega, by simp only [Better, Bool.false_eq_true, if_false]; omega⟩
    · rw [mem_singleton.mp he]
      exact .inl ⟨rfl, rfl⟩
  have hvalid : longList.filter isValid = (List.range 50001).map fun i => ⟨i, i⟩ := by
    have hfiller : [(⟨-1, 100000⟩ : DistId ℤ)].filter isValid = [] := rfl
    rw [longList, filter_append, hfiller, append_nil]
    refine filter_eq_self.mpr fun e he => ?_
    obtain ⟨i, -, rfl⟩ := mem_map.mp he
    rw [isValid_iff]
    simp only
    omega
  refine ⟨hf, fun h => not_yieldsAllValid_of_lt hf ?_ ?_ (h _)⟩
  · exact ⟨⟨-1, 100000⟩, by simp [longList], by decide⟩
  · rw [hvalid, longList]
    simp [getSortSize]

end PrecomputedDistanceIterator

end Rvanns.Knowhere
