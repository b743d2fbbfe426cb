import Rvanns.Cpp.Float
import Rvanns.Knowhere.Equiv.PrecomputedDistanceIterator
import Rvanns.Knowhere.IndexIterator

/-!
# When the superclass of the iterators returns refined distances

`UpdateNext` refines only when a batch is not empty.
-/

namespace Rvanns.Knowhere

open Cpp List

/-! ### How many elements are refined ahead of time -/

namespace IndexIterator

/-- With up to `total` elements the product with the ratio is a float that `size_t` can hold, and
the rounding is one: it keeps the order and zero. -/
structure ScalesWithin (p : IteratorParams) (total : ℕ) : Prop where
  ratio_pos : 0 < p.refineRatio
  round_mono : Monotone p.round
  round_zero : p.round 0 = 0
  lt : scaledSize p total < 2 ^ 64

section

variable {p : IteratorParams} {total : ℕ} (h : ScalesWithin p total)

include h

lemma ScalesWithin.scaledSize_mono : Monotone (scaledSize p) := by
  intro m n hle
  apply h.round_mono
  exact mul_le_mul_of_nonneg_right (h.round_mono (by exact_mod_cast hle)) h.ratio_pos.le

lemma ScalesWithin.of_le (hle : n ≤ total) : ScalesWithin p n where
  ratio_pos := h.ratio_pos
  round_mono := h.round_mono
  round_zero := h.round_zero
  lt := (h.scaledSize_mono hle).trans_lt h.lt

lemma ScalesWithin.minRefineSize_eq :
    minRefineSize p total = .ok (max 20 ⌊scaledSize p total⌋₊) := by
  have hzero : scaledSize p 0 = 0 := by
    rw [scaledSize, Nat.cast_zero, h.round_zero, zero_mul, h.round_zero]
  have hnonneg : 0 ≤ scaledSize p total := hzero ▸ h.scaledSize_mono (Nat.zero_le total)
  rw [minRefineSize, sizeOfFloat, if_pos ⟨by linarith, h.lt⟩]
  rfl

end

end IndexIterator

open IndexIterator

/-- Refining stops with `f` of `total` elements refined. -/
def Enough (p : IteratorParams) (total f : ℕ) : Prop :=
  f = total ∨ 20 ≤ f ∧ ⌊scaledSize p (total - f)⌋₊ ≤ f

instance (p : IteratorParams) (total f : ℕ) : Decidable (Enough p total f) :=
  inferInstanceAs (Decidable (_ ∨ _))

lemma exists_enough (p : IteratorParams) (total : ℕ) : ∃ f, Enough p total f :=
  ⟨total, .inl rfl⟩

/-- How many of `total` elements are refined when a batch has been handled. -/
def quota (p : IteratorParams) (total : ℕ) : ℕ := Nat.find (exists_enough p total)

lemma quota_le (p : IteratorParams) (total : ℕ) : quota p total ≤ total :=
  Nat.find_min' _ (.inl rfl)

lemma Enough.mono (hscales : ScalesWithin p n) (h : Enough p total f)
    (hle : f ≤ f') (htotal : f' ≤ total) : Enough p total f' := by
  rcases h with rfl | ⟨h20, hshare⟩
  · exact .inl (by omega)
  · right
    refine ⟨by omega, ?_⟩
    calc ⌊scaledSize p (total - f')⌋₊ ≤ ⌊scaledSize p (total - f)⌋₊ :=
          Nat.floor_le_floor (hscales.scaledSize_mono (by omega))
      _ ≤ f := hshare
      _ ≤ f' := hle

lemma enough_iff (hscales : ScalesWithin p n) (hf : f ≤ total) :
    Enough p total f ↔ quota p total ≤ f := by
  constructor
  · exact fun h => Nat.find_min' _ h
  · exact fun h => (Nat.find_spec (exists_enough p total)).mono hscales h hf

/-- How many elements wait after `m` calls, with batches of these sizes. -/
def pending (sz : ℕ → ℕ) : ℕ → ℕ
  | 0 => sz 0
  | m + 1 => if pending sz m = 0 then 0 else pending sz m - 1 + sz (m + 1)

/-- At every call for which an element waits, some batch that was not empty came fewer calls ago
than it left elements refined. -/
def Refreshed (p : IteratorParams) (sz : ℕ → ℕ) : Prop :=
  ∀ m, 0 < pending sz m →
    ∃ j ≤ m, 0 < sz j ∧ m < j + quota p (pending sz j)

namespace IndexIterator

variable {F B : Type} [LinearOrder F] [Neg F]

/-- How many elements wait in the two heaps. -/
def queued (it : IndexIterator F B) : ℕ := it.res.length + it.refinedRes.length

section Refine

variable (Q : StdPriorityQueue (DistId F)) (p : IteratorParams) (raw : ℤ → F)

def IsRefined (e : DistId F) : Prop := e.val = signed p (raw e.id)

omit [LinearOrder F] [Neg F] in
lemma refinesMore_eq {res refined : List (DistId F)} (hscales : ScalesWithin p res.length) :
    refinesMore p res refined =
      .ok (!decide (Enough p (res.length + refined.length) refined.length)) := by
  unfold refinesMore Enough
  rw [hscales.minRefineSize_eq]
  cases res with
  | nil => simp [pure, Except.pure]
  | cons a res =>
    cases refined with
    | nil => simp [pure, Except.pure]
    | cons b refined =>
      have hshort : ∀ k : ℕ, decide (refined.length + 1 < k) = !decide (k ≤ refined.length + 1) :=
        fun k => by rw [← decide_not, decide_eq_decide, not_le]
      simp [pure, Except.pure, ok_bind, hshort]

lemma refineLoop_spec (fuel : ℕ) (res refined : List (DistId F)) (hfuel : res.length ≤ fuel)
    (hscales : ScalesWithin p (res.length + refined.length)) :
    ∃ res' refined', refineLoop Q p raw fuel res refined = .ok (res', refined') ∧
      res'.length + refined'.length = res.length + refined.length ∧
      refined'.length =
        max refined.length (quota p (res.length + refined.length)) ∧
      ∀ e ∈ refined', e ∈ refined ∨ IsRefined p raw e := by
  induction fuel generalizing res refined with
  | zero =>
    have hnil : res = [] := length_eq_zero_iff.mp (Nat.le_zero.mp hfuel)
    subst hnil
    refine ⟨[], refined, rfl, rfl, ?_, fun e he => .inl he⟩
    have hquota := quota_le p refined.length
    rw [length_nil, zero_add]
    omega
  | succ fuel ih =>
    rw [refineLoop, refinesMore_eq p (hscales.of_le (Nat.le_add_right _ _)), ok_bind]
    by_cases henough : Enough p (res.length + refined.length) refined.length
    · have hquota := (enough_iff hscales (Nat.le_add_left _ _)).mp henough
      simp only [henough, decide_true, Bool.not_true, Bool.false_eq_true, if_false]
      exact ⟨res, refined, rfl, rfl, by omega, fun e he => .inl he⟩
    · have hne : res ≠ [] := by
        rintro rfl
        exact henough (.inl (zero_add _).symm)
      obtain ⟨top, rest, hpop⟩ := Q.exists_pop above hne
      have hlen := StdPriorityQueue.length_pop hpop
      set pushed := Q.push above refined ⟨top.id, signed p (raw top.id)⟩ with hpushed
      have hpushedLen : pushed.length = refined.length + 1 := Q.length_push _ _ _
      -- One more is refined, but not yet as many as the quota.
      have hsum : rest.length + pushed.length = res.length + refined.length := by omega
      have hnot := (enough_iff hscales (Nat.le_add_left _ _)).not.mp henough
      obtain ⟨res', refined', heq, htotal, hquota, hrefined⟩ :=
        ih rest pushed (by omega) (hsum ▸ hscales)
      rw [hsum] at htotal hquota
      simp only [henough, decide_false, Bool.not_false, if_true, hpop]
      refine ⟨res', refined', heq, htotal, by omega, fun e he => ?_⟩
      rcases hrefined e he with hmem | hexact
      · rcases (Q.mem_push above).mp hmem with rfl | hold
        · exact .inr rfl
        · exact .inl hold
      · exact .inr hexact

omit [Neg F] in
/-- The refined elements go first. -/
lemma popQueue_cases (h : popQueue Q it = some (top, it')) :
    it.refinedRes = [] ∧ Q.pop above it.res = some (top, it'.res) ∧
        it' = { it with res := it'.res } ∨
      it.refinedRes ≠ [] ∧ Q.pop above it.refinedRes = some (top, it'.refinedRes) ∧
        it' = { it with refinedRes := it'.refinedRes } := by
  unfold popQueue at h
  by_cases hempty : it.refinedRes = []
  · rw [if_pos (by simp [hempty])] at h
    obtain ⟨_, hpop, ⟨⟩⟩ := Option.map_eq_some_iff.mp h
    exact .inl ⟨hempty, hpop, rfl⟩
  · rw [if_neg (by simpa using hempty)] at h
    obtain ⟨_, hpop, ⟨⟩⟩ := Option.map_eq_some_iff.mp h
    exact .inr ⟨hempty, hpop, rfl⟩

omit [Neg F] in
lemma popQueue_spec (h : popQueue Q it = some (top, it')) :
    it'.initialized = it.initialized ∧ it'.source = it.source ∧ it.queued = it'.queued + 1 ∧
      it'.refinedRes.length = it.refinedRes.length - 1 ∧
      (∀ e ∈ it'.refinedRes, e ∈ it.refinedRes) ∧
      top ∈ (if it.refinedRes = [] then it.res else it.refinedRes) := by
  unfold queued
  rcases popQueue_cases Q h with ⟨hempty, hpop, heq⟩ | ⟨hempty, hpop, heq⟩
  · have hlen := StdPriorityQueue.length_pop hpop
    rw [if_pos hempty, heq]
    exact ⟨rfl, rfl, by dsimp only; omega, by simp [hempty], fun e he => he,
      (Q.perm_pop hpop).mem_iff.mp mem_cons_self⟩
  · have hlen := StdPriorityQueue.length_pop hpop
    have hperm := Q.perm_pop hpop
    rw [if_neg hempty, heq]
    exact ⟨rfl, rfl, by dsimp only; omega, by dsimp only; omega,
      fun e he => hperm.mem_iff.mp (mem_cons_of_mem top he), hperm.mem_iff.mp mem_cons_self⟩

omit [Neg F] in
lemma popQueue_eq_none : popQueue Q it = none ↔ it.queued = 0 := by
  unfold popQueue queued
  by_cases hempty : it.refinedRes = []
  · rw [if_pos (by simp [hempty]), Option.map_eq_none_iff, Q.pop_eq_none, hempty]
    simp
  · rw [if_neg (by simpa using hempty), Option.map_eq_none_iff, Q.pop_eq_none]
    simp [hempty]

lemma handleBatch_spec (it : IndexIterator F B) (batch : List (DistId F))
    (hscales : ScalesWithin p (it.queued + batch.length)) :
    ∃ res refined, handleBatch Q p raw it batch =
        .ok { it with res := res, refinedRes := refined } ∧
      res.length + refined.length = it.queued + batch.length ∧
      refined.length = (if batch.length = 0 then it.refinedRes.length
        else max it.refinedRes.length (quota p (it.queued + batch.length))) ∧
      ∀ e ∈ refined, e ∈ it.refinedRes ∨ IsRefined p raw e := by
  unfold handleBatch
  by_cases hbatch : batch = []
  · subst hbatch
    exact ⟨it.res, it.refinedRes, rfl, rfl, rfl, fun e he => .inl he⟩
  · have hrefine : refine p = true := by simpa [refine] using hscales.ratio_pos.ne'
    rw [if_neg (by simpa using hbatch), if_pos hrefine]
    set pushed := Q.pushAll above it.res (batch.map fun e => ⟨e.id, signed p e.val⟩)
      with hpushed
    have hlen : pushed.length = batch.length + it.res.length := by
      rw [hpushed, (Q.perm_pushAll above it.res _).length_eq, length_append, length_map]
    have hsum : pushed.length + it.refinedRes.length = it.queued + batch.length := by
      unfold queued
      omega
    obtain ⟨res, refined, heq, htotal, hquota, hrefined⟩ :=
      refineLoop_spec Q p raw pushed.length pushed it.refinedRes le_rfl
        (hsum ▸ hscales)
    rw [hsum] at htotal hquota
    refine ⟨res, refined, by rw [heq]; rfl, htotal, ?_, hrefined⟩
    rw [if_neg fun h => hbatch (length_eq_zero_iff.mp h)]
    exact hquota

end Refine

lemma initializeIfNeeded_eq {nextBatch : B → Except Fault (List (DistId F) × B)}
    (h : it.initialized = true) :
    initializeIfNeeded Q p nextBatch raw it = .ok it := by
  unfold initializeIfNeeded
  rw [if_pos h]
  rfl

/-! ### A sequence of batches -/

def fromBatches (batches : ℕ → List (DistId F)) (m : ℕ) : Except Fault (List (DistId F) × ℕ) :=
  .ok (batches m, m + 1)

/-- The state after `m` calls, with batches of these sizes. -/
structure Tracks (p : IteratorParams) (raw : ℤ → F) (sz : ℕ → ℕ) (m : ℕ)
    (it : IndexIterator F ℕ) : Prop where
  initialized : it.initialized = true
  source : it.source = m + 1
  total : it.queued = pending sz m
  refined : ∀ e ∈ it.refinedRes, IsRefined p raw e
  /-- For how many calls the refined elements last, in terms of the batches. -/
  lasts : ∀ k, m ≤ k → (k < m + it.refinedRes.length ↔ ∃ j ≤ m, 0 < sz j ∧
    k < j + quota p (pending sz j))

section Tracks

variable {Q : StdPriorityQueue (DistId F)} {p : IteratorParams} {raw : ℤ → F}
  {batches : ℕ → List (DistId F)} {sz : ℕ → ℕ}

lemma Tracks.initializeIfNeeded (h : Tracks p raw sz m it) :
    initializeIfNeeded Q p (fromBatches batches) raw it = .ok it :=
  initializeIfNeeded_eq h.initialized

omit [LinearOrder F] in
lemma Tracks.refinedRes_ne_nil (h : Tracks p raw sz m it) :
    it.refinedRes ≠ [] ↔ ∃ j ≤ m, 0 < sz j ∧ m < j + quota p (pending sz j) := by
  rw [← h.lasts m le_rfl, ← length_pos_iff]
  omega

section Steps

variable (hsizes : ∀ m, (batches m).length = sz m)
  (hscales : ∀ m, ScalesWithin p (pending sz m))

include hsizes hscales

variable (Q raw) in
lemma tracks_initialized :
    ∃ it, initializeIfNeeded Q p (fromBatches batches) raw { source := 0 } = .ok it ∧
      Tracks p raw sz 0 it := by
  obtain ⟨res, refined, heq, htotal, hquota, hrefined⟩ :=
    handleBatch_spec Q p raw { source := 1 } (batches 0)
      (by simpa [queued, hsizes, pending] using hscales 0)
  have hnone : queued ({ source := 1 } : IndexIterator F ℕ) = 0 := rfl
  rw [hsizes, hnone, zero_add] at htotal hquota
  refine ⟨{ initialized := true, res := res, refinedRes := refined, source := 1 }, ?_, ?_⟩
  · exact bind_eq_ok.mpr ⟨_, heq, rfl⟩
  · refine ⟨rfl, rfl, htotal, fun e he => (hrefined e he).resolve_left nofun, fun k _ => ?_⟩
    have hlen : refined.length = if sz 0 = 0 then 0 else quota p (sz 0) := by
      simpa using hquota
    show k < 0 + refined.length ↔ _
    constructor
    · intro hk
      refine ⟨0, le_rfl, ?_, ?_⟩
      · split_ifs at hlen <;> omega
      · show k < 0 + quota p (sz 0)
        split_ifs at hlen <;> omega
    · rintro ⟨j, hj, hpos, hk⟩
      obtain rfl := Nat.le_zero.mp hj
      have hk' : k < 0 + quota p (sz 0) := hk
      rw [if_neg hpos.ne'] at hlen
      omega

lemma Tracks.step (h : Tracks p raw sz m it) (hpop : popQueue Q it = some (top, it')) :
    ∃ it'', updateNext Q p (fromBatches batches) raw it' = .ok it'' ∧
      Tracks p raw sz (m + 1) it'' := by
  obtain ⟨hinit, hsource, hcount, hless, hrefined', -⟩ := popQueue_spec Q hpop
  have hpending : pending sz (m + 1) = it'.queued + sz (m + 1) := by
    have hm := h.total
    rw [pending, if_neg (by omega)]
    omega
  obtain ⟨res, refined, heq, htotal, hquota, hrefined⟩ :=
    handleBatch_spec Q p raw { it' with source := m + 2 } (batches (m + 1))
      (show ScalesWithin p (it'.queued + _) by rw [hsizes, ← hpending]; exact hscales (m + 1))
  rw [hsizes] at htotal hquota
  refine ⟨{ it' with res := res, refinedRes := refined, source := m + 2 }, ?_, ?_⟩
  · unfold updateNext fromBatches
    rw [hsource, h.source]
    exact heq
  · refine ⟨hinit.trans h.initialized, rfl, htotal.trans hpending.symm, fun e he => ?_,
      fun k hk => ?_⟩
    · rcases hrefined e he with hold | hexact
      · exact h.refined e (hrefined' e hold)
      · exact hexact
    · have hlast := h.lasts k (by omega)
      have hquota' : refined.length = if sz (m + 1) = 0 then it'.refinedRes.length
          else max it'.refinedRes.length (quota p (pending sz (m + 1))) := by
        rw [hpending]
        exact hquota
      set q := quota p (pending sz (m + 1)) with hq
      clear_value q
      show k < m + 1 + refined.length ↔ _
      constructor
      · intro hlt
        by_cases hold : k < m + it.refinedRes.length
        · obtain ⟨j, hj, hpos, hkj⟩ := hlast.mp hold
          exact ⟨j, by omega, hpos, hkj⟩
        · refine ⟨m + 1, le_rfl, ?_, ?_⟩
          · split_ifs at hquota' <;> omega
          · split_ifs at hquota' <;> omega
      · rintro ⟨j, hj, hpos, hkj⟩
        rcases Nat.le_succ_iff.mp hj with hj | rfl
        · have hold := hlast.mpr ⟨j, hj, hpos, hkj⟩
          clear hkj hlast
          split_ifs at hquota' <;> omega
        · rw [if_neg hpos.ne'] at hquota'
          rw [← hq] at hkj
          omega

lemma Tracks.dropEarlier (h : Tracks p raw sz m it)
    (hdrop : dropEarlier Q p (fromBatches batches) raw val fuel it = .ok it') :
    ∃ m', Tracks p raw sz m' it' := by
  induction fuel generalizing m it with
  | zero => simp [IndexIterator.dropEarlier] at hdrop
  | succ fuel ih =>
    unfold IndexIterator.dropEarlier at hdrop
    cases hpop : popQueue Q it with
    | none =>
      rw [hpop] at hdrop
      exact ⟨m, Except.ok.inj hdrop ▸ h⟩
    | some e =>
      rw [hpop] at hdrop
      dsimp only at hdrop
      split_ifs at hdrop with hle
      · exact ⟨m, Except.ok.inj hdrop ▸ h⟩
      · obtain ⟨it₁, hupdate, h₁⟩ := h.step hsizes hscales hpop
        rw [hupdate] at hdrop
        exact ih h₁ hdrop

lemma Tracks.next (h : Tracks p raw sz m it)
    (hnext : next Q p (fromBatches batches) raw fuel it = .ok (result, it')) :
    (∃ m', Tracks p raw sz m' it') ∧
      ∃ top popped, popQueue Q it = some (top, popped) ∧
        result = ⟨top.id, signed p top.val⟩ := by
  unfold IndexIterator.next at hnext
  rw [h.initializeIfNeeded] at hnext
  obtain ⟨it₀, heq, hnext⟩ := bind_eq_ok.mp hnext
  cases heq
  cases hpop : popQueue Q it with
  | none =>
    rw [hpop] at hnext
    simp at hnext
  | some e =>
    obtain ⟨top, popped⟩ := e
    obtain ⟨it₁, hupdate, h₁⟩ := h.step hsizes hscales hpop
    rw [hpop] at hnext
    dsimp only at hnext
    rw [hupdate] at hnext
    obtain ⟨it₀, heq, hnext⟩ := bind_eq_ok.mp hnext
    cases heq
    obtain ⟨it₂, hdrop, ⟨⟩⟩ := bind_eq_ok.mp hnext
    refine ⟨?_, top, popped, rfl, rfl⟩
    split_ifs at hdrop
    · exact h₁.dropEarlier hsizes hscales hdrop
    · exact ⟨m + 1, Except.ok.inj hdrop ▸ h₁⟩

end Steps

end Tracks

lemma signed_signed {G : Type} [InvolutiveNeg G] (p : IteratorParams) (val : G) :
    signed p (signed p val) = val := by
  unfold signed
  split_ifs
  · exact neg_neg val
  · rfl

lemma take_eq_of_initialized {Q : StdPriorityQueue (DistId F)}
    {nextBatch : B → Except Fault (List (DistId F) × B)} {raw : ℤ → F}
    (h : initializeIfNeeded Q p nextBatch raw it = .ok it₀)
    (h₀ : it₀.initialized = true) (fuel n : ℕ) :
    take Q p nextBatch raw fuel (n + 1) it =
      take Q p nextBatch raw fuel (n + 1) it₀ := by
  have hhas : hasNext Q p nextBatch raw it =
      hasNext Q p nextBatch raw it₀ := by
    unfold hasNext
    rw [h, initializeIfNeeded_eq h₀]
  unfold take
  rw [hhas]

section Take

variable {Q : StdPriorityQueue (DistId F)} {p : IteratorParams}
  {nextBatch : B → Except Fault (List (DistId F) × B)} {raw : ℤ → F} {fuel n : ℕ}
  {it it₁ it₂ it' : IndexIterator F B} {result : DistId F} {rest : List (DistId F)}

lemma take_nil (hmore : hasNext Q p nextBatch raw it = .ok (false, it')) :
    take Q p nextBatch raw fuel (n + 1) it = .ok ([], it') := by
  rw [take, hmore]
  rfl

lemma take_cons (hmore : hasNext Q p nextBatch raw it = .ok (true, it₁))
    (hnext : next Q p nextBatch raw fuel it₁ = .ok (result, it₂))
    (hrest : take Q p nextBatch raw fuel n it₂ = .ok (rest, it')) :
    take Q p nextBatch raw fuel (n + 1) it = .ok (result :: rest, it') := by
  rw [take, hmore, ok_bind]
  dsimp only
  rw [hnext, ok_bind]
  rw [hrest]
  rfl

end Take

section Sequence

variable {G : Type} [LinearOrder G] [InvolutiveNeg G] {Q : StdPriorityQueue (DistId G)}
  {p : IteratorParams} {raw : ℤ → G} {batches : ℕ → List (DistId G)} {sz : ℕ → ℕ}

lemma Tracks.take (hsizes : ∀ m, (batches m).length = sz m)
    (hscales : ∀ m, ScalesWithin p (pending sz m)) (hfresh : Refreshed p sz)
    {n m : ℕ} {it it' : IndexIterator G ℕ} {rs : List (DistId G)} (h : Tracks p raw sz m it)
    (htake : take Q p (fromBatches batches) raw fuel n it = .ok (rs, it')) :
    ∀ e ∈ rs, e.val = raw e.id := by
  induction n generalizing m it it' rs with
  | zero =>
    cases htake
    exact nofun
  | succ n ih =>
    obtain ⟨⟨more, it₀⟩, hhas, htake⟩ := bind_eq_ok.mp htake
    unfold hasNext at hhas
    rw [h.initializeIfNeeded] at hhas
    cases hhas
    dsimp only at htake
    split_ifs at htake with hmore
    · obtain ⟨⟨result, it₁⟩, hnext, htake⟩ := bind_eq_ok.mp htake
      obtain ⟨⟨rest, it₂⟩, hrest, ⟨⟩⟩ := bind_eq_ok.mp htake
      obtain ⟨⟨m', h'⟩, top, popped, hpop, rfl⟩ := h.next hsizes hscales hnext
      intro e he
      rcases mem_cons.mp he with rfl | he
      · obtain ⟨-, -, hcount, -, -, htop⟩ := popQueue_spec Q hpop
        have hpending : 0 < pending sz m := by
          rw [← h.total]
          omega
        rw [if_neg (h.refinedRes_ne_nil.mpr (hfresh m hpending))] at htop
        rw [h.refined top htop, signed_signed]
      · exact ih h' hrest e he
    · cases htake
      exact nofun

end Sequence

/-! ### Batches that are returned in the order of their ids

To see that nothing less than `Refreshed` will do, the elements are numbered as they come.  The
index has them half a unit further away than they are, so both heaps give them back in this order,
and keeping the order drops nothing. -/

section Numbered

variable {Q : StdPriorityQueue (DistId ℚ)} {p : IteratorParams} {sz : ℕ → ℕ}

def refinedElem (i : ℕ) : DistId ℚ := ⟨i, i⟩

def indexElem (i : ℕ) : DistId ℚ := ⟨i, i + 1 / 2⟩

def delivered (sz : ℕ → ℕ) (m : ℕ) : ℕ := ∑ i ∈ Finset.range m, sz i

def numberedBatches (p : IteratorParams) (sz : ℕ → ℕ) (m : ℕ) : List (DistId ℚ) :=
  (range' (delivered sz m) (sz m)).map fun i : ℕ => ⟨i, signed p (i + 1 / 2)⟩

def numberedRaw (p : IteratorParams) (id : ℤ) : ℚ := signed p id

lemma length_numberedBatches (p : IteratorParams) (sz : ℕ → ℕ) (m : ℕ) :
    (numberedBatches p sz m).length = sz m := by
  simp [numberedBatches]

lemma above_iff {a b : DistId ℚ} : above a b ↔ DistId.lt a b := DistId.gt_iff b a

lemma strictWeak_above : StrictWeak (above (F := ℚ)) :=
  StrictWeak.of_key (fun a => toLex (a.val, a.id)) fun a b => by rw [above_iff, DistId.lt_iff]

lemma pop_range' {g : ℕ → DistId ℚ} (hg : ∀ {i j : ℕ}, i < j → (g i).val < (g j).val)
    {l rest : List (DistId ℚ)} (first n : ℕ) (hl : l.Perm ((range' first (n + 1)).map g))
    (hpop : Q.pop above l = some (top, rest)) :
    top = g first ∧ rest.Perm ((range' (first + 1) n).map g) := by
  have hperm := (Q.perm_pop hpop).trans hl
  have htop : top = g first := by
    obtain ⟨i, hi, rfl⟩ := mem_map.mp (hperm.mem_iff.mp mem_cons_self)
    have hfirst : g first ∈ l := hl.mem_iff.mpr (mem_map_of_mem (by simp))
    have hnot := Q.top strictWeak_above hpop (g first) hfirst
    rcases lt_or_ge first i with hlt | hge
    · apply absurd _ hnot
      rw [above_iff, DistId.lt_iff]
      exact Prod.Lex.toLex_lt_toLex.mpr (.inl (hg hlt))
    · have : first ≤ i := (mem_range'_1.mp hi).1
      rw [show i = first by omega]
  refine ⟨htop, ?_⟩
  rw [htop, range'_succ] at hperm
  exact hperm.cons_inv

lemma refinedElem_lt (h : i < j) : (refinedElem i).val < (refinedElem j).val := by
  show (i : ℚ) < j
  exact_mod_cast h

lemma indexElem_lt (h : i < j) : (indexElem i).val < (indexElem j).val := by
  show (i : ℚ) + 1 / 2 < j + 1 / 2
  have : (i : ℚ) < j := by exact_mod_cast h
  linarith

structure Numbered (k : ℕ) (res refined : List (DistId ℚ)) : Prop where
  perm_refined : refined.Perm ((range' k refined.length).map refinedElem)
  perm_res : res.Perm ((range' (k + refined.length) res.length).map indexElem)

lemma Numbered.refineLoop {res res' : List (DistId ℚ)} (h : Numbered k res refined)
    (hloop : refineLoop Q p (numberedRaw p) fuel res refined = .ok (res', refined')) :
    Numbered k res' refined' := by
  induction fuel generalizing res refined with
  | zero =>
    cases hloop
    exact h
  | succ fuel ih =>
    obtain ⟨more, -, hloop⟩ := bind_eq_ok.mp hloop
    cases hpop : Q.pop above res with
    | none =>
      simp only [hpop, ite_self] at hloop
      cases hloop
      exact h
    | some e =>
      obtain ⟨top, rest⟩ := e
      simp only [hpop] at hloop
      split_ifs at hloop
      · apply ih _ hloop
        have hlen := StdPriorityQueue.length_pop hpop
        obtain ⟨hres, hrest⟩ :=
          pop_range' indexElem_lt (k + refined.length) rest.length (hlen ▸ h.perm_res) hpop
        have helem : (⟨top.id, signed p (numberedRaw p top.id)⟩ : DistId ℚ) =
            refinedElem (k + refined.length) := by
          rw [hres, numberedRaw, signed_signed]
          simp [indexElem, refinedElem]
        rw [helem]
        have hpush := Q.perm_push above refined (refinedElem (k + refined.length))
        have hpushLen := Q.length_push above refined (refinedElem (k + refined.length))
        constructor
        · rw [hpushLen, range'_1_concat, map_append]
          exact hpush.trans ((h.perm_refined.cons _).trans (perm_append_singleton _ _).symm)
        · rw [hpushLen, ← add_assoc]
          exact hrest
      · cases hloop
        exact h

structure NumberedState (sz : ℕ → ℕ) (k : ℕ) (it : IndexIterator ℚ ℕ) : Prop where
  numbered : Numbered k it.res it.refinedRes
  count : k + it.queued = delivered sz (k + 1)

lemma numbered_handleBatch (it : IndexIterator ℚ ℕ) (h : Numbered k it.res it.refinedRes)
    (hcount : k + it.queued = delivered sz k) (hscales : ScalesWithin p (it.queued + sz k))
    (hit' : handleBatch Q p (numberedRaw p) it (numberedBatches p sz k) =
      .ok it') : NumberedState sz k it' := by
  have hbatch := length_numberedBatches p sz k
  have hdelivered : delivered sz (k + 1) = delivered sz k + sz k :=
    Finset.sum_range_succ sz k
  obtain ⟨res, refined, heq, htotal, -⟩ := handleBatch_spec Q p (numberedRaw p) it
    (numberedBatches p sz k) (hbatch ▸ hscales)
  obtain rfl := ok_unique heq hit'
  refine ⟨?_, show k + (res.length + refined.length) = _ by omega⟩
  unfold handleBatch at hit'
  by_cases hempty : (numberedBatches p sz k).isEmpty = true
  · rw [if_pos hempty] at hit'
    rw [← Except.ok.inj hit']
    exact h
  · have hrefine : refine p = true := by simpa [refine] using hscales.ratio_pos.ne'
    rw [if_neg hempty, if_pos hrefine] at hit'
    obtain ⟨⟨res', refined'⟩, hloop, hit'⟩ := bind_eq_ok.mp hit'
    rw [← Except.ok.inj hit']
    refine Numbered.refineLoop ?_ hloop
    set batch := (numberedBatches p sz k).map fun e => (⟨e.id, signed p e.val⟩ :
      DistId ℚ) with hbatchDef
    have helems : batch = (range' (delivered sz k) (sz k)).map indexElem := by
      rw [hbatchDef, numberedBatches, map_map]
      apply map_congr_left
      intro i _
      simp [indexElem, signed_signed]
    have hperm := Q.perm_pushAll above it.res batch
    refine ⟨h.perm_refined, ?_⟩
    have hlen : (Q.pushAll above it.res batch).length = it.res.length + sz k := by
      rw [hperm.length_eq, length_append, helems, length_map, length_range']
      omega
    have hfirst : k + it.refinedRes.length + it.res.length = delivered sz k := by
      rw [← hcount, queued]
      omega
    rw [hlen, ← range'_append_1, map_append, hfirst, ← helems]
    exact hperm.trans (perm_append_comm.trans (h.perm_res.append_right batch))

lemma NumberedState.popQueue (h : NumberedState sz k it) (hpop : popQueue Q it = some (top, it')) :
    top = (if it.refinedRes = [] then indexElem k else refinedElem k) ∧
      Numbered (k + 1) it'.res it'.refinedRes := by
  have hres := h.numbered.perm_res
  have hrefined := h.numbered.perm_refined
  rcases popQueue_cases Q hpop with ⟨hempty, htaken, heq⟩ | ⟨hempty, htaken, heq⟩
  · have hlen := StdPriorityQueue.length_pop htaken
    rw [hempty, length_nil, hlen] at hres
    obtain ⟨htop, hrest⟩ := pop_range' indexElem_lt k it'.res.length hres htaken
    rw [if_pos hempty, heq]
    exact ⟨htop, by simp [hempty], by simpa [hempty] using hrest⟩
  · have hlen := StdPriorityQueue.length_pop htaken
    rw [hlen] at hrefined hres
    obtain ⟨htop, hrest⟩ := pop_range' refinedElem_lt k it'.refinedRes.length hrefined htaken
    rw [if_neg hempty, heq]
    refine ⟨htop, hrest, ?_⟩
    dsimp only
    rwa [show k + 1 + it'.refinedRes.length = k + (it'.refinedRes.length + 1) by omega]

lemma Numbered.le_val {k : ℕ} {res refined : List (DistId ℚ)} (h : Numbered k res refined)
    {e : DistId ℚ} (he : e ∈ res ∨ e ∈ refined) : (k : ℚ) ≤ e.val := by
  rcases he with he | he
  · obtain ⟨i, hi, rfl⟩ := mem_map.mp (h.perm_res.mem_iff.mp he)
    have hle : k ≤ i := by
      have := (mem_range'_1.mp hi).1
      omega
    show (k : ℚ) ≤ i + 1 / 2
    have : (k : ℚ) ≤ i := by exact_mod_cast hle
    linarith
  · obtain ⟨i, hi, rfl⟩ := mem_map.mp (h.perm_refined.mem_iff.mp he)
    show (k : ℚ) ≤ i
    exact_mod_cast (mem_range'_1.mp hi).1

section Take

variable (hscales : ∀ m, ScalesWithin p (pending sz m))

include hscales

lemma numbered_next (h : Tracks p (numberedRaw p) sz k it)
    (hn : NumberedState sz k it) (hpos : 0 < pending sz k) :
    ∃ it', next Q p (fromBatches (numberedBatches p sz)) (numberedRaw p) 1 it =
        .ok (⟨k, signed p (if it.refinedRes = [] then k + 1 / 2 else k)⟩, it') ∧
      Tracks p (numberedRaw p) sz (k + 1) it' ∧ NumberedState sz (k + 1) it' := by
  have htotal := h.total
  cases hpop : popQueue Q it with
  | none =>
    have := (popQueue_eq_none Q).mp hpop
    omega
  | some e =>
    obtain ⟨top, popped⟩ := e
    obtain ⟨htop, hnumbered⟩ := hn.popQueue hpop
    obtain ⟨-, hsource, hcount, -⟩ := popQueue_spec Q hpop
    obtain ⟨it', hupdate, h'⟩ := h.step (length_numberedBatches p sz) hscales hpop
    -- The batch comes with the numbers after those in the heaps.
    have hn' : NumberedState sz (k + 1) it' := by
      have hbatch : handleBatch Q p (numberedRaw p) { popped with source := k + 2 }
          (numberedBatches p sz (k + 1)) = .ok it' := by
        have hunfold := hupdate
        unfold updateNext fromBatches at hunfold
        rw [hsource, h.source] at hunfold
        exact hunfold
      have hbefore := hn.count
      have hpending : pending sz (k + 1) = popped.queued + sz (k + 1) := by
        rw [pending, if_neg hpos.ne', ← htotal, hcount]
        rfl
      exact numbered_handleBatch { popped with source := k + 2 } hnumbered
        (show k + 1 + popped.queued = _ by omega)
        (show ScalesWithin p (popped.queued + _) from hpending ▸ hscales (k + 1)) hbatch
    have hlate : ∀ q it'', popQueue Q it' = some (q, it'') → top.val ≤ q.val := by
      intro q it'' hq
      obtain ⟨-, -, -, -, -, hmem⟩ := popQueue_spec Q hq
      have hle : ((k + 1 : ℕ) : ℚ) ≤ q.val := by
        apply hn'.numbered.le_val
        split_ifs at hmem
        · exact .inl hmem
        · exact .inr hmem
      push_cast at hle
      rw [htop]
      split_ifs
      · show (k : ℚ) + 1 / 2 ≤ q.val
        linarith
      · show (k : ℚ) ≤ q.val
        linarith
    refine ⟨it', ?_, h', hn'⟩
    have hdrop : (if p.retainIteratorOrder then
        dropEarlier Q p (fromBatches (numberedBatches p sz)) (numberedRaw p)
          top.val 1 it' else return it') = .ok it' := by
      split_ifs
      · unfold dropEarlier
        cases hq : popQueue Q it' with
        | none => rfl
        | some q =>
          obtain ⟨q, it''⟩ := q
          dsimp only
          rw [if_pos (hlate q it'' hq)]
          rfl
      · rfl
    unfold IndexIterator.next
    rw [h.initializeIfNeeded]
    apply bind_eq_ok.mpr
    refine ⟨it, rfl, ?_⟩
    rw [hpop]
    apply bind_eq_ok.mpr
    refine ⟨it', hupdate, ?_⟩
    apply bind_eq_ok.mpr
    refine ⟨it', hdrop, ?_⟩
    rw [htop]
    split_ifs <;> rfl

lemma numbered_initialized :
    ∃ it, initializeIfNeeded Q p (fromBatches (numberedBatches p sz))
        (numberedRaw p) { source := 0 } = .ok it ∧
      Tracks p (numberedRaw p) sz 0 it ∧ NumberedState sz 0 it := by
  obtain ⟨it, hinit, h⟩ := tracks_initialized Q (numberedRaw p)
    (length_numberedBatches p sz) hscales
  refine ⟨it, hinit, h, ?_⟩
  have hnone : Numbered 0 ([] : List (DistId ℚ)) [] := ⟨.refl _, .refl _⟩
  obtain ⟨it₁, hhandle, hit⟩ := bind_eq_ok.mp hinit
  have hstart := numbered_handleBatch _ hnone rfl
    (show ScalesWithin p (0 + sz 0) from (zero_add (sz 0)).symm ▸ hscales 0) hhandle
  rw [← Except.ok.inj hit]
  exact ⟨hstart.numbered, hstart.count⟩

omit hscales in
lemma take_succ {raw : ℤ → ℚ} {batches : ℕ → List (DistId ℚ)}
    (h : Tracks p raw sz k it) (hpos : 0 < pending sz k)
    (hnext : next Q p (fromBatches batches) raw fuel it = .ok (result, it'))
    (htake : take Q p (fromBatches batches) raw fuel n it' = .ok (rest, it'')) :
    take Q p (fromBatches batches) raw fuel (n + 1) it =
      .ok (result :: rest, it'') := by
  have hmore : (!it.res.isEmpty || !it.refinedRes.isEmpty) = true := by
    have htotal := h.total
    by_contra hnone
    have hboth : it.res = [] ∧ it.refinedRes = [] := by simpa using hnone
    rw [queued, hboth.1, hboth.2] at htotal
    exact hpos.ne htotal
  have hhas : hasNext Q p (fromBatches batches) raw it = .ok (true, it) := by
    unfold hasNext
    rw [h.initializeIfNeeded]
    show Except.ok (!it.res.isEmpty || !it.refinedRes.isEmpty, it) = _
    rw [hmore]
  exact take_cons hhas hnext htake

omit hscales in
lemma pending_pos_of_le (h : 0 < pending sz m) (hle : k ≤ m) : 0 < pending sz k := by
  induction m, hle using Nat.le_induction with
  | base => exact h
  | succ m _ ih =>
    apply ih
    by_contra hzero
    have hdead : pending sz (m + 1) = 0 := if_pos (by omega)
    omega

lemma numbered_take (hpos : 0 < pending sz m)
    (hout : ∀ j ≤ m, 0 < sz j → j + quota p (pending sz j) ≤ m) {d k : ℕ}
    {it : IndexIterator ℚ ℕ} (hk : k + d = m)
    (h : Tracks p (numberedRaw p) sz k it) (hn : NumberedState sz k it) :
    ∃ rs it', take Q p (fromBatches (numberedBatches p sz))
        (numberedRaw p) 1 (d + 1) it = .ok (rs, it') ∧
      ∃ e ∈ rs, e.val ≠ numberedRaw p e.id := by
  induction d generalizing k it with
  | zero =>
    obtain rfl : k = m := hk
    obtain ⟨it', hnext, h', hn'⟩ := numbered_next hscales h hn hpos
    have hempty : it.refinedRes = [] := by
      by_contra hne
      obtain ⟨j, hj, hsize, hlt⟩ := h.refinedRes_ne_nil.mp hne
      have := hout j hj hsize
      omega
    rw [if_pos hempty] at hnext
    refine ⟨[⟨k, signed p (k + 1 / 2)⟩], it', ?_, _, mem_singleton_self _, ?_⟩
    · exact take_succ h hpos hnext rfl
    · show signed p ((k : ℚ) + 1 / 2) ≠ signed p ((k : ℤ) : ℚ)
      unfold signed
      split_ifs <;> simp
  | succ d ih =>
    have hk := pending_pos_of_le hpos (by omega : k ≤ m)
    obtain ⟨it', hnext, h', hn'⟩ := numbered_next hscales h hn hk
    obtain ⟨rs, it'', htake, e, he, hne⟩ := ih (by omega) h' hn'
    have hall := take_succ h hk hnext htake
    exact ⟨_, it'', hall, e, mem_cons_of_mem _ he, hne⟩

lemma exists_unrefined (Q : StdPriorityQueue (DistId ℚ)) (hpos : 0 < pending sz m)
    (hout : ∀ j ≤ m, 0 < sz j → j + quota p (pending sz j) ≤ m) :
    ∃ rs it, take Q p (fromBatches (numberedBatches p sz)) (numberedRaw p) 1
        (m + 1) { source := 0 } = .ok (rs, it) ∧
      ∃ e ∈ rs, e.val ≠ numberedRaw p e.id := by
  obtain ⟨it, hinit, h, hn⟩ := numbered_initialized (Q := Q) hscales
  rw [take_eq_of_initialized hinit h.initialized]
  exact numbered_take hscales hpos hout (zero_add m) h hn

end Take

end Numbered

/-- **When only refined distances are returned.** For batches of given sizes, with whatever elements
and distances, all pairs that `Next` returns have the raw distance of their id exactly when, at
every call for which an element waits, some batch that was not empty came fewer calls ago than it
left elements refined. -/
theorem next_refined_iff (Q : StdPriorityQueue (DistId ℚ)) (p : IteratorParams)
    (sz : ℕ → ℕ) (hscales : ∀ m, ScalesWithin p (pending sz m)) :
    (∀ (batches : ℕ → List (DistId ℚ)) (raw : ℤ → ℚ),
      (∀ m, (batches m).length = sz m) →
      ∀ fuel n rs it, take Q p (fromBatches batches) raw fuel n { source := 0 } =
        .ok (rs, it) → ∀ e ∈ rs, e.val = raw e.id) ↔
    Refreshed p sz := by
  constructor
  · intro hall m hpos
    by_contra hnone
    push Not at hnone
    obtain ⟨rs, it, htake, e, he, hne⟩ := exists_unrefined hscales Q hpos hnone
    exact hne (hall _ _ (length_numberedBatches p sz) _ _ _ _ htake e he)
  · intro hfresh batches raw hsizes fuel n rs it htake
    cases n with
    | zero =>
      cases htake
      exact nofun
    | succ n =>
      obtain ⟨it₀, hinit, h⟩ := tracks_initialized Q raw hsizes hscales
      rw [take_eq_of_initialized hinit h.initialized] at htake
      exact h.take hsizes hscales hfresh htake

def oneBatch (size m : ℕ) : ℕ := if m = 0 then size else 0

lemma pending_oneBatch (size m : ℕ) : pending (oneBatch size) m = size - m := by
  induction m with
  | zero => rfl
  | succ m ih =>
    show (if pending (oneBatch size) m = 0 then 0 else pending (oneBatch size) m - 1 + 0) = _
    split_ifs <;> omega

lemma quota_of_le (h : size ≤ 20) : quota p size = size := by
  have hle := quota_le p size
  rcases Nat.find_spec (exists_enough p size) with hall | ⟨h20, -⟩
  · exact hall
  · have : 20 ≤ quota p size := h20
    omega

/-- A ratio of one half, and products that need no rounding. -/
def half : IteratorParams := { largerIsCloser := false, refineRatio := 1 / 2 }

lemma half_scales (hsize : size ≤ 21) (m : ℕ) :
    ScalesWithin half (pending (oneBatch size) m) where
  ratio_pos := by norm_num [half]
  round_mono := monotone_id
  round_zero := rfl
  lt := by
    have hle : ((pending (oneBatch size) m : ℕ) : ℚ) ≤ 21 := by
      rw [pending_oneBatch]
      exact_mod_cast (by omega : size - m ≤ 21)
    show ((pending (oneBatch size) m : ℕ) : ℚ) * (1 / 2) < 2 ^ 64
    linarith

/-- The theorem at one batch of 20 elements. -/
theorem next_refined_twenty : Refreshed half (oneBatch 20) ∧
    ∀ (batches : ℕ → List (DistId ℚ)) (raw : ℤ → ℚ),
      (∀ m, (batches m).length = oneBatch 20 m) →
      ∀ fuel n rs it, take .sorting half (fromBatches batches) raw
        fuel n { source := 0 } = .ok (rs, it) → ∀ e ∈ rs, e.val = raw e.id := by
  have hfresh : Refreshed half (oneBatch 20) := by
    intro m hm
    refine ⟨0, Nat.zero_le m, by decide, ?_⟩
    rw [pending_oneBatch] at hm ⊢
    rw [quota_of_le (by omega)]
    omega
  exact ⟨hfresh, (next_refined_iff .sorting half (oneBatch 20) (half_scales (by decide))).mpr
    hfresh⟩

/-- One batch of 21 elements: 20 of them are refined, and after 20 calls the last one is returned
with the distance of the index. -/
theorem next_unrefined_twentyOne : ∃ rs it,
    take .sorting half (fromBatches (numberedBatches half (oneBatch 21))) (numberedRaw half) 1 21
        { source := 0 } = .ok (rs, it) ∧
      ∃ e ∈ rs, e.val ≠ numberedRaw half e.id := by
  apply exists_unrefined (half_scales le_rfl) .sorting
  · decide
  · intro j hj hsize
    obtain rfl : j = 0 := by
      by_contra hne
      rw [oneBatch, if_neg hne] at hsize
      omega
    have henough : Enough half 21 20 := .inr ⟨le_rfl, by norm_num [scaledSize, half]⟩
    rw [zero_add]
    exact Nat.find_min' _ henough

-- in float, 30 times the float nearest to 0.7 is 21
example : (minRefineSize ⟨false, 11744051 / 2 ^ 24, false,
    fun y => FloatCodec.ieee.ofFloat (FloatCodec.ieee.toFloat y)⟩ 30).toOption = some 21 := by
  decide +kernel

end IndexIterator

end Rvanns.Knowhere
