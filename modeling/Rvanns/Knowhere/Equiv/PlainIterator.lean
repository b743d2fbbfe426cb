import Rvanns.Knowhere.Equiv.IndexIterator

/-!
# Order and deliveries of an iterator

With `retain_iterator_order` the distances never get closer.
-/

namespace Rvanns.Knowhere.IndexIterator

open Cpp List

variable {F B : Type} [LinearOrder F] [InvolutiveNeg F] {Q : StdPriorityQueue (DistId F)}
  {p : IteratorParams} {nextBatch : B → Except Fault (List (DistId F) × B)}
  {raw : ℤ → F} {it it' : IndexIterator F B}

structure Plain (p : IteratorParams) : Prop where
  refineRatio_eq : p.refineRatio = 0
  retainIteratorOrder_eq : p.retainIteratorOrder = false

def signedElem (p : IteratorParams) (e : DistId F) : DistId F :=
  ⟨e.id, signed p e.val⟩

omit [LinearOrder F] in
@[simp]
lemma signedElem_signedElem (e : DistId F) : signedElem p (signedElem p e) = e := by
  unfold signedElem
  rw [signed_signed]

lemma updateNext_eq_ok_iff (hplain : Plain p) :
    updateNext Q p nextBatch raw it = .ok it' ↔
      ∃ batch source, nextBatch it.source = .ok (batch, source) ∧ it' = { it with
          source := source
          res := Q.pushAll above it.res (batch.map (signedElem p)) } := by
  have hrefine : refine p = false := by simp [refine, hplain.refineRatio_eq]
  have hhandle : ∀ (batch : List (DistId F)) (source : B),
      handleBatch Q p raw { it with source := source } batch
      = .ok { it with
          source := source
          res := Q.pushAll above it.res (batch.map (signedElem p)) } := by
    intro batch source
    unfold handleBatch
    cases batch with
    | nil => rfl
    | cons e batch =>
      simp only [isEmpty_cons, Bool.false_eq_true, if_false, hrefine]
      rfl
  unfold updateNext
  rw [bind_eq_ok]
  constructor
  · rintro ⟨⟨batch, source⟩, hbatch, h⟩
    exact ⟨batch, source, hbatch, ok_unique h (hhandle batch source)⟩
  · rintro ⟨batch, source, hbatch, rfl⟩
    exact ⟨_, hbatch, hhandle batch source⟩

structure Delivers (p : IteratorParams) (P : List (DistId F) → B → Prop)
    (rs : List (DistId F)) (it : IndexIterator F B) : Prop where
  refinedRes_eq : it.refinedRes = []
  exists_perm : ∃ delivered, P delivered it.source ∧
    (rs ++ it.res.map (signedElem p)).Perm delivered

variable {P : List (DistId F) → B → Prop} {rs : List (DistId F)}

def Keeps (nextBatch : B → Except Fault (List (DistId F) × B))
    (P : List (DistId F) → B → Prop) : Prop :=
  ∀ delivered source batch source', P delivered source → nextBatch source = .ok (batch, source') →
    P (delivered ++ batch) source'

lemma Delivers.updateNext (h : Delivers p P rs it) (hplain : Plain p)
    (hkeeps : Keeps nextBatch P) (hit' : updateNext Q p nextBatch raw it = .ok it') :
    Delivers p P rs it' := by
  obtain ⟨batch, source, hbatch, rfl⟩ := (updateNext_eq_ok_iff hplain).mp hit'
  obtain ⟨delivered, hP, hperm⟩ := h.exists_perm
  refine ⟨h.refinedRes_eq, delivered ++ batch, hkeeps _ _ _ _ hP hbatch, ?_⟩
  have hpush := (Q.perm_pushAll above it.res (batch.map (signedElem p))).map
    (signedElem p)
  have hbatch : (batch.map (signedElem p)).map (signedElem p) = batch := by
    simp [map_map, Function.comp_def]
  rw [map_append, hbatch] at hpush
  have hswap : (rs ++ (batch ++ it.res.map (signedElem p))).Perm
      (rs ++ it.res.map (signedElem p) ++ batch) := by
    rw [append_assoc]
    exact perm_append_comm.append_left rs
  exact (hpush.append_left rs).trans (hswap.trans (hperm.append_right batch))

lemma Delivers.initializeIfNeeded (h : Delivers p P rs it) (hplain : Plain p)
    (hkeeps : Keeps nextBatch P) (hit' : initializeIfNeeded Q p nextBatch raw it = .ok it') :
    Delivers p P rs it' := by
  unfold IndexIterator.initializeIfNeeded at hit'
  split_ifs at hit'
  · exact Except.ok.inj hit' ▸ h
  · obtain ⟨it₁, hit₁, ⟨⟩⟩ := bind_eq_ok.mp hit'
    have h₁ := h.updateNext hplain hkeeps hit₁
    exact ⟨h₁.refinedRes_eq, h₁.exists_perm⟩

lemma next_eq_ok_iff (hplain : Plain p) :
    next Q p nextBatch raw fuel it = .ok (result, it') ↔
      ∃ it₁ top it₂, initializeIfNeeded Q p nextBatch raw it = .ok it₁ ∧
        popQueue Q it₁ = some (top, it₂) ∧
        updateNext Q p nextBatch raw it₂ = .ok it' ∧ result
          = signedElem p top := by
  unfold next
  rw [bind_eq_ok]
  constructor
  · rintro ⟨it₁, hit₁, h⟩
    cases hpop : popQueue Q it₁ with
    | none => simp [hpop] at h
    | some e =>
      rw [hpop] at h
      rw [hplain.retainIteratorOrder_eq] at h
      obtain ⟨it₃, hit₃, h⟩ := bind_eq_ok.mp h
      obtain ⟨it₄, hit₄, h⟩ := bind_eq_ok.mp h
      cases hit₄
      cases h
      exact ⟨it₁, e.1, e.2, hit₁, hpop, hit₃, rfl⟩
  · rintro ⟨it₁, top, it₂, hit₁, hpop, hit', rfl⟩
    refine ⟨it₁, hit₁, ?_⟩
    rw [hpop]
    dsimp only
    rw [hplain.retainIteratorOrder_eq, hit']
    rfl

omit [InvolutiveNeg F] in
lemma popQueue_eq (h : it.refinedRes = []) :
    popQueue Q it = (Q.pop above it.res).map fun e => (e.1, { it with res := e.2 }) := by
  unfold popQueue
  rw [h]
  rfl

lemma next_initialized_iff (hplain : Plain p) (hinit : it.initialized = true)
    (hrefined : it.refinedRes = []) :
    next Q p nextBatch raw fuel it = .ok (result, it') ↔ ∃ top rest batch source,
      Q.pop above it.res = some (top, rest) ∧ nextBatch it.source = .ok (batch, source) ∧
      result = signedElem p top ∧ it' = { it with
        source := source
        res := Q.pushAll above rest (batch.map (signedElem p)) } := by
  have hstay : initializeIfNeeded Q p nextBatch raw it = .ok it := if_pos hinit
  rw [next_eq_ok_iff hplain, hstay]
  constructor
  · rintro ⟨_, _, _, ⟨⟩, hpop, hupdate, rfl⟩
    rw [popQueue_eq hrefined] at hpop
    obtain ⟨⟨top, rest⟩, hrest, ⟨⟩⟩ := Option.map_eq_some_iff.mp hpop
    obtain ⟨batch, source, hbatch, rfl⟩ := (updateNext_eq_ok_iff hplain).mp hupdate
    exact ⟨top, rest, batch, source, hrest, hbatch, rfl, rfl⟩
  · rintro ⟨top, rest, batch, source, hpop, hbatch, rfl, rfl⟩
    refine ⟨it, top, { it with res := rest }, rfl, ?_, ?_, rfl⟩
    · rw [popQueue_eq hrefined, hpop]
      rfl
    · exact (updateNext_eq_ok_iff hplain).mpr ⟨batch, source, hbatch, rfl⟩

section

variable (h : Delivers p P rs it)

include h

lemma Delivers.popQueue (hpop : popQueue Q it = some (top, it')) :
    Delivers p P (rs ++ [signedElem p top]) it' := by
  rw [popQueue_eq h.refinedRes_eq] at hpop
  obtain ⟨⟨a, rest⟩, hrest, ⟨⟩⟩ := Option.map_eq_some_iff.mp hpop
  obtain ⟨delivered, hP, hperm⟩ := h.exists_perm
  refine ⟨h.refinedRes_eq, delivered, hP, List.Perm.trans ?_ hperm⟩
  rw [append_assoc]
  exact ((Q.perm_pop hrest).map (signedElem p)).append_left rs

lemma Delivers.next (hplain : Plain p) (hkeeps : Keeps nextBatch P)
    (hnext : next Q p nextBatch raw fuel it = .ok (result, it')) :
    Delivers p P (rs ++ [result]) it' := by
  obtain ⟨it₁, top, it₂, hit₁, hpop, hit', rfl⟩ := (next_eq_ok_iff hplain).mp hnext
  exact ((h.initializeIfNeeded hplain hkeeps hit₁).popQueue hpop).updateNext hplain hkeeps hit'

lemma Delivers.hasNext (hplain : Plain p) (hkeeps : Keeps nextBatch P)
    (hmore : hasNext Q p nextBatch raw it = .ok (more, it')) :
    Delivers p P rs it' := by
  obtain ⟨it₁, hit₁, heq⟩ := bind_eq_ok.mp hmore
  obtain ⟨-, rfl⟩ := Prod.mk.inj (Except.ok.inj heq)
  exact h.initializeIfNeeded hplain hkeeps hit₁

end

lemma Delivers.run (hplain : Plain p) (hkeeps : Keeps nextBatch P) (h : Delivers p P rs it)
    (hrun : run Q p nextBatch raw fuel calls it = .ok (rest, it')) :
    Delivers p P (rs ++ rest) it' := by
  induction calls generalizing it rs rest with
  | nil =>
    cases hrun
    rw [append_nil]
    exact h
  | cons call calls ih =>
    cases call with
    | hasNext =>
      obtain ⟨⟨more, it₁⟩, hmore, hrest⟩ := bind_eq_ok.mp hrun
      exact ih (h.hasNext hplain hkeeps hmore) hrest
    | next =>
      obtain ⟨⟨result, it₁⟩, hresult, hrest⟩ := bind_eq_ok.mp hrun
      obtain ⟨⟨results', it₂⟩, hresults', ⟨⟩⟩ := bind_eq_ok.mp hrest
      have hall := ih (h.next hplain hkeeps hresult) hresults'
      rwa [append_assoc] at hall

/-! ### Retained order -/

section Order

omit [InvolutiveNeg F]

variable [Neg F]

structure Ascending (Q : StdPriorityQueue (DistId F)) (p : IteratorParams)
    (done : List (DistId F)) (it : IndexIterator F B) : Prop where
  started : it.initialized = true ∨ done = []
  sorted : done.Pairwise fun a b => a.val ≤ b.val
  below : ∀ top rest, popQueue Q it = some (top, rest) → ∀ e ∈ done, e.val ≤ top.val

lemma initialized_updateNext (h : updateNext Q p nextBatch raw it = .ok it') :
    it'.initialized = it.initialized := by
  obtain ⟨⟨batch, source⟩, -, h⟩ := bind_eq_ok.mp h
  unfold handleBatch at h
  dsimp only at h
  split_ifs at h
  · rw [← Except.ok.inj h]
  · obtain ⟨e, -, ⟨⟩⟩ := bind_eq_ok.mp h
    rfl
  · rw [← Except.ok.inj h]

omit [Neg F] in
lemma initialized_popQueue (h : popQueue Q it = some (top, it')) :
    it'.initialized = it.initialized := by
  unfold popQueue at h
  split_ifs at h
  all_goals
    obtain ⟨e, -, heq⟩ := Option.map_eq_some_iff.mp h
    obtain ⟨-, rfl⟩ := Prod.mk.inj heq
    rfl

lemma dropEarlier_spec (h : dropEarlier Q p nextBatch raw val fuel it = .ok it') :
    it'.initialized = it.initialized ∧
      ∀ top rest, popQueue Q it' = some (top, rest) → val ≤ top.val := by
  induction fuel generalizing it with
  | zero => cases h
  | succ fuel ih =>
    unfold dropEarlier at h
    cases hpop : popQueue Q it with
    | none =>
      rw [hpop] at h
      cases h
      exact ⟨rfl, fun top rest htop => by rw [hpop] at htop; cases htop⟩
    | some e =>
      rw [hpop] at h
      dsimp only at h
      split_ifs at h with hle
      · cases h
        refine ⟨rfl, fun top rest htop => ?_⟩
        rw [hpop] at htop
        obtain ⟨rfl, -⟩ := Prod.mk.inj (Option.some.inj htop)
        exact hle
      · obtain ⟨it₁, hit₁, hrest⟩ := bind_eq_ok.mp h
        obtain ⟨hinit, hbelow⟩ := ih hrest
        rw [initialized_updateNext hit₁, initialized_popQueue hpop] at hinit
        exact ⟨hinit, hbelow⟩

lemma Ascending.initializeIfNeeded (h : Ascending Q p done it)
    (hit' : initializeIfNeeded Q p nextBatch raw it = .ok it') :
    Ascending Q p done it' ∧ it'.initialized = true := by
  unfold IndexIterator.initializeIfNeeded at hit'
  split_ifs at hit' with hinit
  · cases hit'
    exact ⟨h, hinit⟩
  · obtain rfl := h.started.resolve_left hinit
    obtain ⟨it₁, -, ⟨⟩⟩ := bind_eq_ok.mp hit'
    exact ⟨⟨.inr rfl, .nil, nofun⟩, rfl⟩

lemma Ascending.next (h : Ascending Q p done it) (hretain : p.retainIteratorOrder = true)
    (hnext : next Q p nextBatch raw fuel it = .ok (result, it')) :
    ∃ top, result = ⟨top.id, signed p top.val⟩ ∧ Ascending Q p (done ++ [top]) it' := by
  obtain ⟨it₁, hit₁, hnext⟩ := bind_eq_ok.mp hnext
  obtain ⟨h₁, hinit₁⟩ := h.initializeIfNeeded hit₁
  cases hpop : popQueue Q it₁ with
  | none => simp [hpop] at hnext
  | some e =>
    rw [hpop] at hnext
    obtain ⟨it₂, hit₂, hnext⟩ := bind_eq_ok.mp hnext
    obtain ⟨it₃, hit₃, heq⟩ := bind_eq_ok.mp hnext
    rw [if_pos hretain] at hit₃
    cases heq
    obtain ⟨hinit, hbelow⟩ := dropEarlier_spec hit₃
    rw [initialized_updateNext hit₂, initialized_popQueue hpop, hinit₁] at hinit
    have hlast : ∀ q ∈ done, q.val ≤ e.1.val := h₁.below e.1 e.2 hpop
    refine ⟨e.1, rfl, .inl hinit, ?_, ?_⟩
    · exact pairwise_concat.mpr ⟨h₁.sorted, hlast⟩
    · intro top rest htop
      have hle := hbelow top rest htop
      exact forall_mem_concat.mpr ⟨fun q hq => (hlast q hq).trans hle, hle⟩

lemma Ascending.run (h : Ascending Q p done it) (hretain : p.retainIteratorOrder = true)
    (hrun : run Q p nextBatch raw fuel calls it = .ok (rs, it')) :
    ∃ tops : List (DistId F), rs = tops.map (fun e => ⟨e.id, signed p e.val⟩) ∧
      (done ++ tops).Pairwise fun a b => a.val ≤ b.val := by
  induction calls generalizing it done rs with
  | nil =>
    cases hrun
    exact ⟨[], rfl, by rw [append_nil]; exact h.sorted⟩
  | cons call calls ih =>
    cases call with
    | hasNext =>
      obtain ⟨⟨more, it₁⟩, hmore, hrest⟩ := bind_eq_ok.mp hrun
      obtain ⟨it₂, hit₂, heq⟩ := bind_eq_ok.mp hmore
      obtain ⟨-, rfl⟩ := Prod.mk.inj (Except.ok.inj heq)
      exact ih (h.initializeIfNeeded hit₂).1 hrest
    | next =>
      obtain ⟨⟨result, it₁⟩, hresult, hrest⟩ := bind_eq_ok.mp hrun
      obtain ⟨⟨rest, it₂⟩, hmore, ⟨⟩⟩ := bind_eq_ok.mp hrest
      obtain ⟨top, rfl, h₁⟩ := h.next hretain hresult
      obtain ⟨tops, rfl, hsorted⟩ := ih h₁ hmore
      exact ⟨top :: tops, rfl, by rwa [append_assoc] at hsorted⟩

end Order

/-! ### Both together -/

def logged (nextBatch : B → Except Fault (List (DistId F) × B)) (s : B × List (DistId F)) :
    Except Fault (List (DistId F) × (B × List (DistId F))) := do
  let (batch, source) ← nextBatch s.1
  return (batch, (source, s.2 ++ batch))

/-- **Order and deliveries**, for any subclass and any calls.  With `retain_iterator_order` no
distance is closer than an earlier one; without it and without refine, the results and what is still
queued are together what has been delivered. -/
theorem run_ordered_or_complete (Q : StdPriorityQueue (DistId ℚ)) (p : IteratorParams)
    (nextBatch : B → Except Fault (List (DistId ℚ) × B)) (raw : ℤ → ℚ) (fuel : ℕ)
    (calls : List Call) (source : B) {rs : List (DistId ℚ)}
    {it : IndexIterator ℚ (B × List (DistId ℚ))}
    (hrun : run Q p (logged nextBatch) raw fuel calls { source := (source, []) } =
      .ok (rs, it)) :
    (p.retainIteratorOrder = true → rs.Pairwise fun a b =>
      if p.largerIsCloser then b.val ≤ a.val else a.val ≤ b.val) ∧
    (p.retainIteratorOrder = false → p.refineRatio = 0 →
      (rs ++ (it.refinedRes ++ it.res).map (signedElem p)).Perm it.source.2) := by
  constructor
  · intro hretain
    have hstart : Ascending Q p [] (B := B × List (DistId ℚ)) { source := (source, []) } :=
      ⟨.inr rfl, .nil, nofun⟩
    obtain ⟨tops, rfl, hsorted⟩ := hstart.run hretain hrun
    refine pairwise_map.mpr (List.Pairwise.imp (fun {a b} hab => ?_) hsorted)
    unfold signed
    split_ifs
    · exact neg_le_neg hab
    · exact hab
  · intro hretain hratio
    have hkeeps : Keeps (logged nextBatch)
        fun delivered (s : B × List (DistId ℚ)) => delivered = s.2 := by
      rintro delivered s batch s' rfl hbatch
      obtain ⟨e, -, ⟨⟩⟩ := bind_eq_ok.mp hbatch
      rfl
    have hstart : Delivers p (fun delivered (s : B × List (DistId ℚ)) => delivered = s.2) []
        { source := (source, []) } := ⟨rfl, [], rfl, .refl _⟩
    have hend := hstart.run ⟨hratio, hretain⟩ hkeeps hrun
    obtain ⟨delivered, rfl, hperm⟩ := hend.exists_perm
    rw [hend.refinedRes_eq]
    exact hperm

/-- One batch of two. -/
theorem run_ordered_or_complete_twoElements :
    ∃ rs it, run StdPriorityQueue.sorting { largerIsCloser := false }
        (logged fun n : ℕ => .ok (if n = 0 then [(⟨4, 3⟩ : DistId ℚ), ⟨5, 1⟩] else [], n + 1))
        (fun _ => 0) 0 [.hasNext, .next] { source := (0, []) } = .ok (rs, it) ∧
      (rs ++ (it.refinedRes ++ it.res).map (signedElem { largerIsCloser := false })).Perm
        it.source.2 := by
  obtain ⟨⟨rs, it⟩, hrun⟩ : ∃ e, run StdPriorityQueue.sorting { largerIsCloser := false }
      (logged fun n : ℕ => .ok (if n = 0 then [(⟨4, 3⟩ : DistId ℚ), ⟨5, 1⟩] else [], n + 1))
      (fun _ => 0) 0 [.hasNext, .next] { source := (0, []) } = .ok e := ⟨_, rfl⟩
  exact ⟨rs, it, hrun, (run_ordered_or_complete _ _ _ _ _ _ _ hrun).2 rfl rfl⟩

end Rvanns.Knowhere.IndexIterator
