import Rvanns.Knowhere.RangeSearch

/-!
# What range search returns

The queue of the unordered task holds distances of results, and the bound is never closer than any
of them (`Bounded`).
-/

namespace Rvanns.Knowhere

open Cpp List Option RangeConfig Cursor

namespace RangeConfig

variable {F : Type} [LinearOrder F] {cfg : RangeConfig F}

/-! ### Distances -/

lemma strictWeak_isFirstCloser (cfg : RangeConfig F) : StrictWeak cfg.isFirstCloser := by
  cases hlarger : cfg.theLargerTheCloser with
  | true => exact StrictWeak.of_key OrderDual.toDual fun a b => by simp [isFirstCloser, hlarger]
  | false => exact StrictWeak.of_key id fun a b => by simp [isFirstCloser, hlarger]

lemma strictWeak_above (cfg : RangeConfig F) : StrictWeak cfg.above :=
  (strictWeak_isFirstCloser cfg).swap

def inRange (cfg : RangeConfig F) (dist : F) : Bool :=
  cfg.isFirstCloser dist cfg.radius && !cfg.tooClose dist

def AtLeastAsFar (cfg : RangeConfig F) (a b : F) : Prop := ¬ cfg.isFirstCloser a b

instance (cfg : RangeConfig F) (a b : F) : Decidable (cfg.AtLeastAsFar a b) :=
  inferInstanceAs (Decidable (¬ _))

lemma AtLeastAsFar.trans (hab : cfg.AtLeastAsFar a b) (hbe : cfg.AtLeastAsFar b e) :
    cfg.AtLeastAsFar a e :=
  (strictWeak_isFirstCloser cfg).negTrans hab hbe

lemma AtLeastAsFar.refl (cfg : RangeConfig F) (a : F) : cfg.AtLeastAsFar a a :=
  (strictWeak_isFirstCloser cfg).irrefl a

lemma AtLeastAsFar.of_closer (h : cfg.isFirstCloser a b) : cfg.AtLeastAsFar b a :=
  (strictWeak_isFirstCloser cfg).asymm h

lemma closer_of_atLeastAsFar (hab : cfg.isFirstCloser a b)
    (heb : cfg.AtLeastAsFar e b) : cfg.isFirstCloser a e := by
  by_contra hae
  exact AtLeastAsFar.trans hae heb hab

/-! ### The bound -/

structure Bounded (cfg : RangeConfig F) (queue : List F) (bound : F) : Prop where
  queue_le : ∀ h ∈ queue, cfg.AtLeastAsFar bound h
  le_radius : cfg.AtLeastAsFar cfg.radius bound
  full : bound = cfg.radius ∨ 0 < cfg.rangeSearchK ∧ cfg.rangeSearchK ≤ queue.length

variable {Q : StdPriorityQueue F}

lemma returns_tighten {dist : F} (hinv : Bounded cfg queue bound)
    (hdist : cfg.isFirstCloser dist bound) : Returns (cfg.tighten Q queue bound dist) fun r =>
      Bounded cfg r.1 r.2 ∧ cfg.AtLeastAsFar bound r.2 ∧ r.1.Subperm (dist :: queue) := by
  have hall := forall_mem_cons.mpr ⟨AtLeastAsFar.of_closer hdist, hinv.queue_le⟩
  rw [tighten]
  by_cases hk : 0 < cfg.rangeSearchK
  · rw [if_pos hk]
    by_cases hlen : queue.length < cfg.rangeSearchK
    · -- there is room
      rw [if_pos hlen]
      have hperm := Q.perm_push cfg.above queue dist
      refine .pure ⟨⟨fun h hh => hall h (hperm.mem_iff.mp hh), hinv.le_radius, ?_⟩,
        AtLeastAsFar.refl cfg bound, hperm.subperm⟩
      exact .inl (hinv.full.resolve_right fun hfull => by omega)
    · rw [if_neg hlen]
      have hne : queue ≠ [] := by
        rintro rfl
        simp only [length_nil, Nat.cast_zero] at hlen
        omega
      obtain ⟨old, rest, hpop⟩ := Q.exists_pop cfg.above hne
      have hperm := Q.perm_push cfg.above rest dist
      have hpush : Q.push cfg.above rest dist ≠ [] := by
        intro hnil
        have := hperm.length_eq
        rw [hnil] at this
        simp at this
      obtain ⟨top, rest', hpop'⟩ := Q.exists_pop cfg.above hpush
      have hrest : rest.Subperm queue :=
        ((sublist_cons_self old rest).subperm).trans (Q.perm_pop hpop).subperm
      have hsub := hperm.subperm.trans ((subperm_cons dist).mpr hrest)
      have htop := (Q.perm_pop hpop').mem_iff.mp mem_cons_self
      have hbound : cfg.AtLeastAsFar bound top := hall top (hsub.subset htop)
      rw [hpop]
      show Returns (Q.pop cfg.above (Q.push cfg.above rest dist) >>= _) _
      rw [hpop']
      refine .pure ⟨⟨fun h hh => ?_, hinv.le_radius.trans hbound, .inr ⟨hk, ?_⟩⟩, hbound,
        hsub⟩
      · exact Q.top (strictWeak_above cfg) hpop' h hh
      · have := hperm.length_eq
        have := (Q.perm_pop hpop).length_eq
        simp only [length_cons] at *
        omega
  · rw [if_neg hk]
    exact .pure ⟨hinv, AtLeastAsFar.refl cfg bound, (sublist_cons_self dist queue).subperm⟩

/-! ### The unordered task -/

structure Sound (cfg : RangeConfig F) (drawn rs : List (DistId F)) : Prop where
  /-- A result has been drawn, and is there no more often than it was drawn. -/
  sublist : rs.Sublist drawn
  in_range : ∀ p ∈ rs, cfg.inRange p.val
  /-- What is in range and missing is at least as far as `range_search_k` of the results. -/
  lost : ∃ lost, (rs ++ lost).Perm (drawn.filter fun p => cfg.inRange p.val)
    ∧ ∀ p ∈ lost, 0 < cfg.rangeSearchK
      ∧ cfg.rangeSearchK ≤ rs.countP fun r => cfg.AtLeastAsFar p.val r.val

lemma Sound.nil (cfg : RangeConfig F) : Sound cfg [] [] where
  sublist := List.Sublist.refl []
  in_range _ hp := absurd hp not_mem_nil
  lost := ⟨[], .refl [], nofun⟩

lemma Sound.skip (h : Sound cfg drawn rs)
    (hp : ¬ cfg.inRange p.val) : Sound cfg (drawn ++ [p]) rs where
  sublist := h.sublist.trans (sublist_append_left _ _)
  in_range := h.in_range
  lost := by
    obtain ⟨lost, hperm, hlost⟩ := h.lost
    refine ⟨lost, ?_, hlost⟩
    rwa [filter_append, filter_singleton, Bool.eq_false_iff.mpr hp, cond_false, append_nil]

lemma Sound.lose (h : Sound cfg drawn rs) (hk : 0 < cfg.rangeSearchK)
    (hcount : cfg.rangeSearchK ≤ rs.countP fun r => cfg.AtLeastAsFar p.val r.val)
    (hp : cfg.inRange p.val) : Sound cfg (drawn ++ [p]) rs where
  sublist := h.sublist.trans (sublist_append_left _ _)
  in_range := h.in_range
  lost := by
    obtain ⟨lost, hperm, hlost⟩ := h.lost
    refine ⟨lost ++ [p], ?_, ?_⟩
    · rw [filter_append, filter_singleton, hp, ← append_assoc]
      exact hperm.append_right [p]
    · exact forall_mem_concat.mpr ⟨hlost, hk, hcount⟩

lemma Sound.accept (h : Sound cfg drawn rs)
    (hp : cfg.inRange p.val) : Sound cfg (drawn ++ [p]) (rs ++ [p]) where
  sublist := h.sublist.append (List.Sublist.refl [p])
  in_range := forall_mem_concat.mpr ⟨h.in_range, hp⟩
  lost := by
    obtain ⟨lost, hperm, hlost⟩ := h.lost
    refine ⟨lost, ?_, ?_⟩
    · rw [filter_append, filter_singleton, hp, append_assoc]
      exact (perm_append_comm.append_left rs).trans (by
        rw [← append_assoc]
        exact hperm.append_right [p])
    · intro r hr
      obtain ⟨hk, hcount⟩ := hlost r hr
      refine ⟨hk, hcount.trans ?_⟩
      rw [countP_append]
      omega

structure TaskInv (cfg : RangeConfig F) (drawn : List (DistId F)) (s : UnorderedTask F) : Prop where
  numNext_eq : s.numNext = drawn.length
  bounded : Bounded cfg s.earlyStopFurtherBounds s.tighterFurtherBound
  queue_subperm : s.earlyStopFurtherBounds.Subperm (s.results.map DistId.val)
  sound : Sound cfg drawn s.results

lemma taskInv_initial (cfg : RangeConfig F) : TaskInv cfg [] cfg.initialTask where
  numNext_eq := rfl
  bounded := {
    queue_le := nofun
    le_radius := AtLeastAsFar.refl cfg cfg.radius
    full := .inl rfl }
  queue_subperm := List.Subperm.refl []
  sound := Sound.nil cfg

lemma TaskInv.le_countP {dist : F}
    (h : TaskInv cfg drawn s) (hdist : cfg.AtLeastAsFar dist s.tighterFurtherBound)
    (hfull : cfg.rangeSearchK ≤ s.earlyStopFurtherBounds.length) :
    cfg.rangeSearchK ≤ s.results.countP fun r => cfg.AtLeastAsFar dist r.val := by
  have hqueue : s.earlyStopFurtherBounds.countP (fun e => decide (cfg.AtLeastAsFar dist e))
      = s.earlyStopFurtherBounds.length := by
    rw [countP_eq_length]
    intro e he
    exact decide_eq_true (hdist.trans (h.bounded.queue_le e he))
  have hle := h.queue_subperm.countP_le fun e => decide (cfg.AtLeastAsFar dist e)
  rw [hqueue, countP_map] at hle
  exact hfull.trans (by exact_mod_cast hle)

lemma returns_unorderedTurn (drawn : List (DistId F)) (s : UnorderedTask F) (p : DistId F)
    (h : TaskInv cfg drawn s) : Returns (cfg.unorderedTurn Q s p) fun r =>
      TaskInv cfg (drawn ++ [p]) r.1 := by
  have hnum : s.numNext + 1 = (drawn ++ [p]).length := by
    rw [h.numNext_eq, length_append, length_singleton]
  rw [unorderedTurn]
  by_cases hclose : cfg.tooClose p.val = true
  · rw [if_pos hclose]
    exact .pure ⟨hnum, h.bounded, h.queue_subperm, h.sound.skip (by simp [inRange, hclose])⟩
  rw [if_neg hclose]
  by_cases hfar : cfg.sameOrTooFar s.tighterFurtherBound p.val = true
  · rw [if_pos hfar]
    have hbound : cfg.AtLeastAsFar p.val s.tighterFurtherBound := by
      simpa [sameOrTooFar, AtLeastAsFar] using hfar
    refine .pure ⟨hnum, h.bounded, h.queue_subperm, ?_⟩
    by_cases hp : cfg.inRange p.val = true
    · -- the radius does not turn it away, so the bound has been tightened and the queue is full
      have hradius : cfg.isFirstCloser p.val cfg.radius = true := by
        simp only [inRange, Bool.and_eq_true] at hp
        exact hp.1
      rcases h.bounded.full with heq | ⟨hk, hfull⟩
      · rw [heq] at hbound
        exact absurd hradius hbound
      · exact h.sound.lose hk (h.le_countP hbound hfull) hp
    · exact h.sound.skip hp
  · rw [if_neg hfar]
    have hcloser : cfg.isFirstCloser p.val s.tighterFurtherBound = true := by
      simpa [sameOrTooFar] using hfar
    have hp : cfg.inRange p.val = true := by
      have := closer_of_atLeastAsFar hcloser h.bounded.le_radius
      simp [inRange, this, hclose]
    apply (returns_tighten h.bounded hcloser).bind
    rintro ⟨queue, bound⟩ ⟨hbounded, -, hsub⟩
    refine .pure ⟨hnum, hbounded, ?_, h.sound.accept hp⟩
    rw [map_append]
    have hcons : (p.val :: s.earlyStopFurtherBounds).Subperm (p.val :: s.results.map DistId.val) :=
      (subperm_cons _).mpr h.queue_subperm
    exact hsub.trans (hcons.trans (perm_append_singleton _ _).symm.subperm)

lemma bound_unorderedTurn (s : UnorderedTask F) (p : DistId F) (r : UnorderedTask F × Bool)
    (hs : Bounded cfg s.earlyStopFurtherBounds s.tighterFurtherBound)
    (h : cfg.unorderedTurn Q s p = some r) :
    Bounded cfg r.1.earlyStopFurtherBounds r.1.tighterFurtherBound
      ∧ cfg.AtLeastAsFar s.tighterFurtherBound r.1.tighterFurtherBound := by
  rw [unorderedTurn] at h
  by_cases hclose : cfg.tooClose p.val = true
  · rw [if_pos hclose] at h
    cases h
    exact ⟨hs, AtLeastAsFar.refl cfg _⟩
  rw [if_neg hclose] at h
  by_cases hfar : cfg.sameOrTooFar s.tighterFurtherBound p.val = true
  · rw [if_pos hfar] at h
    cases h
    exact ⟨hs, AtLeastAsFar.refl cfg _⟩
  · rw [if_neg hfar] at h
    have hcloser : cfg.isFirstCloser p.val s.tighterFurtherBound = true := by
      simpa [sameOrTooFar] using hfar
    obtain ⟨⟨queue, bound⟩, htighten, hbounded, hle, -⟩ := returns_tighten (Q := Q) hs hcloser
    rw [htighten] at h
    cases h
    exact ⟨hbounded, hle⟩

def taskAfter (cfg : RangeConfig F) (Q : StdPriorityQueue F) (l : List (DistId F)) :
    Option (UnorderedTask F) :=
  Cursor.loopList (cfg.unorderedTurn Q) l cfg.initialTask

lemma returns_taskAfter (cfg : RangeConfig F) (Q : StdPriorityQueue F) (l : List (DistId F)) :
    Returns (cfg.taskAfter Q l) fun s => TaskInv cfg (l.take s.numNext) s := by
  apply (returns_loopList returns_unorderedTurn l (taskInv_initial cfg)).mono
  rintro s ⟨pre, hpre, hs⟩
  rwa [hs.numNext_eq, ← prefix_iff_eq_take.mp hpre]

lemma taskAfter_bound (l : List (DistId F)) (hnm : n ≤ m) :
    ∃ s ∈ cfg.taskAfter Q (l.take n), ∃ s' ∈ cfg.taskAfter Q (l.take m),
      cfg.AtLeastAsFar s.tighterFurtherBound s'.tighterFurtherBound := by
  obtain ⟨s, hs, -⟩ := returns_taskAfter cfg Q (l.take n)
  obtain ⟨s', hs', -⟩ := returns_taskAfter cfg Q (l.take m)
  refine ⟨s, hs, s', hs', ?_⟩
  have hsplit := take_append_drop n (l.take m)
  rw [take_take, min_eq_left hnm] at hsplit
  rw [← hsplit] at hs'
  exact loopList_append (R := fun s s' : UnorderedTask F =>
      cfg.AtLeastAsFar s.tighterFurtherBound s'.tighterFurtherBound)
    (fun s => AtLeastAsFar.refl cfg _) (fun _ _ _ h h' => h.trans h') bound_unorderedTurn
    (taskInv_initial cfg).bounded hs hs'

lemma taskWithUnorderedIterator_eq (cfg : RangeConfig F) (Q : StdPriorityQueue F)
    (hl : it.Delivers it.state l) (hfuel : l.length < fuel) :
    cfg.taskWithUnorderedIterator Q fuel it = defined (cfg.taskAfter Q l) :=
  loop_eq hl hfuel cfg.initialTask

def numDrawn (cfg : RangeConfig F) (Q : StdPriorityQueue F) (fuel : ℕ) (it : AnnIterator F) : ℕ :=
  if cfg.rangeSearchK = 0 then 0
  else match cfg.taskWithUnorderedIterator Q fuel it with
    | .ok s => s.numNext
    | .error _ => 0

/-! ### The ordered task -/

/-- The ordered task ends at this distance. -/
def stops (cfg : RangeConfig F) (dist : F) : Bool :=
  !cfg.tooClose dist && cfg.sameOrTooFar cfg.radius dist

lemma inRange_eq_false_of_stops {dist : F} (h : cfg.stops dist = true) :
    cfg.inRange dist = false := by
  simp only [stops, sameOrTooFar, Bool.and_eq_true, Bool.not_eq_true'] at h
  simp [inRange, h.2]

lemma loopList_orderedTurn (hk : cfg.rangeSearchK < 0) (l rs : List (DistId F)) :
    loopList (fun rs p => some (cfg.orderedTurn rs p)) l rs
      = some (rs ++ (l.takeWhile fun p => !cfg.stops p.val).filter
          fun p => cfg.inRange p.val) := by
  induction l generalizing rs with
  | nil => simp [loopList]
  | cons a l ih =>
    rw [loopList, some_bind, orderedTurn]
    by_cases hclose : cfg.tooClose a.val = true
    · have hgo : cfg.stops a.val = false := by simp [stops, hclose]
      have hout : cfg.inRange a.val = false := by simp [inRange, hclose]
      rw [if_pos hclose, takeWhile_cons_of_pos (by simp [hgo]), filter_cons_of_neg (by simp [hout])]
      exact ih rs
    rw [if_neg hclose]
    by_cases hfar : cfg.sameOrTooFar cfg.radius a.val = true
    · have hstop : cfg.stops a.val = true := by simp [stops, hclose, hfar]
      rw [if_pos hfar, takeWhile_cons_of_neg (by simp [hstop]), filter_nil, append_nil]
      rfl
    · have hgo : cfg.stops a.val = false := by simp [stops, hfar]
      have hin : cfg.inRange a.val = true := by
        have hcloser : cfg.isFirstCloser a.val cfg.radius = true := by
          simpa [sameOrTooFar] using hfar
        simp [inRange, hcloser, hclose]
      have hmore : decide (0 ≤ cfg.rangeSearchK ∧ cfg.rangeSearchK ≤ (rs ++ [a]).length)
        = false :=
        decide_eq_false fun h => absurd h.1 (not_le.mpr hk)
      rw [if_neg hfar]
      dsimp only
      rw [hmore, if_neg Bool.false_ne_true, ih (rs ++ [a]),
        takeWhile_cons_of_pos (by simp [hgo]), filter_cons, if_pos hin, append_assoc,
        singleton_append]

/-- Nothing in range comes for the first time after a value that ends the ordered task. -/
def NothingLate (cfg : RangeConfig F) (l : List (DistId F)) : Prop :=
  ∀ before p after, l = before ++ p :: after → cfg.stops p.val = true →
    ∀ q ∈ after, cfg.inRange q.val = true → q ∈ before

lemma nothingLate_iff (cfg : RangeConfig F) (l : List (DistId F)) :
    (∀ p ∈ l, cfg.inRange p.val = true → p ∈ (l.takeWhile fun p => !cfg.stops p.val).filter
        fun p => cfg.inRange p.val) ↔ cfg.NothingLate l := by
  have hsplit := takeWhile_append_dropWhile (p := fun p : DistId F => !cfg.stops p.val) (l := l)
  constructor
  · rintro hall before p after rfl hstop q hq hin
    -- what is returned comes before the first value that ends the task
    have hmem := mem_of_mem_filter (hall q (by simp [hq]) hin)
    rw [takeWhile_append] at hmem
    split_ifs at hmem
    · rw [takeWhile_cons_of_neg (by simp [hstop]), append_nil] at hmem
      exact hmem
    · exact (takeWhile_sublist _).subset hmem
  · intro hlate p hp hin
    refine mem_filter.mpr ⟨?_, hin⟩
    cases hdrop : l.dropWhile fun p => !cfg.stops p.val with
    | nil =>
      rw [hdrop, append_nil] at hsplit
      rwa [hsplit]
    | cons a rest =>
      have hstop : cfg.stops a.val = true := by
        have hnot := dropWhile_get_zero_not (fun p : DistId F => !cfg.stops p.val) l
          (by rw [hdrop]; exact Nat.succ_pos _)
        simpa [hdrop] using hnot
      rw [hdrop] at hsplit
      rw [← hsplit] at hp
      rcases mem_append.mp hp with hp | hp
      · exact hp
      · rcases mem_cons.mp hp with rfl | hp
        · rw [inRange_eq_false_of_stops hstop] at hin
          cases hin
        · exact hlate _ a rest hsplit.symm hstop p hp hin

end RangeConfig

/-! ### The results of all queries -/

variable {F : Type}

def resultOf (rs : List (List (DistId F))) : RangeSearchResult F :=
  ⟨(rs.map (·.map DistId.val)).flatten, (rs.map (·.map DistId.id)).flatten,
    rowOffsets rs⟩

lemma getRangeSearchResult_eq (rs : List (List (DistId F))) :
    getRangeSearchResult (rs.map (·.map DistId.val)) (rs.map (·.map DistId.id))
      rs.length = .ok (resultOf rs) := by
  have hoffsets : rowOffsets (rs.map (·.map DistId.val)) = rowOffsets rs :=
    rowOffsets_congr (by simp [Function.comp_def])
  rw [getRangeSearchResult, if_neg (by simp), if_neg (by simp), hoffsets]
  rfl

lemma query_resultOf {rs : List (List (DistId F))} {r : List (DistId F)} (hr : rs[i]? = some r) :
    (resultOf rs).query i = some (r.map DistId.val, r.map DistId.id) := by
  have hi : i < rs.length := lt_length hr
  have hcut {β : Type} (f : DistId F → β) :
      ((rs.map (·.map f)).flatten.drop (rowOffset rs i)).take r.length = r.map f := by
    have hlens : (rs.map (·.map f)).map length = rs.map length := by
      simp [Function.comp_def]
    have hri : (rs.map (·.map f))[i]? = some (r.map f) := by rw [getElem?_map, hr]; rfl
    have := take_drop_rowOffset hri
    rwa [length_map, rowOffset_congr hlens] at this
  have hb : (resultOf rs).lims[i]? = some (rowOffset rs i) := getElem?_rowOffsets hi.le
  have he : (resultOf rs).lims[i + 1]? = some (rowOffset rs i + r.length) := by
    rw [← rowOffset_succ hr]
    exact getElem?_rowOffsets hi
  rw [RangeSearchResult.query, hb, he]
  show some (_, _) = _
  rw [Nat.add_sub_cancel_left]
  exact congrArg some (Prod.ext (hcut DistId.val) (hcut DistId.id))

variable [LinearOrder F] {cfg : RangeConfig F} {Q : StdPriorityQueue F}

lemma rangeSearch_zero (hk : cfg.rangeSearchK = 0) (fuel nq : ℕ)
    (annIterator : Except SearchError (List (AnnIterator F))) :
    rangeSearch Q cfg fuel nq annIterator = .ok (.ok (resultOf (replicate nq []))) := by
  have hresult := getRangeSearchResult_eq (replicate nq ([] : List (DistId F)))
  rw [map_replicate, map_replicate, length_replicate, map_nil, map_nil] at hresult
  rw [rangeSearch.eq_def, if_pos hk]
  rw [hresult]
  rfl

lemma exists_rangeSearch (hk : cfg.rangeSearchK ≠ 0)
    (htasks : ∀ it ∈ its, ∃ rs, cfg.task Q fuel it = .ok rs) (nq : ℕ) :
    ∃ r, rangeSearch Q cfg fuel nq (.ok its) = .ok (.ok r)
      ∧ ∀ (i : ℕ) it, its[i]? = some it → ∃ rs, cfg.task Q fuel it = .ok rs
        ∧ r.query i = some (rs.map DistId.val, rs.map DistId.id) := by
  obtain ⟨rs, hresults, hlen, hget⟩ := exists_mapM_eq_ok htasks
  refine ⟨resultOf rs, ?_, ?_⟩
  · rw [rangeSearch.eq_def, if_neg hk]
    show (its.mapM (cfg.task Q fuel) >>= _) = _
    rw [hresults, ok_bind, ← hlen, getRangeSearchResult_eq]
    rfl
  · intro i it hit
    obtain ⟨r, hr, htask⟩ := hget i it hit
    exact ⟨r, htask, query_resultOf hr⟩

/-- **Range search over iterators that need not deliver their values in order.**  It comes to an end
when every iterator does, and what it returns for each query is sound for the values it has drawn.
The bound only tightens. -/
theorem rangeSearch_unordered (Q : StdPriorityQueue F) (cfg : RangeConfig F)
    (hunordered : ¬ cfg.retainIteratorOrder) (its : List (AnnIterator F))
    (lists : List (List (DistId F))) (fuel : ℕ)
    (hits : List.Forall₂ (fun it l => it.Delivers it.state l ∧ l.length < fuel) its lists) :
    ∃ r, rangeSearch Q cfg fuel its.length (.ok its) = .ok (.ok r) ∧
      ∀ (i : ℕ) (it : AnnIterator F) (l : List (DistId F)),
        its[i]? = some it → lists[i]? = some l →
        (∃ rs, r.query i = some (rs.map DistId.val, rs.map DistId.id)
          ∧ RangeConfig.Sound cfg (l.take (cfg.numDrawn Q fuel it)) rs)
        ∧ ∀ n m, n ≤ m → ∃ s ∈ cfg.taskAfter Q (l.take n), ∃ s' ∈ cfg.taskAfter Q (l.take m),
          cfg.AtLeastAsFar s.tighterFurtherBound s'.tighterFurtherBound := by
  by_cases hk : cfg.rangeSearchK = 0
  · refine ⟨_, rangeSearch_zero hk fuel its.length _, ?_⟩
    intro i it l hit hl
    have hi : i < its.length := lt_length hit
    have hnil : (replicate its.length ([] : List (DistId F)))[i]? = some [] := by
      rw [getElem?_replicate, if_pos hi]
    refine ⟨⟨[], query_resultOf hnil, ?_⟩, fun n m hnm => taskAfter_bound l hnm⟩
    rw [numDrawn, if_pos hk]
    exact RangeConfig.Sound.nil cfg
  · -- every task comes to an end, in the state after the values of its iterator
    have htask {it : AnnIterator F} {l : List (DistId F)}
        (h : it.Delivers it.state l ∧ l.length < fuel) :
        ∃ s, cfg.taskWithUnorderedIterator Q fuel it = .ok s ∧ cfg.task Q fuel it = .ok s.results
          ∧ RangeConfig.TaskInv cfg (l.take s.numNext) s := by
      obtain ⟨s, hs, hinv⟩ := returns_taskAfter cfg Q l
      have hrun : cfg.taskWithUnorderedIterator Q fuel it = .ok s := by
        rw [taskWithUnorderedIterator_eq cfg Q h.1 h.2, hs]
        rfl
      refine ⟨s, hrun, ?_, hinv⟩
      rw [task, if_neg hunordered, hrun]
      rfl
    have htasks : ∀ it ∈ its, ∃ rs, cfg.task Q fuel it = .ok rs := by
      intro it hit
      obtain ⟨i, hi, rfl⟩ := getElem_of_mem hit
      obtain ⟨s, -, hs, -⟩ := htask (hits.get hi (hits.length_eq ▸ hi))
      exact ⟨s.results, hs⟩
    obtain ⟨r, hr, hquery⟩ := exists_rangeSearch hk htasks its.length
    refine ⟨r, hr, ?_⟩
    intro i it l hit hl
    refine ⟨?_, fun n m hnm => taskAfter_bound l hnm⟩
    obtain ⟨rs, hresults, hri⟩ := hquery i it hit
    have hdelivers : it.Delivers it.state l ∧ l.length < fuel := by
      obtain ⟨hi, rfl⟩ := List.getElem?_eq_some_iff.mp hit
      obtain ⟨hi', rfl⟩ := List.getElem?_eq_some_iff.mp hl
      exact hits.get hi hi'
    obtain ⟨s, hrun, hs, hinv⟩ := htask hdelivers
    obtain rfl := ok_unique hs hresults
    have hdrawn : cfg.numDrawn Q fuel it = s.numNext := by
      rw [numDrawn, if_neg hk, hrun]
    exact ⟨s.results, hri, hdrawn ▸ hinv.sound⟩

def fourDistances : List (DistId ℤ) := [⟨0, 9⟩, ⟨1, 4⟩, ⟨2, 8⟩, ⟨3, 8⟩]

def radiusTen : RangeConfig ℤ where
  theLargerTheCloser := false
  radius := 10
  rangeFilter := 0
  defaultRangeFilter := 0
  rangeSearchK := 2
  rangeSearchLevel := 1 / 2
  retainIteratorOrder := false

theorem rangeSearch_fourDistances : ∃ r,
    rangeSearch StdPriorityQueue.sorting radiusTen 5 1
      (.ok [⟨Cursor.ofList (DistId ℤ), fourDistances⟩]) = .ok (.ok r) ∧
    ∃ rs, r.query 0 = some (rs.map DistId.val, rs.map DistId.id)
      ∧ RangeConfig.Sound radiusTen (fourDistances.take (radiusTen.numDrawn
        StdPriorityQueue.sorting 5 ⟨Cursor.ofList (DistId ℤ), fourDistances⟩)) rs := by
  obtain ⟨r, hr, hquery⟩ := rangeSearch_unordered StdPriorityQueue.sorting radiusTen (by decide)
    [⟨ofList (DistId ℤ), fourDistances⟩] [fourDistances] 5
    (.cons ⟨delivers_ofList fourDistances, by decide⟩ .nil)
  exact ⟨r, hr, (hquery 0 _ _ rfl rfl).1⟩

end Rvanns.Knowhere
