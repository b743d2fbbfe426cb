import Rvanns.Faiss.Equiv.IndexIVF
import Rvanns.Knowhere.Equiv.PlainIterator
import Rvanns.Knowhere.IvfIterator

/-!
# What the iterator over an IVF index returns

Every batch brings the entries of the lists that come next, as they were when the iterator was
created (`reached_nextBatch`).
-/

namespace Rvanns.Knowhere.IvfIterator

open Cpp Faiss IndexIterator List IndexIVF

variable {Q V F : Type} [LinearOrder F] [InvolutiveNeg F]

def stored (ix : IndexIVF Q V F) (cs : ℕ → List (Entry V)) (bs : BitsetView) (x : Q) :
    List (DistId F) :=
  (ix.quantizer x ix.nlist).flatMap (ix.found cs (selects bs) x)

section Iterator

variable {P : StdPriorityQueue (DistId F)} {ix : IndexIVF Q V F} {bs : BitsetView}
  {live : ℕ → ℕ → ListStorage V} {raw : ℤ → F} {storage : ListStorage V}
  {cs : ℕ → List (Entry V)} {x : Q} {thr : ℕ}

/-! ### Batches -/

structure Reached (ix : IndexIVF Q V F) (cs : ℕ → List (Entry V)) (bs : BitsetView)
    (x : Q) (thr : ℕ) (delivered : List (DistId F))
    (ws : IndexIVF.IVFIteratorWorkspace Q F) : Prop where
  valid : ix.Valid cs ws
  next_le : ws.nextVisitCoarseListIdx ≤ ix.nlist
  queryData : ws.queryData = x
  coarse : ws.coarse = ix.quantizer x ix.nlist
  threshold_eq : ws.backupCountThreshold = thr
  delivered_eq : delivered = ix.delivered cs (selects bs) ws

variable {rs : List (DistId F)} {ws : IndexIVF.IVFIteratorWorkspace Q F}

omit [LinearOrder F] [InvolutiveNeg F] in
lemma Reached.eq_take (h : Reached ix cs bs x thr rs ws) :
    rs = ((ix.quantizer x ix.nlist).take ws.nextVisitCoarseListIdx).flatMap
      (ix.found cs (selects bs) x) := by
  rw [h.delivered_eq, IndexIVF.delivered, h.queryData, h.coarse]

omit [LinearOrder F] [InvolutiveNeg F] in
lemma Reached.prefix_stored (h : Reached ix cs bs x thr rs ws) :
    rs <+: stored ix cs bs x := by
  rw [h.eq_take, stored]
  conv_rhs => rw [← take_append_drop ws.nextVisitCoarseListIdx
    (ix.quantizer x ix.nlist), flatMap_append]
  exact prefix_append _ _

omit [LinearOrder F] [InvolutiveNeg F] in
lemma Reached.eq_stored (h : Reached ix cs bs x thr rs ws)
    (hall : ws.nextVisitCoarseListIdx = ix.nlist) :
    rs = stored ix cs bs x := by
  have hlen := h.valid.covers.length_eq
  rw [h.eq_take, take_of_length_le (by rw [← h.coarse]; omega), stored]

variable (hholds : storage.Holds cs) (hlive : ∀ i t, storage.Later (live i t))

include hholds hlive in
omit [LinearOrder F] [InvolutiveNeg F] in
lemma Reached.nextBatch (h : Reached ix cs bs x thr rs ws) (resSize : ℕ) :
    ∃ batch workspace', nextBatch ix bs live resSize ws = .ok (batch, workspace')
      ∧ Reached ix cs bs x thr (rs ++ batch) workspace'
      ∧ (resSize + batch.length < thr → workspace'.nextVisitCoarseListIdx = ix.nlist) := by
  have hsees : ∀ i t, IndexIVF.Sees (fun listNo => storage.chunkSize (cs listNo)) cs
      (live i t).invertedLists := fun i t listNo => hholds.later (hlive i t) listNo
  obtain ⟨batch, next, hnext, hbatch, hdelivered, hall⟩ :=
    getIteratorNextBatch_spec hsees h.valid h.next_le resSize
  refine ⟨batch, _, hbatch, ⟨⟨h.valid.covers, h.valid.sizes⟩, hnext, h.queryData, h.coarse,
    h.threshold_eq, ?_⟩, fun hfew => hall (h.threshold_eq ▸ hfew)⟩
  rw [h.delivered_eq, hdelivered]

/-! ### The iterator -/

/-- The iterator after it has returned `rs`: what has been delivered has been returned or
waits, and if less waits than the threshold asks for, all lists have been visited. -/
structure State (ix : IndexIVF Q V F) (cs : ℕ → List (Entry V)) (bs : BitsetView)
    (x : Q) (thr : ℕ) (rs : List (DistId F))
    (it : IndexIterator F (IndexIVF.IVFIteratorWorkspace Q F)) : Prop where
  delivers : Delivers (iteratorParams ix) (Reached ix cs bs x thr) rs it
  settled : it.initialized = true → it.res.length < thr →
    it.source.nextVisitCoarseListIdx = ix.nlist

variable {it : IndexIterator F (IndexIVF.IVFIteratorWorkspace Q F)}

omit [LinearOrder F] [InvolutiveNeg F] in
lemma plain_iteratorParams (ix : IndexIVF Q V F) : Plain (iteratorParams ix) := ⟨rfl, rfl⟩

variable (P raw)

section

include hholds hlive

lemma updateNext_spec (h : Delivers (iteratorParams ix) (Reached ix cs bs x thr) rs it) :
    ∃ it', updateNext P ix bs live raw it = .ok it'
      ∧ Delivers (iteratorParams ix) (Reached ix cs bs x thr) rs it'
      ∧ it'.initialized = it.initialized ∧ (it'.res.length < thr →
        it'.source.nextVisitCoarseListIdx = ix.nlist) := by
  obtain ⟨delivered, hreached, -⟩ := h.exists_perm
  obtain ⟨batch, workspace', hbatch, -, hall⟩ := hreached.nextBatch hholds hlive it.res.length
  have hkeeps : Keeps (nextBatch ix bs live it.res.length)
      (Reached ix cs bs x thr) := by
    intro d source b source' hd hb
    obtain ⟨b', source'', hb', hd', -⟩ := hd.nextBatch hholds hlive it.res.length
    obtain ⟨rfl, rfl⟩ := Prod.mk.inj (ok_unique hb' hb)
    exact hd'
  have hupdate : updateNext P ix bs live raw it = .ok { it with
      source := workspace'
      res := P.pushAll above it.res (batch.map (signedElem (iteratorParams ix))) } :=
    (updateNext_eq_ok_iff (plain_iteratorParams ix)).mpr ⟨batch, workspace', hbatch, rfl⟩
  refine ⟨_, hupdate, h.updateNext (plain_iteratorParams ix) hkeeps hupdate, rfl, fun hfew => ?_⟩
  apply hall
  have hlen :=
    (P.perm_pushAll above it.res (batch.map (signedElem (iteratorParams ix)))).length_eq
  rw [length_append, length_map] at hlen
  have hfew' : (P.pushAll above it.res (batch.map (signedElem (iteratorParams ix)))).length
      < thr := hfew
  omega

section

variable (h : State ix cs bs x thr rs it)

include h

lemma initializeIfNeeded_spec :
    ∃ it', initializeIfNeeded P ix bs live raw it = .ok it'
      ∧ State ix cs bs x thr rs it' ∧ it'.initialized = true
      ∧ (it.initialized = true → it' = it) := by
  unfold initializeIfNeeded IndexIterator.initializeIfNeeded
  by_cases hinit : it.initialized = true
  · exact ⟨it, if_pos hinit, h, hinit, fun _ => rfl⟩
  · obtain ⟨it', hupdate, hdelivers, -, hall⟩ := updateNext_spec P raw hholds hlive h.delivers
    refine ⟨{ it' with initialized := true }, ?_, ⟨⟨hdelivers.refinedRes_eq, hdelivers.exists_perm⟩,
      fun _ => hall⟩, rfl, fun h => absurd h hinit⟩
    rw [if_neg hinit]
    unfold updateNext at hupdate
    rw [hupdate]
    rfl

lemma hasNext_spec :
    ∃ it', hasNext P ix bs live raw it = .ok (!it'.res.isEmpty, it')
      ∧ State ix cs bs x thr rs it' ∧ it'.initialized = true := by
  obtain ⟨it', hinit, hstate, hflag, -⟩ := initializeIfNeeded_spec P raw hholds hlive h
  refine ⟨it', ?_, hstate, hflag⟩
  rw [hasNext, hinit]
  show Except.ok (!it'.res.isEmpty || !it'.refinedRes.isEmpty, it') = _
  rw [hstate.delivers.refinedRes_eq]
  simp

lemma next_spec :
    (next P ix bs live raw it = .error (.thrown "No more elements")
      ∧ (it.initialized = true → it.res = []))
    ∨ ∃ result it', next P ix bs live raw it = .ok (result, it')
      ∧ State ix cs bs x thr (rs ++ [result]) it' := by
  obtain ⟨it₁, hinit, hstate, hflag, hsame⟩ := initializeIfNeeded_spec P raw hholds hlive h
  have hpopEq := popQueue_eq (Q := P) hstate.delivers.refinedRes_eq
  unfold next
  rw [hinit, ok_bind]
  cases hpop : it₁.popQueue P with
  | none =>
    left
    refine ⟨rfl, fun hinit => ?_⟩
    rw [hpopEq, Option.map_eq_none_iff, P.pop_eq_none] at hpop
    rwa [hsame hinit] at hpop
  | some p =>
    right
    obtain ⟨top, it₂⟩ := p
    have hpopped := hstate.delivers.popQueue hpop
    obtain ⟨it₃, hupdate, hdelivers, -, hall⟩ := updateNext_spec P raw hholds hlive hpopped
    refine ⟨signedElem (iteratorParams ix) top, it₃, ?_, hdelivers, fun _ => hall⟩
    dsimp only
    rw [hupdate]
    rfl

end

lemma run_spec (calls : List Call) {rs : List (DistId F)}
    {it : IndexIterator F (IndexIVF.IVFIteratorWorkspace Q F)} (h : State ix cs bs x thr rs it) :
    run P ix bs live raw calls it = .error (.thrown "No more elements")
    ∨ ∃ rest it', run P ix bs live raw calls it = .ok (rest, it')
      ∧ State ix cs bs x thr (rs ++ rest) it' := by
  induction calls generalizing rs it with
  | nil =>
    exact .inr ⟨[], it, rfl, by rwa [append_nil]⟩
  | cons call calls ih =>
    cases call with
    | hasNext =>
      obtain ⟨it', hmore, hstate, -⟩ := hasNext_spec P raw hholds hlive h
      rw [run, hmore]
      exact ih hstate
    | next =>
      rcases next_spec P raw hholds hlive h with ⟨hnone, -⟩ | ⟨result, it', hnext, hstate⟩
      · left
        rw [run, hnone]
        rfl
      · rw [run, hnext]
        rcases ih hstate with hnone | ⟨rest, it'', hrun, hstate'⟩
        · left
          show (run P ix bs live raw calls it' >>= _) = _
          rw [hnone]
          rfl
        · right
          refine ⟨result :: rest, it'', ?_, by rwa [append_assoc] at hstate'⟩
          show (run P ix bs live raw calls it' >>= _) = _
          rw [hrun]
          rfl

end

omit [LinearOrder F] in
lemma State.perm (h : State ix cs bs x thr rs it) : ∃ rest,
    (rs ++ it.res.map (signedElem (iteratorParams ix)) ++ rest).Perm
      (stored ix cs bs x) := by
  obtain ⟨delivered, hreached, hperm⟩ := h.delivers.exists_perm
  obtain ⟨rest, hrest⟩ := hreached.prefix_stored
  exact ⟨rest, hrest ▸ hperm.append_right rest⟩

include hholds hlive in
lemma exhaust_spec (hgoes : 0 < thr ∨ stored ix cs bs x = []) (fuel : ℕ)
    {rs : List (DistId F)} {it : IndexIterator F (IndexIVF.IVFIteratorWorkspace Q F)}
    (h : State ix cs bs x thr rs it) (hfuel : (stored ix cs bs x).length < rs.length + fuel) :
    ∃ rest, exhaust P ix bs live raw fuel it = .ok rest
      ∧ (rs ++ rest).Perm (stored ix cs bs x) := by
  induction fuel generalizing rs it with
  | zero =>
    obtain ⟨rest, hperm⟩ := h.perm
    have hlen := hperm.length_eq
    simp only [length_append] at hlen
    omega
  | succ fuel ih =>
    obtain ⟨it', hmore, hstate, hflag⟩ := hasNext_spec P raw hholds hlive h
    rw [exhaust, hmore]
    dsimp only
    cases hres : it'.res with
    | nil =>
      -- nothing waits: what has been delivered has been returned
      refine ⟨[], rfl, ?_⟩
      obtain ⟨delivered, hreached, hperm⟩ := hstate.delivers.exists_perm
      rw [hres] at hperm
      have hall : delivered = stored ix cs bs x := by
        rcases hgoes with hpos | hnone
        · exact hreached.eq_stored (hstate.settled hflag (by rwa [hres, length_nil]))
        · have hprefix := hreached.prefix_stored
          rw [hnone] at hprefix ⊢
          exact prefix_nil.mp hprefix
      rw [← hall]
      exact hperm
    | cons a res =>
      rcases next_spec P raw hholds hlive hstate with
        ⟨-, hnone⟩ | ⟨result, it'', hnext, hstate'⟩
      · rw [hnone hflag] at hres
        simp at hres
      · obtain ⟨rest, hrest, hperm⟩ := ih hstate' (by
          rw [length_append, length_singleton]
          omega)
        refine ⟨result :: rest, ?_, by rwa [append_assoc] at hperm⟩
        show (next P ix bs live raw it' >>= _) = _
        rw [hnext, ok_bind, hrest]
        rfl

lemma exhaust_of_threshold_eq_zero (hzero : ws.backupCountThreshold = 0) (fuel : ℕ) :
    exhaust P ix bs live raw (fuel + 1) { source := ws } = .ok [] := by
  have hloop : ∀ n, ix.nextBatchLoop (fun i t => (live i t).invertedLists) (selects bs) 0 n
      ws [] = .ok ([], ws) := by
    intro n
    cases n with
    | zero => rfl
    | succ n =>
      rw [nextBatchLoop]
      rw [if_neg (by omega)]
      rfl
  have hbatch : nextBatch ix bs live 0 ws = .ok ([], ws) := hloop _
  have hmore : hasNext P ix bs live raw { source := ws }
      = .ok (false, { initialized := true, source := ws }) := by
    unfold hasNext initializeIfNeeded IndexIterator.initializeIfNeeded IndexIterator.updateNext
    rw [length_nil, hbatch]
    rfl
  rw [exhaust, hmore]
  rfl

end Iterator

/-! ### Creating an iterator -/

section Create

variable {ix : IndexIVF Q V F} {bs : BitsetView} {storage : ListStorage V}
  {cs : ℕ → List (Entry V)} {x : Q} {np : ℕ}
  {it : IndexIterator F (IndexIVF.IVFIteratorWorkspace Q F)}

def listSizes (nlist : ℕ) (cs : ℕ → List (Entry V)) : List ℕ :=
  (List.range nlist).map fun listNo => (cs listNo).length

def ReserveFits (nlist np : ℕ) (sizes : List ℕ) : Prop :=
  (IndexIVF.maxCoarseListSize sizes + IndexIVF.backupCountThreshold nlist np sizes) % 2 ^ 64
    ≤ IndexIVF.distsMaxSize

def probes (ix : IndexIVF Q V F) (np : ℕ) : ℕ :=
  if np ≠ 0 then np else ix.nprobe

def newIterator (ix : IndexIVF Q V F) (cs : ℕ → List (Entry V)) (x : Q) (np : ℕ) :
    IndexIterator F (IndexIVF.IVFIteratorWorkspace Q F) where
  source := {
    queryData := x
    backupCountThreshold := IndexIVF.backupCountThreshold ix.nlist (probes ix np)
      (listSizes ix.nlist cs)
    coarse := ix.quantizer x ix.nlist
    coarseListSizes := listSizes ix.nlist cs }

omit [LinearOrder F] [InvolutiveNeg F] in
lemma create_eq_ok_iff (hholds : storage.Holds cs) :
    create ix storage x np = .ok it ↔ 0 < ix.nlist
      ∧ ReserveFits ix.nlist (probes ix np) (listSizes ix.nlist cs)
      ∧ it = newIterator ix cs x np := by
  have hsizes : (List.range ix.nlist).map storage.invertedLists.listSize
      = listSizes ix.nlist cs :=
    map_congr_left fun listNo _ => hholds.listSize listNo
  have hprobes : (if np ≠ 0 then np else ix.nprobe) = probes ix np := rfl
  unfold create getIteratorWorkspace
  dsimp only
  rw [hsizes, hprobes]
  split_ifs with hnlist hfits
  · constructor
    · intro h
      exact absurd h (by simp [throw, throwThe, MonadExceptOf.throw, bind, Except.bind])
    · intro h
      omega
  · constructor
    · intro h
      exact absurd h (by simp [throw, throwThe, MonadExceptOf.throw, bind, Except.bind])
    · intro h
      exact absurd h.2.1 (not_le.mpr hfits)
  · constructor
    · intro h
      exact ⟨pos_of_ne_zero hnlist, not_lt.mp hfits, (Except.ok.inj h).symm⟩
    · rintro ⟨-, -, rfl⟩
      rfl

omit [LinearOrder F] in
lemma state_newIterator (hcovers : IndexIVF.CoversLists ix.nlist (ix.quantizer x ix.nlist)) :
    State ix cs bs x (backupCountThreshold ix.nlist (probes ix np)
      (listSizes ix.nlist cs)) [] (newIterator ix cs x np) := by
  refine ⟨⟨rfl, [], ⟨⟨hcovers, rfl⟩, Nat.zero_le _, rfl, rfl, rfl, ?_⟩, .refl _⟩,
    nofun⟩
  rfl

lemma largest_bounds (hsmall : ∀ size ∈ sizes, size < 2 ^ 31) :
    0 ≤ maxCoarseListSize sizes ∧ maxCoarseListSize sizes < 2 ^ 31 := by
  have hfold : ∀ {l : List ℕ} {largest : ℤ}, (∀ size ∈ l, size < 2 ^ 31) →
      0 ≤ largest ∧ largest < 2 ^ 31 → 0 ≤ l.foldl largerListSize largest
        ∧ l.foldl largerListSize largest < 2 ^ 31 := by
    intro l
    induction l with
    | nil => exact fun _ h => h
    | cons size l ih =>
      intro largest hl hlargest
      have hsize := hl size mem_cons_self
      refine ih (fun size h => hl size (mem_cons_of_mem _ h)) ?_
      unfold largerListSize
      split_ifs
      · rw [wrapInt_32_of_fits (by omega) (by omega)]
        omega
      · exact hlargest
  exact hfold hsmall (by decide)

lemma backupCountThreshold_le (nlist np : ℕ) (sizes : List ℕ) :
    backupCountThreshold nlist np sizes ≤ sizes.sum := by
  calc sizes.sum % 2 ^ 64 * min nlist np % 2 ^ 64 / nlist
      ≤ sizes.sum % 2 ^ 64 * nlist / nlist := by
        apply Nat.div_le_div_right
        exact (Nat.mod_le _ _).trans (Nat.mul_le_mul_left _ (min_le_left _ _))
    _ ≤ sizes.sum % 2 ^ 64 := Nat.div_le_of_le_mul (by rw [mul_comm])
    _ ≤ sizes.sum := Nat.mod_le _ _

lemma reserveFits_of_lt (nlist np : ℕ)
    (hsmall : ∀ size ∈ sizes, size < 2 ^ 31) (hsum : sizes.sum < 2 ^ 58) :
    ReserveFits nlist np sizes := by
  have hbounds := largest_bounds hsmall
  have hthreshold := backupCountThreshold_le nlist np sizes
  unfold ReserveFits distsMaxSize
  omega

end Create

/-! ### Main results -/

section Main

variable {P : StdPriorityQueue (DistId F)} {ix : IndexIVF Q V F} {bs : BitsetView}
  {live : ℕ → ℕ → ListStorage V} {raw : ℤ → F} {storage : ListStorage V}
  {cs : ℕ → List (Entry V)} {x : Q} {np : ℕ}

def ReturnsAll (P : StdPriorityQueue (DistId F)) (ix : IndexIVF Q V F) (storage : ListStorage V)
    (cs : ℕ → List (Entry V)) (live : ℕ → ℕ → ListStorage V) (bs : BitsetView) (x : Q)
    (np : ℕ) (raw : ℤ → F) : Prop :=
  ∃ it fuel rs, create ix storage x np = .ok it
    ∧ exhaust P ix bs live raw fuel it = .ok rs
    ∧ rs.Perm (stored ix cs bs x)

/-- **When an iterator returns everything**: the number of entries times `np` is at least the
number of lists, or there is nothing to return. -/
theorem returnsAll_iff (hholds : storage.Holds cs) (hlive : ∀ i t, storage.Later (live i t))
    (hcovers : IndexIVF.CoversLists ix.nlist (ix.quantizer x ix.nlist)) (hnprobe : 1 ≤ np) :
    ReturnsAll P ix storage cs live bs x np raw ↔
      0 < ix.nlist ∧ ReserveFits ix.nlist np (listSizes ix.nlist cs)
      ∧ (ix.nlist
          ≤ (listSizes ix.nlist cs).sum % 2 ^ 64 * min ix.nlist np % 2 ^ 64
        ∨ stored ix cs bs x = []) := by
  have hprobes : probes ix np = np := if_pos (by omega)
  have hthreshold : 0 < ix.nlist → (0 < backupCountThreshold ix.nlist
      (probes ix np) (listSizes ix.nlist cs) ↔ ix.nlist
        ≤ (listSizes ix.nlist cs).sum % 2 ^ 64 * min ix.nlist np % 2 ^ 64) := by
    rw [hprobes]
    exact fun hpos => Nat.one_le_div_iff hpos
  constructor
  · rintro ⟨it, fuel, rs, hit, hexhaust, hperm⟩
    obtain ⟨hpos, hfits, rfl⟩ := (create_eq_ok_iff hholds).mp hit
    refine ⟨hpos, hprobes ▸ hfits, ?_⟩
    rw [← hthreshold hpos]
    rcases Nat.eq_zero_or_pos (backupCountThreshold ix.nlist (probes ix np)
      (listSizes ix.nlist cs)) with hzero | hgoes
    · right
      cases fuel with
      | zero => exact absurd hexhaust (by simp [exhaust])
      | succ fuel =>
        rw [newIterator, exhaust_of_threshold_eq_zero P raw hzero] at hexhaust
        cases hexhaust
        exact nil_perm.mp hperm
    · exact .inl hgoes
  · rintro ⟨hpos, hfits, hgoes⟩
    rw [← hthreshold hpos] at hgoes
    have hit : create ix storage x np = .ok (newIterator ix cs x np) :=
      (create_eq_ok_iff hholds).mpr ⟨hpos, hprobes.symm ▸ hfits, rfl⟩
    obtain ⟨rs, hexhaust, hperm⟩ := exhaust_spec P raw hholds hlive hgoes
      ((stored ix cs bs x).length + 1) (state_newIterator hcovers)
      (by rw [length_nil]; omega)
    exact ⟨_, _, rs, hit, hexhaust, hperm⟩

def oneEntry (listNo : ℕ) : List (Entry Unit) := if listNo = 0 then [⟨0, ()⟩] else []

def flatIndex (nlist : ℕ) : IndexIVF Unit Unit ℤ where
  nlist := nlist
  ntotal := 1
  nprobe := 1
  isIp := false
  scanner := .ivfFlat
  quantizer _ n := (List.range n).map fun (listNo : ℕ) => ((listNo : ℤ), 0)
  distance _ _ _ _ := 7

lemma coversLists_flatIndex (nlist : ℕ) :
    IndexIVF.CoversLists nlist ((flatIndex nlist).quantizer () nlist) := by
  unfold IndexIVF.CoversLists flatIndex
  rw [map_map]
  exact .refl _

def noFilter : BitsetView := { bits := fun _ => 0, numBits := 0 }

def threeEntries (listNo : ℕ) : List (Entry Unit) :=
  [[⟨0, ()⟩], [⟨1, ()⟩, ⟨2, ()⟩]].getD listNo []

theorem returnsAll_twoLists : ReturnsAll StdPriorityQueue.sorting (flatIndex 2)
    (.array threeEntries) threeEntries (fun _ _ => .array threeEntries) noFilter () 1
    fun _ => 0 := by
  have hholds : (ListStorage.array threeEntries).Holds threeEntries := rfl
  exact (returnsAll_iff hholds (fun _ _ => ListStorage.Later.refl _) (coversLists_flatIndex 2)
    (by decide)).mpr
    ⟨by decide, reserveFits_of_lt _ _ (by decide) (by decide), .inl (by decide)⟩

/-- With two lists, one entry and `np` 1 the threshold is 0: the iterator returns nothing. -/
theorem exhaust_twoLists : (∃ it, create (flatIndex 2) (.array oneEntry) () 1 = .ok it
      ∧ ∀ fuel, exhaust StdPriorityQueue.sorting (flatIndex 2) noFilter
        (fun _ _ => .array oneEntry) (fun _ => 0) (fuel + 1) it = .ok [])
    ∧ stored (flatIndex 2) oneEntry noFilter () = [⟨0, 7⟩] := by
  have hholds : (ListStorage.array oneEntry).Holds oneEntry := rfl
  refine ⟨⟨_, (create_eq_ok_iff hholds).mpr ⟨by decide,
    reserveFits_of_lt _ _ (by decide) (by decide), rfl⟩, fun fuel => ?_⟩, by decide⟩
  exact exhaust_of_threshold_eq_zero _ _ (by decide) fuel

/-- **What an iterator returns was stored when it was created**, whatever calls are made and
whatever is added meanwhile to lists in segments: each result is the distance of a stored entry that
passes the filter, and each entry gives at most one result. -/
theorem run_le_stored {segmentSize : ℕ} {lists : ℕ → ConcurrentList V}
    {it : IndexIterator F (IndexIVF.IVFIteratorWorkspace Q F)}
    (hholds : (ListStorage.concurrent segmentSize lists).Holds cs)
    (hlive : ∀ i t, (ListStorage.concurrent segmentSize lists).Later (live i t))
    (hcovers : IndexIVF.CoversLists ix.nlist (ix.quantizer x ix.nlist))
    (hit : create ix (.concurrent segmentSize lists) x np = .ok it) (calls : List Call) :
    run P ix bs live raw calls it = .error (.thrown "No more elements")
    ∨ ∃ rs it', run P ix bs live raw calls it = .ok (rs, it')
      ∧ (↑rs : Multiset (DistId F)) ≤ ↑(stored ix cs bs x) := by
  obtain ⟨-, -, rfl⟩ := (create_eq_ok_iff hholds).mp hit
  rcases run_spec P raw hholds hlive calls (state_newIterator hcovers) with
    hnone | ⟨rs, it', hrun, hstate⟩
  · exact .inl hnone
  · refine .inr ⟨rs, it', hrun, ?_⟩
    obtain ⟨rest, hperm⟩ := hstate.perm
    rw [← Multiset.coe_eq_coe.mpr hperm, append_assoc, ← Multiset.coe_add]
    exact Multiset.le_add_right _ _

def firstList (entries : List (Option (Entry Unit))) (cur : ℕ) : ListStorage Unit :=
  .concurrent 2 (Function.update (fun _ => {}) 0 ⟨[entries], cur⟩)

/-- Two calls, while a second entry is added. -/
theorem run_le_stored_oneEntry :
    run StdPriorityQueue.sorting (flatIndex 1) noFilter
        (fun _ _ => firstList [some ⟨0, ()⟩, some ⟨1, ()⟩] 2) (fun _ => 0) [.hasNext, .next]
        (newIterator (flatIndex 1) oneEntry () 1) = .error (.thrown "No more elements")
    ∨ ∃ rs it', run StdPriorityQueue.sorting (flatIndex 1) noFilter
        (fun _ _ => firstList [some ⟨0, ()⟩, some ⟨1, ()⟩] 2) (fun _ => 0) [.hasNext, .next]
        (newIterator (flatIndex 1) oneEntry () 1) = .ok (rs, it')
      ∧ (↑rs : Multiset (DistId ℤ)) ≤ ↑(stored (flatIndex 1) oneEntry noFilter ()) := by
  have hholds : (firstList [some ⟨0, ()⟩, none] 1).Holds oneEntry := by
    refine ⟨by decide, fun listNo => ?_⟩
    by_cases hzero : listNo = 0
    · subst hzero
      exact ⟨⟨by simp, ⟨[none], rfl⟩⟩, rfl⟩
    · rw [Function.update_of_ne hzero, oneEntry, if_neg hzero]
      exact ConcurrentList.holds_empty 2
  have hlater : (firstList [some ⟨0, ()⟩, none] 1).Later
      (firstList [some ⟨0, ()⟩, some ⟨1, ()⟩] 2) := by
    refine ⟨rfl, .single ⟨0, [⟨1, ()⟩], _, rfl, ⟨[[some ⟨0, ()⟩, some ⟨1, ()⟩]], 2⟩,
      ?_, ?_⟩⟩
    · exact mem_cons_of_mem _ mem_cons_self
    · rw [Function.update_idem]
  exact run_le_stored hholds (fun _ _ => hlater) (coversLists_flatIndex 1)
    ((create_eq_ok_iff hholds).mpr ⟨by decide, reserveFits_of_lt _ _ (by decide) (by decide), rfl⟩)
    [.hasNext, .next]

end Main

end Rvanns.Knowhere.IvfIterator
