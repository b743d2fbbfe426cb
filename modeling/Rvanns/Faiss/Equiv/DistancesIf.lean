import Rvanns.Cpp.Patch
import Rvanns.Faiss.DistancesIf

/-!
# Groups make no difference

If a group is processed like its elements one after the other, `buffered_if` processes the accepted
elements before the first stop in order (`bufferedIf_eq`).
-/

namespace Rvanns.Faiss

open Cpp List Option

variable {σ : Type}

def acceptedOf (outcome : ℕ → Option Bool) (js : List ℕ) : List ℕ :=
  (js.takeWhile fun j => (outcome j).isSome).filter fun j => outcome j = some true

def stops (outcome : ℕ → Option Bool) (js : List ℕ) : Bool := js.any fun j => (outcome j).isNone

lemma acceptedOf_some (accepts : ℕ → Bool) (js : List ℕ) :
    acceptedOf (fun j => some (accepts j)) js = js.filter accepts := by
  have hall : js.takeWhile (fun _ => true) = js := takeWhile_eq_self_iff.mpr fun _ _ => rfl
  simpa [acceptedOf] using congrArg (filter accepts) hall

lemma acceptedOf_append (outcome : ℕ → Option Bool) (js js' : List ℕ) :
    acceptedOf outcome (js ++ js') = acceptedOf outcome js
      ++ if stops outcome js then [] else acceptedOf outcome js' := by
  unfold acceptedOf stops
  induction js with
  | nil => rfl
  | cons j js ih =>
    cases hj : outcome j with
    | none => simp [hj]
    | some isAcceptable =>
      cases isAcceptable with
      | false => simpa [hj] using ih
      | true => simpa [hj] using ih

namespace Saved

def pending (saved : Saved) : List ℕ := saved.savedJ.take saved.counter

lemma length_pending {saved : Saved} (h : saved.counter ≤ saved.savedJ.length) :
    saved.pending.length = saved.counter := by
  rw [pending, length_take]
  omega

lemma getElem?_pending {saved : Saved} (hi : i < saved.counter) :
    saved.pending[i]? = saved.savedJ[i]? :=
  getElem?_take_of_lt hi

lemma save_spec {saved : Saved} (h : saved.counter < saved.savedJ.length) (j : ℕ)
    (isAcceptable : Bool) : ∃ saved', saved.save j isAcceptable = some saved'
      ∧ saved'.savedJ.length = saved.savedJ.length
      ∧ saved'.counter = saved.counter + (if isAcceptable then 1 else 0)
      ∧ saved'.pending = saved.pending ++ [j].filter fun _ => isAcceptable := by
  refine ⟨⟨saved.savedJ.set saved.counter j, if isAcceptable then saved.counter + 1
    else saved.counter⟩, ?_, by simp, ?_, ?_⟩
  · rw [save, wr_of_lt h]
    rfl
  · cases isAcceptable <;> rfl
  · cases isAcceptable with
    | false => simp [pending, take_set_of_le]
    | true =>
      simp only [pending, if_true, filter_true]
      rw [take_add_one, take_set_of_le le_rfl, getElem?_set_self h]
      rfl

lemma saveAll_spec (hpred : ∀ j ∈ js, pred j = some (outcome j))
    (hroom : saved.counter + js.length ≤ saved.savedJ.length) :
    ∃ saved', saveAll pred js saved = some (saved', stops outcome js)
      ∧ saved'.savedJ.length = saved.savedJ.length
      ∧ saved'.counter ≤ saved.counter + js.length
      ∧ saved'.pending = saved.pending ++ acceptedOf outcome js := by
  induction js generalizing saved with
  | nil => exact ⟨_, rfl, rfl, le_rfl, (append_nil _).symm⟩
  | cons j js ih =>
    rw [length_cons] at hroom
    rw [saveAll, hpred j mem_cons_self, some_bind]
    cases hj : outcome j with
    | none => exact ⟨saved, by simp [stops, hj], rfl, by omega, by simp [acceptedOf, hj]⟩
    | some isAcceptable =>
      obtain ⟨saved₁, hsave, hlen₁, hcounter₁, hpending₁⟩ :=
        save_spec (show saved.counter < saved.savedJ.length by omega) j isAcceptable
      have hle : saved₁.counter ≤ saved.counter + 1 := by
        rw [hcounter₁]
        split <;> omega
      obtain ⟨saved₂, hall, hlen₂, hcounter₂, hpending₂⟩ := ih (fun i hi => hpred i
        (mem_cons_of_mem j hi)) (show saved₁.counter + js.length ≤ saved₁.savedJ.length by omega)
      refine ⟨saved₂, ?_, hlen₂.trans hlen₁, by rw [length_cons]; omega, ?_⟩
      · simp only [some_bind, hsave, hall]
        simp [stops, hj]
      · rw [hpending₂, hpending₁, append_assoc]
        congr 1
        cases isAcceptable <;> simp [acceptedOf, hj]

lemma copyLeftovers_spec (hn : n ≤ counterN)
    (hroom : counterN + n ≤ v.length) : Returns (copyLeftovers n counterN v) fun v' =>
      v'.length = v.length ∧ ∀ i < n, v'[i]? = v[counterN + i]? := by
  refine (Returns.foldlM_range (P := fun i v' => v'.length = v.length
    ∧ (∀ k < i, v'[k]? = v[counterN + k]?) ∧ ∀ k, n ≤ k → v'[k]? = v[k]?) n (fun i hi v' hv' => ?_)
    ⟨rfl, fun k hk => absurd hk (Nat.not_lt_zero k), fun k _ => rfl⟩).mono
    fun v' hv' => ⟨hv'.1, hv'.2.1⟩
  obtain ⟨hlen, hcopied, hrest⟩ := hv'
  obtain ⟨j, hj⟩ : ∃ j, v[counterN + i]? = some j := ⟨_, getElem?_eq_getElem (by omega)⟩
  rw [hrest _ (by omega), hj]
  refine ⟨v'.set i j, wr_of_lt (by omega) j, by rw [length_set, hlen], fun k hk => ?_,
    fun k hk => ?_⟩
  · rcases Nat.lt_succ_iff_lt_or_eq.mp hk with hlt | rfl
    · rw [getElem?_set_ne (by omega), hcopied k hlt]
    · rw [getElem?_set_self (by omega), hj]
  · rw [getElem?_set_ne (by omega), hrest k hk]

lemma foldlM_groups {process1 : σ → ℕ → Option σ} {processN : σ → List ℕ → Option σ}
    (hgroup : ∀ s (l : List ℕ), l.length = n → processN s l = l.foldlM process1 s) (v : List ℕ)
    (s : σ) (q : ℕ) (hq : q * n ≤ v.length) : (range q).foldlM (fun s i => do
      let tmp ← readRange v (i * n) (i * n + n)
      processN s tmp) s = (v.take (q * n)).foldlM process1 s := by
  induction q with
  | zero => simp
  | succ q ih =>
    have hmul : (q + 1) * n = q * n + n := Nat.succ_mul q n
    have hread : readRange v (q * n) (q * n + n) = some ((v.drop (q * n)).take n) := by
      rw [readRange_of_le (by omega), Nat.add_sub_cancel_left]
    have hlen : ((v.drop (q * n)).take n).length = n := by
      rw [length_take, length_drop]
      omega
    rw [range_succ, foldlM_append, ih (by omega), hmul, take_add, foldlM_append]
    congr 1
    funext s'
    rw [foldlM_cons, hread, ← hgroup s' _ hlen]
    exact bind_pure (processN s' ((v.drop (q * n)).take n))

variable {n size : ℕ} {process1 : σ → ℕ → Option σ} {processN : σ → List ℕ → Option σ}
  (hgroup : ∀ s (l : List ℕ), l.length = n → processN s l = l.foldlM process1 s)

include hgroup

lemma processGroups_eq (hn : 0 < n)
    (hroom : saved.counter + n ≤ saved.savedJ.length) : ∃ (done : List ℕ) (saved' : Saved),
      (∀ s, processGroups n processN saved s = (done.foldlM process1 s).map fun s' => (saved', s'))
      ∧ done ++ saved'.pending = saved.pending ∧ saved'.counter < n
      ∧ saved'.savedJ.length = saved.savedJ.length := by
  unfold processGroups
  split_ifs with hfull
  · set counterN := saved.counter / n * n with hcounterN
    have hdiv := Nat.div_add_mod' saved.counter n
    have hmod := Nat.mod_lt saved.counter hn
    have hone : n ≤ counterN := by
      have hpos : 1 ≤ saved.counter / n := (Nat.one_le_div_iff hn).mpr hfull
      calc n = 1 * n := (one_mul n).symm
        _ ≤ saved.counter / n * n := Nat.mul_le_mul_right n hpos
    have hcount : counterN / n = saved.counter / n := Nat.mul_div_cancel _ hn
    obtain ⟨v', hcopy, hlen, hget⟩ := copyLeftovers_spec hone
      (show counterN + n ≤ saved.savedJ.length by omega)
    refine ⟨saved.savedJ.take counterN, ⟨v', saved.counter - counterN⟩, fun s => ?_, ?_, ?_, hlen⟩
    · dsimp only
      rw [hcount, foldlM_groups hgroup saved.savedJ s (saved.counter / n) (by omega), hcopy]
      cases (List.take (saved.counter / n * n) saved.savedJ).foldlM process1 s <;> rfl
    · have hmoved : v'.take (saved.counter - counterN)
          = (saved.savedJ.drop counterN).take (saved.counter - counterN) := by
        apply ext_getElem?
        intro i
        by_cases hi : i < saved.counter - counterN
        · rw [getElem?_take_of_lt hi, getElem?_take_of_lt hi, getElem?_drop, hget i (by omega)]
        · rw [getElem?_take_eq_none (by omega), getElem?_take_eq_none (by omega)]
      show saved.savedJ.take counterN ++ v'.take (saved.counter - counterN) = _
      rw [hmoved, ← take_add]
      congr 1
      omega
    · show saved.counter - counterN < n
      omega
  · exact ⟨[], saved, fun s => rfl, rfl, by omega, rfl⟩

lemma processBlocks_eq (hn : 0 < n) (hn' : n ≤ size) {count j : ℕ} {saved : Saved}
    (hpred : ∀ i ∈ range' j (count * size), pred i = some (outcome i))
    (hcounter : saved.counter < n) (hlen : saved.savedJ.length = 2 * size + n) :
    ∃ (done : List ℕ) (saved' : Saved) (stop : Bool),
      (∀ s, processBlocks n size pred processN count j saved s
        = (done.foldlM process1 s).map fun s' => (saved', s', stop))
      ∧ stop = stops outcome (range' j (count * size))
      ∧ done ++ saved'.pending
        = saved.pending ++ acceptedOf outcome (range' j (count * size))
      ∧ saved'.counter < n + size ∧ (stop = false → saved'.counter < n)
      ∧ saved'.savedJ.length = 2 * size + n := by
  induction count generalizing j saved with
  | zero =>
    exact ⟨[], saved, false, fun s => rfl, by simp [stops], by simp [acceptedOf], by omega,
      fun _ => hcounter, hlen⟩
  | succ count ih =>
    have hrange : range' j ((count + 1) * size)
        = range' j size ++ range' (j + size) (count * size) := by
      rw [Nat.succ_mul, add_comm, range'_append_1]
    rw [hrange] at hpred
    obtain ⟨hblock, hnext⟩ := forall_mem_append.mp hpred
    obtain ⟨saved₁, hsave, hlen₁, hcounter₁, hpending₁⟩ :=
      saveAll_spec hblock (show saved.counter + (range' j size).length
        ≤ saved.savedJ.length by rw [length_range']; omega)
    rw [length_range'] at hcounter₁
    have hstops : stops outcome (range' j ((count + 1) * size))
        = (stops outcome (range' j size)
          || stops outcome (range' (j + size) (count * size))) := by
      rw [hrange, stops, any_append]
      rfl
    rw [hstops, hrange, acceptedOf_append, ← append_assoc, ← hpending₁]
    cases hstop : stops outcome (range' j size) with
    | true =>
      -- the predicate stops in this block
      refine ⟨[], saved₁, true, fun s => ?_, rfl, by simp, by omega, by simp, by omega⟩
      rw [processBlocks, hsave, hstop]
      rfl
    | false =>
      obtain ⟨done₁, saved₂, hgroups, hpending₂, hcounter₂, hlen₂⟩ :=
        processGroups_eq hgroup hn (show saved₁.counter + n ≤ saved₁.savedJ.length by omega)
      obtain ⟨done₂, saved₃, stop, hblocks, hstop₃, hpending₃, hcounter₃, hfew, hlen₃⟩ :=
        ih hnext hcounter₂ (by omega)
      refine ⟨done₁ ++ done₂, saved₃, stop, fun s => ?_, hstop₃, ?_, hcounter₃, hfew, hlen₃⟩
      · rw [processBlocks, hsave, hstop, foldlM_append]
        simp only [some_bind, hgroups, Bool.false_eq_true, if_false]
        cases hdone : done₁.foldlM process1 s with
        | none => rfl
        | some s' => exact hblocks s'
      · rw [append_assoc, hpending₃, ← append_assoc, hpending₂]
        rfl

end Saved

open Saved in
/-- **The accepted elements before the first stop** are processed in order. -/
theorem bufferedIf_eq {pred : ℕ → Option (Option Bool)} {outcome : ℕ → Option Bool}
    {process1 : σ → ℕ → Option σ} {processN : σ → List ℕ → Option σ}
    (hgroup : ∀ s (l : List ℕ), l.length = n → processN s l = l.foldlM process1 s) (hn : 0 < n)
    (hn' : n ≤ size) (hpred : ∀ j < ny, pred j = some (outcome j)) (s : σ) :
    bufferedIf n size ny pred process1 processN s
      = (acceptedOf outcome (range ny)).foldlM process1 s := by
  set nyBufferSize := ny / size * size with hny
  have hdiv := Nat.div_add_mod' ny size
  have hmod := Nat.mod_lt ny (show 0 < size by omega)
  have hsplit : range ny = range' 0 nyBufferSize ++ range' nyBufferSize (ny - nyBufferSize) := by
    have happend := @range'_append_1 0 nyBufferSize (ny - nyBufferSize)
    rw [zero_add, Nat.add_sub_cancel' (by omega)] at happend
    rw [happend, range_eq_range']
  obtain ⟨hhead, htail⟩ := forall_mem_append.mp
    (hsplit ▸ fun j hj => hpred j (mem_range.mp hj) : ∀ j ∈ _ ++ _, pred j = some (outcome j))
  obtain ⟨done, saved, stop, hblocks, hstop, hpending, hcounter, hfew, hlen⟩ :=
    @processBlocks_eq σ n size process1 processN hgroup pred outcome hn hn'
      (ny / size) 0 ⟨replicate (2 * size + n) 0, 0⟩ hhead hn (by simp)
  -- the last elements are saved unless a block has met a stop
  obtain ⟨saved', hsave, hcounter', hpending'⟩ : ∃ saved',
      (if stop then some saved
        else (saveAll pred (range' nyBufferSize (ny - nyBufferSize)) saved).map Prod.fst)
        = some saved' ∧ saved'.counter ≤ saved'.savedJ.length
      ∧ done ++ saved'.pending = acceptedOf outcome (range ny) := by
    rw [hsplit, acceptedOf_append, ← hstop]
    cases stop with
    | true => exact ⟨saved, rfl, by omega, hpending.trans (append_nil _).symm⟩
    | false =>
      have hfew := hfew rfl
      obtain ⟨saved', hsave, hlen', hcounter', hpending'⟩ :=
        saveAll_spec htail (show saved.counter + _ ≤ saved.savedJ.length by
          rw [length_range']; omega)
      rw [length_range'] at hcounter'
      refine ⟨saved', by rw [hsave]; rfl, by omega, ?_⟩
      rw [hpending', ← append_assoc, hpending]
      rfl
  -- what is still in the buffer is processed one by one
  have hleft : ∀ s', (range saved'.counter).foldlM (fun s jj => do
      let j ← saved'.savedJ[jj]?
      process1 s j) s' = saved'.pending.foldlM process1 s' := by
    intro s'
    have hcount : saved'.pending.length = saved'.counter := length_pending hcounter'
    rw [← foldlM_range_getElem? process1, hcount]
    apply foldlM_congr
    intro s jj hjj
    rw [getElem?_pending (mem_range.mp hjj)]
  rw [← hpending', foldlM_append, bufferedIf]
  dsimp only
  rw [hblocks, ← hny]
  cases hdone : done.foldlM process1 s with
  | none => rfl
  | some s' =>
    refine Eq.trans ?_ (hleft s')
    cases stop with
    | true =>
      cases hsave
      rfl
    | false =>
      simp only [Bool.false_eq_true, if_false] at hsave
      simp [hsave]

/-- **Both loops** go through the accepted elements before the first stop, in order and with each
element's own distance. -/
theorem DistancesIf.fvecDistanceNyIf_accepted {I F : Type} (hn : 0 < n) (hbuffer : 0 < size)
    (hdvd : n ∣ size) (ny : ℕ) (pred : ℕ → Option Bool) (s : σ) :
    (∀ (process1 : σ → ℕ → Option σ) (processN : σ → List ℕ → Option σ),
      (∀ s (l : List ℕ), l.length = n → processN s l = l.foldlM process1 s) →
      bufferedIf n size ny (fun j => some (pred j)) process1 processN s
        = (acceptedOf pred (range ny)).foldlM process1 s) ∧
    ∀ (distance1 : I → F) (distanceN : List I → List F) (remapper : ℕ → I)
      (apply : σ → F → ℕ → σ), (∀ l, l.length = n → distanceN l = l.map distance1) →
      fvecDistanceNyIf n size ny pred distance1 distanceN remapper apply s
        = some ((acceptedOf pred (range ny)).foldl
          (fun s j => apply s (distance1 (remapper j)) j) s) := by
  have hn' := Nat.le_of_dvd hbuffer hdvd
  refine ⟨fun process1 processN hgroup => bufferedIf_eq hgroup hn hn' (fun _ _ => rfl) s,
    fun distance1 distanceN remapper apply hdistance => ?_⟩
  have hone : ∀ (l : List ℕ) (s : σ),
      l.foldlM (fun s j => some (apply s (distance1 (remapper j)) j)) s
        = some (l.foldl (fun s j => apply s (distance1 (remapper j)) j) s) := fun l s =>
    foldlM_eq_foldl (fun _ _ _ => rfl) s
  rw [fvecDistanceNyIf, bufferedIf_eq (fun s l hl => ?_) hn hn' (fun _ _ => rfl), hone]
  rw [hone, hdistance _ (by rw [length_map, hl])]
  dsimp only
  rw [List.map_map, ← map_prod_right_eq_zip, foldl_map]
  rfl

theorem DistancesIf.fvecDistanceNyIf_stopAtNine :
    fvecDistanceNyIf 4 8 12 (fun j => if j = 9 then none else some (j % 2 = 0)) (fun i : ℕ => i * i)
      (fun l => l.map fun i => i * i) id (fun calls dis j => calls ++ [(dis, j)]) []
      = some [(0, 0), (4, 2), (16, 4), (36, 6), (64, 8)] :=
  (fvecDistanceNyIf_accepted (by decide) (by decide) (by decide) 12 _ _).2 _ _ _ _ fun _ _ => rfl

end Rvanns.Faiss
