import Rvanns.Knowhere.RefinerThreads

/-!
# What the threads of a refined index read

The lock keeps searches out of the base index while rows are added, but not iterators that are
advanced.
-/

namespace Rvanns.Knowhere.RefinerThreads

open Function

variable {cos : Bool} {may : ℕ → Call → Prop} {s s' : State} {t u : ℕ}

/-! ### Reading the base index while rows are added -/

def Pc.call : Pc → Option Call
  | .outside => none
  | .adding _ | .counting _ _ | .locking _ _ | .baseAdd _ _ => some .add
  | .baseSearch | .refining _ => some .search
  | .baseAnnIterator => some .annIterator
  | .baseAdvance => some .advance

/-- Threads are where the lock and their calls let them be. -/
structure Guarded (may : ℕ → Call → Prop) (iterators : Bool) (pc : ℕ → Pc) : Prop where
  calls : ∀ t, ∀ c ∈ (pc t).call, may t c
  exclusive : ∀ t u, (pc t).locksWrite → ¬ (pc u).locksRead
  handedOut : iterators = true → ∃ t, may t .annIterator
  advances : ∀ t, pc t = .baseAdvance → iterators = true

variable {iterators : Bool} {pc : ℕ → Pc} {pc' : Pc}

lemma Guarded.update (h : Guarded may iterators pc) (hcall : ∀ c ∈ pc'.call, may t c)
    (hwrite : pc'.locksWrite → ∀ u, ¬ (pc u).locksRead)
    (hread : pc'.locksRead → ∀ u, ¬ (pc u).locksWrite)
    (hadvance : pc' = .baseAdvance → iterators = true) :
    Guarded may iterators (update pc t pc') := by
  refine ⟨fun u => ?_, fun u v => ?_, h.handedOut, fun u => ?_⟩
  · rw [update_apply]
    split_ifs with hu
    · exact hu ▸ hcall
    · exact h.calls u
  · rw [update_apply, update_apply]
    split_ifs
    · cases pc' <;> exact fun hw hr => by first | exact hw | exact hr
    · exact fun hw => hwrite hw v
    · exact fun hw hr => hread hr u hw
    · exact h.exclusive u v
  · rw [update_apply]
    split_ifs
    · exact hadvance
    · exact h.advances u

lemma Guarded.step (h : Guarded may s.iterators s.pc) (hstep : Step cos may t s s') :
    Guarded may s'.iterators s'.pc := by
  have hsame {c : Call} (hc : (s.pc t).call = some c) : ∀ c' ∈ some c, may t c' := fun c' hc' => by
    rw [← hc] at hc'
    exact h.calls t c' hc'
  have hnew {c : Call} (hmay : may t c) : ∀ c' ∈ some c, may t c' := fun c' hc' => by
    cases hc'
    exact hmay
  cases hstep with
  | beginAdd rows hpc hmay => exact h.update (hnew hmay) nofun nofun nofun
  | addNorms size blocks hpc | addCount size blocks hpc | unLockWrite size blocks hpc =>
    exact h.update (hsame (by rw [hpc]; rfl)) nofun nofun nofun
  | lockWrite size blocks hpc hfree =>
    exact h.update (hsame (by rw [hpc]; rfl)) (fun _ u => (hfree u).1) nofun nofun
  | endAdd | endSearch | endAdvance => exact h.update nofun nofun nofun nofun
  | search hpc hmay hfree | annIterator hpc hmay hfree =>
    exact h.update (hnew hmay) nofun (fun _ => hfree) nofun
  | refine ids hpc => exact h.update (hsame (by rw [hpc]; rfl)) nofun nofun nofun
  | handOut hpc =>
    have hout : Guarded may s.iterators (s.goto t .outside).pc := h.update nofun nofun nofun nofun
    exact ⟨hout.calls, hout.exclusive, fun _ => ⟨t, hsame (by rw [hpc]; rfl) _ rfl⟩, fun _ _ => rfl⟩
  | advance hpc hmay hiter => exact h.update (hnew hmay) nofun nofun fun _ => hiter

lemma guarded_of_reachable (h : Reachable cos may s) : Guarded may s.iterators s.pc := by
  induction h with
  | refl => exact ⟨nofun, nofun, nofun, nofun⟩
  | tail _ hstep ih =>
    obtain ⟨t, hstep⟩ := hstep
    exact ih.step hstep

def ReadsDuringAdd (s : State) : Prop := ∃ t u, (s.pc t).locksWrite ∧ (s.pc u).readsBase

lemma Reachable.next (h : Reachable cos may s) (hstep : Step cos may t s s') :
    Reachable cos may s' :=
  h.tail ⟨t, hstep⟩

lemma exists_readsDuringAdd (cos : Bool) (hne : t ≠ u) (hadd : may t .add)
    (hadvance : may u .advance) (hann : may v .annIterator) :
    ∃ s, Reachable cos may s ∧ ReadsDuringAdd s := by
  have hinit : Reachable cos may {} := .refl
  have hhanded := (hinit.next (.annIterator (t := v) rfl hann nofun)).next
    (.handOut (update_self ..))
  have hall (w : ℕ) : update (update (fun _ => Pc.outside) v .baseAnnIterator) v
      .outside w = .outside := by
    simp [update_apply]
  have hadvancing := hhanded.next (.advance (t := u) (hall u) hadvance rfl)
  have hbegun := hadvancing.next (.beginAdd 1 (t := t) ((update_of_ne hne ..).trans (hall t)) hadd)
  have hcounted := (hbegun.next (.addNorms 1 [] (update_self ..))).next
    (.addCount 1 [] (update_self ..))
  refine ⟨_, hcounted.next (.lockWrite 1 [] (update_self ..) fun w => ?_), t, u, ?_, ?_⟩
  · simp only [State.goto, update_apply]
    split_ifs <;> exact ⟨id, id⟩
  · simp [State.goto, Pc.locksWrite]
  · simp [State.goto, hne.symm, Pc.readsBase]

/-- **When nobody reads the base index while rows are added**: exactly if nobody asks for iterators,
or no thread advances one that is not the only thread to add rows. -/
theorem noReadDuringAdd_iff (cos : Bool) (may : ℕ → Call → Prop) :
    (∀ s, Reachable cos may s → ¬ ReadsDuringAdd s) ↔
      ¬ ∃ t u v, t ≠ u ∧ may t .add ∧ may u .advance ∧ may v .annIterator := by
  constructor
  · rintro hnever ⟨t, u, v, hne, hadd, hadvance, hann⟩
    obtain ⟨s, hs, hreads⟩ := exists_readsDuringAdd cos hne hadd hadvance hann
    exact hnever s hs hreads
  · rintro hnot s hs ⟨t, u, hwrite, hread⟩
    have hguard := guarded_of_reachable hs
    have hadd : may t .add := hguard.calls t .add (by
      cases hpc : s.pc t <;> simp_all [Pc.locksWrite, Pc.call])
    cases hpc : s.pc u with
    | baseSearch | baseAnnIterator => exact hguard.exclusive t u hwrite (by rw [hpc]; trivial)
    | baseAdvance =>
      obtain ⟨v, hann⟩ := hguard.handedOut (hguard.advances u hpc)
      refine hnot ⟨t, u, v, ?_, hadd, hguard.calls u .advance (by rw [hpc]; rfl), hann⟩
      rintro rfl
      rw [hpc] at hwrite
      exact hwrite
    | _ =>
      rw [hpc] at hread
      exact hread

/-- Thread 1 advances an iterator while thread 0 adds rows. -/
theorem readsDuringAdd_twoThreads : ∃ s, Reachable false (fun _ _ => True) s ∧ ReadsDuringAdd s :=
  exists_readsDuringAdd false (t := 0) (u := 1) (v := 1) (by decide) trivial trivial trivial

/-! ### What the refiner is asked for -/

/-- What the counters say about a thread. -/
def Pc.Fits (cos : Bool) (ntotal norms baseCount : ℕ) : Pc → Prop
  | .counting size _ => cos = true → ntotal + size ≤ norms
  | .locking size _ | .baseAdd size _ => baseCount + size ≤ ntotal
  | .refining ids => ∀ id ∈ ids, id < ntotal
  | _ => True

/-- A block's norms are stored first, then it is counted, then the base index has it. -/
structure Counted (cos : Bool) (s : State) : Prop where
  base_le : s.baseCount ≤ s.ntotal
  norms_ge : cos = true → s.ntotal ≤ s.norms
  fits : ∀ t, (s.pc t).Fits cos s.ntotal s.norms s.baseCount

lemma Pc.Fits.mono (h : pc'.Fits cos ntotal norms baseCount) (hcall : pc'.call ≠ some .add)
    (hle : ntotal ≤ ntotal') : pc'.Fits cos ntotal' norms' baseCount' := by
  cases pc' with
  | refining ids => exact fun id hid => Nat.lt_of_lt_of_le (h id hid) hle
  | counting | locking | baseAdd => exact absurd rfl hcall
  | _ => trivial

lemma Counted.goto (h : Counted cos s)
    (hfits : pc'.Fits cos s.ntotal s.norms s.baseCount) : Counted cos (s.goto t pc') := by
  refine ⟨h.base_le, h.norms_ge, fun u => ?_⟩
  simp only [State.goto, update_apply]
  split_ifs
  · exact hfits
  · exact h.fits u

lemma Counted.step (h : Counted cos s) (hg : Guarded may s.iterators s.pc)
    (hone : ∀ t, may t .add → t = adder) (hstep : Step cos may t s s') :
    Counted cos s' := by
  have hbase := h.base_le
  -- a thread that changes a counter is the only one in `Add`
  have hothers {pc' : Pc} {norms ntotal baseCount : ℕ} (hc : (s.pc t).call = some .add)
      (hle : s.ntotal ≤ ntotal) (hfits : pc'.Fits cos ntotal norms baseCount) (u : ℕ) :
      ((s.goto t pc').pc u).Fits cos ntotal norms baseCount := by
    simp only [State.goto, update_apply]
    split_ifs with hu
    · exact hfits
    · refine (h.fits u).mono (fun hadd => hu ?_) hle
      rw [hone u (hg.calls u .add hadd), hone t (hg.calls t .add hc)]
  cases hstep with
  | addNorms size blocks hpc =>
    have hnorms : cos = true → s.ntotal + size ≤ s.norms + if cos then size else 0 :=
      fun hcos => by
        have := h.norms_ge hcos
        rw [if_pos hcos]
        omega
    exact ⟨hbase, fun hcos => Nat.le_trans (Nat.le_add_right ..) (hnorms hcos),
      hothers (by rw [hpc]; rfl) (Nat.le_refl _) hnorms⟩
  | addCount size blocks hpc =>
    have hnorms := h.fits t
    rw [hpc] at hnorms
    exact ⟨Nat.le_add_right_of_le hbase, hnorms,
      hothers (by rw [hpc]; rfl) (Nat.le_add_right ..) (Nat.add_le_add_right hbase size)⟩
  | unLockWrite size blocks hpc =>
    have hcount := h.fits t
    rw [hpc] at hcount
    exact ⟨hcount, h.norms_ge, hothers (by rw [hpc]; rfl) (Nat.le_refl _) trivial⟩
  | lockWrite size blocks hpc =>
    have hcount := h.fits t
    rw [hpc] at hcount
    exact h.goto hcount
  | refine ids hpc hids => exact h.goto fun id hid => Nat.lt_of_lt_of_le (hids id hid) hbase
  | handOut =>
    have hout : Counted cos (s.goto t .outside) := h.goto trivial
    exact ⟨hout.base_le, hout.norms_ge, hout.fits⟩
  | _ => exact h.goto trivial

/-- **What the refiner is asked for**: with one thread that adds rows and any number of searches,
all ids that the base index has found are below the number of rows and the number of norms. -/
theorem refining_lt_ntotal {adder : ℕ} (hone : ∀ t, may t .add → t = adder)
    (h : Reachable cos may s) {ids : List ℕ} (hpc : s.pc t = .refining ids) :
    ∀ id ∈ ids, id < s.ntotal ∧ (cos = true → id < s.norms) := by
  have hcounted : Counted cos s := by
    clear hpc
    induction h with
    | refl => exact ⟨Nat.le_refl 0, fun _ => Nat.le_refl 0, fun _ => trivial⟩
    | tail hreach hstep ih =>
      obtain ⟨t, hstep⟩ := hstep
      exact ih.step (guarded_of_reachable hreach) hone hstep
  have hlt := hcounted.fits t
  rw [hpc] at hlt
  exact fun id hid =>
    ⟨hlt id hid, fun hcos => Nat.lt_of_lt_of_le (hlt id hid) (hcounted.norms_ge hcos)⟩

/-- Thread 0 adds a row, and thread 1 finds it. -/
theorem refining_lt_ntotal_oneRow : ∃ s, Reachable true (fun t c => c = .add → t = 0) s ∧
    s.pc 1 = .refining [0] ∧ 0 < s.ntotal := by
  have hinit : Reachable true (fun t c => c = .add → t = 0) {} := .refl
  have hcounted := ((hinit.next (.beginAdd 1 (t := 0) rfl fun _ => rfl)).next
    (.addNorms 1 [] (update_self ..))).next (.addCount 1 [] (update_self ..))
  have hadded := (hcounted.next (.lockWrite 1 [] (update_self ..) fun u => by
      simp only [State.goto, update_apply]
      split_ifs <;> exact ⟨id, id⟩)).next (.unLockWrite 1 [] (update_self ..))
  have hfound := (hadded.next (.search (t := 1) rfl nofun fun u => by
      simp only [State.goto, update_apply]
      split_ifs <;> exact id)).next (.refine [0] (update_self ..) (by decide))
  exact ⟨_, hfound, rfl, (refining_lt_ntotal (t := 1) (fun _ h => h rfl) hfound
    (show _ = Pc.refining [0] from rfl) 0 (List.mem_singleton.mpr rfl)).1⟩

/-! ### Steps of `Add` that fail -/

/-- In every `Add` of a history failures are reported, and both indexes then have as many rows. -/
def Agrees (cos : Bool) : List (List Block) → State → Prop
  | [], _ => True
  | blocks :: history, s =>
    let result := addBlocks cos blocks s
    ((∃ b ∈ blocks, b.Fails) → result.2 ≠ .success) ∧ result.1.ntotal = result.1.baseCount
      ∧ Agrees cos history result.1

lemma addBlocks_spec (cos : Bool) {blocks : List Block} (hsize : ∀ b ∈ blocks, 0 < b.size)
    {s : State} (h : s.ntotal = s.baseCount) :
    ((addBlocks cos blocks s).2 = .success ↔ ∀ b ∈ blocks, b.baseStatus = .success) ∧
      ((addBlocks cos blocks s).1.ntotal = (addBlocks cos blocks s).1.baseCount ↔
        ∀ b ∈ blocks, b.baseStatus = .success) := by
  induction blocks generalizing s with
  | nil => simp [addBlocks, h]
  | cons b blocks ih =>
    obtain ⟨hb, hsize⟩ := List.forall_mem_cons.mp hsize
    rw [addBlocks, List.forall_mem_cons]
    by_cases hstatus : b.baseStatus = .success
    · dsimp only
      rw [if_pos hstatus, eq_true hstatus, true_and]
      exact ih hsize (by rw [h])
    · dsimp only
      rw [if_neg hstatus]
      refine ⟨iff_of_false hstatus fun h => hstatus h.1, iff_of_false ?_ fun h => hstatus h.1⟩
      show s.ntotal + b.size ≠ s.baseCount
      omega

/-- **The indexes agree** through a history exactly if no step of it fails. -/
theorem agrees_iff (cos : Bool) (history : List (List Block)) (s : State)
    (h : s.ntotal = s.baseCount) (hsize : ∀ blocks ∈ history, ∀ b ∈ blocks, 0 < b.size) :
    Agrees cos history s ↔ ∀ blocks ∈ history, ∀ b ∈ blocks, ¬ b.Fails := by
  induction history generalizing s with
  | nil => simp [Agrees]
  | cons blocks history ih =>
    obtain ⟨hb, hsize⟩ := List.forall_mem_cons.mp hsize
    obtain ⟨hsuccess, hequal⟩ := addBlocks_spec cos hb h
    rw [Agrees, List.forall_mem_cons, hequal]
    constructor
    · rintro ⟨hreports, hok, hrest⟩
      refine ⟨fun b hb hfails => hreports ⟨b, hb, hfails⟩ (hsuccess.mpr hok), ?_⟩
      exact (ih _ (hequal.mpr hok) hsize).mp hrest
    · rintro ⟨hnone, hrest⟩
      have hok : ∀ b ∈ blocks, b.baseStatus = .success := fun b hb =>
        not_not.mp fun hne => hnone b hb (.inr hne)
      refine ⟨fun ⟨b, hb, hfails⟩ => absurd hfails (hnone b hb), hok, ?_⟩
      exact (ih _ (hequal.mpr hok) hsize).mpr hrest

/-- Two calls of `Add`, the first with 5000 rows. -/
theorem agrees_twoAdds : Agrees true
    [[⟨4096, false, .success⟩, ⟨904, false, .success⟩], [⟨1, false, .success⟩]] {} :=
  (agrees_iff true _ _ rfl (by simp)).mpr (by simp [Block.Fails])

/-- One row whose quantizer step fails is a success, and one that the base index refuses stays in
the refiner. -/
theorem not_agrees_oneFailure :
    (addBlocks true [⟨1, true, .success⟩] {}).2 = .success ∧
      ¬ Agrees true [[⟨1, true, .success⟩]] {} ∧
      (addBlocks true [⟨1, false, .faissInnerError⟩] {}).1.ntotal = 1 ∧
      (addBlocks true [⟨1, false, .faissInnerError⟩] {}).1.baseCount = 0 ∧
      ¬ Agrees true [[⟨1, false, .faissInnerError⟩]] {} := by
  simp [Agrees, addBlocks, Block.Fails]

end Rvanns.Knowhere.RefinerThreads
