import Rvanns.Knowhere.Equiv.FairRWLock

/-!
# Wake-ups of the fair read-write lock

`notify_one` may wake a writer that is not at the front of the queue; this writer goes back to sleep
and the one at the front is never woken.
-/

namespace Rvanns.Knowhere.FairRWLock

open Cpp List Option Finset State

/-! ### Readers that wait -/

def ReadersAwaitWriter (s : State) : Prop :=
  ∀ t ∈ s.threads, t.waitsOn .read = true → s.writeRequests ≠ []

variable {s : State}

lemma requests_of_predicate_false (hs : Inv s) {id : ℕ}
    (h : s.predicate .read id = false) : s.writeRequests ≠ [] := by
  intro hnil
  have hw : s.writer = true := by
    cases hw : s.writer with
    | true => rfl
    | false => simp [predicate, hw, hnil] at h
  exact hs.requested hw hnil

namespace ReadersAwaitWriter

variable {s s' : State} {i : ℕ}

lemma of_set (hr : ReadersAwaitWriter s) (s' : State) (t' : Thread)
    (hthreads : s'.threads = s.threads.set i t')
    (hnew : t'.waitsOn .read = true → s'.writeRequests ≠ [])
    (hqueue : s.writeRequests ≠ [] → s'.writeRequests ≠ []) : ReadersAwaitWriter s' := by
  intro t ht hwaits
  rw [hthreads] at ht
  rcases mem_or_eq_of_mem_set ht with hmem | rfl
  · exact hqueue (hr t hmem hwaits)
  · exact hnew hwaits

lemma notifiesOne (hr : ReadersAwaitWriter s) (h : NotifiesOne s s') : ReadersAwaitWriter s' := by
  cases h with
  | nobody => exact hr
  | @wakes pick id todo hi =>
    exact hr.of_set (s.setThread pick ⟨.notified .write id, todo⟩) _ rfl
      (nofun) fun hne => hne

lemma action (hr : ReadersAwaitWriter s) (hs : Inv s) (h : Action i s s') :
    ReadersAwaitWriter s' := by
  cases h with
  | @arrive mode todo hi =>
    apply hr.of_set (i := i) _ ⟨.notified mode s.idCounter, todo⟩ (by simp)
    · intro hwaits
      cases hwaits
    · cases mode <;> simp [issue]
  | @acquire mode id todo hi hpred =>
    apply hr.of_set _ ⟨.holding mode, todo⟩ (by cases mode <;> rfl)
    · intro hwaits
      cases hwaits
    · cases mode <;> exact fun hne => hne
  | @wait mode id todo hi hpred =>
    apply hr.of_set (s.setThread i ⟨.waiting mode id, todo⟩) ⟨.waiting mode id, todo⟩ rfl _
      fun hne => hne
    intro hwaits
    obtain rfl : mode = .read := of_decide_eq_true hwaits
    show s.writeRequests ≠ []
    exact requests_of_predicate_false hs hpred
  | @unLockRead todo s' hi hnotify =>
    have hleave := hr.of_set (s.leaveRead i todo) ⟨.outside, todo⟩ rfl
      (fun hwaits => by cases hwaits) id
    split_ifs at hnotify
    · exact hleave.notifiesOne hnotify
    · exact hnotify ▸ hleave
  | @unLockWrite todo s' hi hnotify =>
    split_ifs at hnotify with hmore
    · have hleave : ReadersAwaitWriter (s.leaveWrite i todo) := fun _ _ _ => hmore
      exact hleave.notifiesOne hnotify
    · -- every reader that waited is notified
      subst hnotify
      intro t ht hwaits
      obtain ⟨t₀, -, rfl⟩ := mem_map.mp ht
      rw [waitsOn_wake] at hwaits
      cases hwaits

end ReadersAwaitWriter

/-! ### What the threads may do -/

def writers (progs : List (List Mode)) : Finset ℕ :=
  {i ∈ Finset.range progs.length | ∃ p ∈ progs[i]?, .write ∈ p}

def users (progs : List (List Mode)) : Finset ℕ :=
  {i ∈ Finset.range progs.length | ∃ p ∈ progs[i]?, p ≠ []}

section Programs

variable {progs : List (List Mode)} {i : ℕ} {p : List Mode}

lemma mem_writers (hp : progs[i]? = some p) (hw : .write ∈ p) : i ∈ writers progs := by
  have hlt := lt_length hp
  exact Finset.mem_filter.mpr ⟨Finset.mem_range.mpr hlt, p, hp, hw⟩

lemma mem_users (hp : progs[i]? = some p) (hne : p ≠ []) : i ∈ users progs := by
  have hlt := lt_length hp
  exact Finset.mem_filter.mpr ⟨Finset.mem_range.mpr hlt, p, hp, hne⟩

lemma writers_subset_users (progs : List (List Mode)) : writers progs ⊆ users progs := by
  intro i hi
  obtain ⟨hlt, p, hp, hw⟩ := Finset.mem_filter.mp hi
  exact mem_users hp (ne_nil_of_mem hw)

end Programs

def Within (progs : List (List Mode)) (s : State) : Prop :=
  ∀ (i : ℕ) (t : Thread), s.threads[i]? = some t → ∃ p, progs[i]? = some p ∧ t.modes ⊆ p

namespace Within

variable {progs : List (List Mode)} {s s' : State} {i : ℕ} {t : Thread}

variable (h : Within progs s)

include h

lemma of_set (s' : State) (t' : Thread) (hi : s.threads[i]? = some t)
    (hthreads : s'.threads = s.threads.set i t') (hmodes : t'.modes ⊆ t.modes) :
    Within progs s' := by
  intro j u hj
  rw [hthreads] at hj
  rcases eq_or_of_getElem?_set hj with ⟨rfl, rfl⟩ | ⟨-, hj⟩
  · obtain ⟨p, hp, hsub⟩ := h _ t hi
    exact ⟨p, hp, fun _ hm => hsub (hmodes hm)⟩
  · exact h j u hj

lemma notifiesOne (hn : NotifiesOne s s') : Within progs s' := by
  cases hn with
  | nobody => exact h
  | @wakes pick id todo hi =>
    exact h.of_set (s.setThread pick ⟨.notified .write id, todo⟩) _ hi rfl (List.Subset.refl _)

lemma notifyAll : Within progs (s.notifyAll .read) := by
  intro j t hj
  have hj' : (s.threads.map (Thread.wake .read))[j]? = some t := hj
  rw [getElem?_map, map_eq_some_iff] at hj'
  obtain ⟨u, hu, rfl⟩ := hj'
  rw [modes_wake]
  exact h j u hu

lemma action (ha : Action i s s') : Within progs s' := by
  cases ha with
  | @arrive mode todo hi =>
    exact h.of_set _ ⟨.notified mode s.idCounter, todo⟩ hi (by simp) (List.Subset.refl _)
  | @acquire mode id todo hi _ =>
    exact h.of_set _ ⟨.holding mode, todo⟩ hi (by cases mode <;> rfl) (List.Subset.refl _)
  | @wait mode id todo hi _ =>
    exact h.of_set (s.setThread i ⟨.waiting mode id, todo⟩) _ hi rfl (List.Subset.refl _)
  | @unLockRead todo s' hi hnotify =>
    have hleave := h.of_set (s.leaveRead i todo) ⟨.outside, todo⟩ hi rfl
      (subset_cons_self Mode.read todo)
    split_ifs at hnotify
    · exact hleave.notifiesOne hnotify
    · exact hnotify ▸ hleave
  | @unLockWrite todo s' hi hnotify =>
    have hleave := h.of_set (s.leaveWrite i todo) ⟨.outside, todo⟩ hi rfl
      (subset_cons_self Mode.write todo)
    split_ifs at hnotify
    · exact hleave.notifiesOne hnotify
    · exact hnotify ▸ hleave.notifyAll

lemma mem_writers_of_writeIds (hi : s.threads[i]? = some t) {id : ℕ}
    (hid : id ∈ t.writeIds) : i ∈ writers progs := by
  obtain ⟨p, hp, hsub⟩ := h i t hi
  apply mem_writers hp (hsub _)
  obtain ⟨pc, todo⟩ := t
  cases pc with
  | waiting mode _ => cases mode <;> simp [Thread.writeIds, Thread.modes] at hid ⊢
  | notified mode _ => cases mode <;> simp [Thread.writeIds, Thread.modes] at hid ⊢
  | _ => simp [Thread.writeIds] at hid

lemma mem_users_of_holding (hi : s.threads[i]? = some ⟨.holding mode, todo⟩) : i ∈ users progs := by
  obtain ⟨p, hp, hsub⟩ := h i _ hi
  exact mem_users hp (ne_nil_of_mem (hsub mem_cons_self))

end Within

lemma within_init (progs : List (List Mode)) : Within progs (init progs) := by
  intro i t hi
  have hi' : (progs.map fun p => (⟨.outside, p⟩ : Thread))[i]? = some t := hi
  rw [getElem?_map, map_eq_some_iff] at hi'
  obtain ⟨p, hp, rfl⟩ := hi'
  exact ⟨p, hp, List.Subset.refl p⟩

/-! ### Who is woken -/

def Handed (s : State) : Prop :=
  (∀ t ∈ s.threads, t.holds = false) →
    ∀ id ∈ s.writeRequests.head?, ∃ t ∈ s.threads, t.pc = .notified .write id

namespace Handed

variable {s s' : State} {i : ℕ}

lemma exists_first (hs : Inv s) (hfree : ∀ t ∈ s.threads, t.holds = false) {id : ℕ}
    (hid : id ∈ s.writeRequests.head?) :
    ∃ (j : ℕ) (t : Thread), s.threads[j]? = some t ∧ id ∈ t.writeIds := by
  have hpending : s.pending = s.writeRequests := by simp [pending, (hs.free hfree).2]
  have hmem : id ∈ s.threads.flatMap Thread.writeIds := by
    rw [← hs.pending_perm.mem_iff, hpending]
    exact mem_of_mem_head? hid
  obtain ⟨t, ht, hid⟩ := mem_flatMap.mp hmem
  obtain ⟨j, hj⟩ := mem_iff_getElem?.mp ht
  exact ⟨j, t, hj, hid⟩

lemma of_notifiesOne (hs : Inv s)
    (hone : ∀ {j k : ℕ} {t u : Thread} {id id' : ℕ}, s.threads[j]? = some t →
      s.threads[k]? = some u → id ∈ t.writeIds → id' ∈ u.writeIds → j = k)
    (h : NotifiesOne s s') : Handed s' := by
  intro hfree id hid
  obtain ⟨j, t, hj, hwaits⟩ := exists_first (hs.notifiesOne h) hfree hid
  refine ⟨t, mem_of_getElem? hj, ?_⟩
  cases h with
  | nobody hasleep =>
    obtain hpc | hpc := mem_writeIds.mp hwaits
    · have hnot := hasleep t (mem_of_getElem? hj)
      simp [Thread.waitsOn, hpc] at hnot
    · exact hpc
  | @wakes pick id' todo hpick =>
    rcases eq_or_of_getElem?_set hj with ⟨-, rfl⟩ | ⟨hne, hj⟩
    · obtain rfl : id = id' := by simpa [Thread.writeIds] using hwaits
      rfl
    · exact absurd (hone hj hpick hwaits (show id' ∈ _ by simp [Thread.writeIds])) hne

lemma of_set (h : Handed s) (s' : State) (t t' : Thread) (hi : s.threads[i]? = some t)
    (hthreads : s'.threads = s.threads.set i t') (hholds : t.holds = false)
    (hqueue : s'.writeRequests = s.writeRequests)
    (hkeep : (∀ u ∈ s.threads, u.holds = false) → ∀ id ∈ s.writeRequests.head?,
      t.pc ≠ .notified .write id) : Handed s' := by
  intro hfree id hid
  rw [hthreads] at hfree
  rw [hqueue] at hid
  have hfree₀ : ∀ u ∈ s.threads, u.holds = false := by
    intro u hu
    obtain ⟨j, hj⟩ := mem_iff_getElem?.mp hu
    by_cases hij : i = j
    · subst hij
      rw [mem_unique hj hi]
      exact hholds
    · exact hfree u (mem_of_getElem? ((getElem?_set_ne hij).trans hj))
  obtain ⟨u, hu, hpc⟩ := h hfree₀ id hid
  obtain ⟨j, hj⟩ := mem_iff_getElem?.mp hu
  have hij : i ≠ j := by
    rintro rfl
    obtain rfl := mem_unique hj hi
    exact hkeep hfree₀ id hid hpc
  refine ⟨u, ?_, hpc⟩
  rw [hthreads]
  exact mem_of_getElem? ((getElem?_set_ne hij).trans hj)

variable {progs : List (List Mode)}

lemma eq_of_waits (hwithin : Within progs s)
    (hfew : (writers progs).card ≤ 1 ∨ (users progs).card ≤ 2) {mode : Mode} {todo : List Mode}
    (hi : s.threads[i]? = some ⟨.holding mode, todo⟩) {j k : ℕ} {t u : Thread} {id id' : ℕ}
    (hj : (s.threads.set i ⟨.outside, todo⟩)[j]? = some t)
    (hk : (s.threads.set i ⟨.outside, todo⟩)[k]? = some u)
    (ht : id ∈ t.writeIds) (hu : id' ∈ u.writeIds) : j = k := by
  rcases eq_or_of_getElem?_set hj with ⟨-, rfl⟩ | ⟨hji, hj⟩
  · simp [Thread.writeIds] at ht
  rcases eq_or_of_getElem?_set hk with ⟨-, rfl⟩ | ⟨hki, hk⟩
  · simp [Thread.writeIds] at hu
  by_contra hjk
  have hjw := hwithin.mem_writers_of_writeIds hj ht
  have hkw := hwithin.mem_writers_of_writeIds hk hu
  rcases hfew with hfew | hfew
  · have := one_lt_card.mpr ⟨j, hjw, k, hkw, hjk⟩
    omega
  · have := two_lt_card.mpr ⟨i, hwithin.mem_users_of_holding hi, j,
      writers_subset_users _ hjw, k, writers_subset_users _ hkw, hji.symm, hki.symm, hjk⟩
    omega

lemma arrive (h : Handed s) (hi : s.threads[i]? = some ⟨.outside, mode :: todo⟩) :
    Handed ((s.issue mode).setThread i ⟨.notified mode s.idCounter, todo⟩) := by
  cases mode with
  | read => exact h.of_set _ _ ⟨.notified .read s.idCounter, todo⟩ hi rfl rfl rfl (by simp)
  | write =>
    have hmove := h.of_set (s.setThread i ⟨.notified .write s.idCounter, todo⟩) _ _ hi rfl rfl rfl
      (by simp)
    intro hfree id hid
    cases hq : s.writeRequests with
    | nil =>
      -- the new writer is the first of the queue itself
      obtain rfl : s.idCounter = id := by simpa [issue, hq] using hid
      exact ⟨_, mem_of_getElem? (getElem?_set_of_eq_some _ hi), rfl⟩
    | cons a rest =>
      apply hmove hfree id
      simpa [issue, hq] using hid

lemma action (h : Handed s) (hs : Inv s) (hwithin : Within progs s)
    (hfew : (writers progs).card ≤ 1 ∨ (users progs).card ≤ 2) (ha : Action i s s') :
    Handed s' := by
  cases ha with
  | arrive hi => exact h.arrive hi
  | @acquire mode id todo hi _ =>
    intro hfree
    have hmem : ⟨.holding mode, todo⟩ ∈ (s.acquire i todo mode).threads := by
      cases mode <;> exact mem_of_getElem? (getElem?_set_of_eq_some _ hi)
    exact absurd (hfree _ hmem) (Bool.false_ne_true ∘ Eq.symm)
  | @wait mode id todo hi hpred =>
    apply h.of_set (s.setThread i ⟨.waiting mode id, todo⟩) _ _ hi rfl rfl rfl
    intro hfree id' hid' hpc
    obtain ⟨rfl, rfl⟩ : mode = .write ∧ id = id' := by simpa using hpc
    obtain ⟨hr, hw⟩ := hs.free hfree
    have hhead : s.writeRequests.head? = some id := hid'
    simp [predicate, hr, hw, hhead] at hpred
  | @unLockRead todo s' hi hnotify =>
    split_ifs at hnotify with hcond
    · exact of_notifiesOne (hs.leaveRead hi) (eq_of_waits hwithin hfew hi) hnotify
    · subst hnotify
      intro hfree id hid
      obtain ⟨hr, -⟩ := (hs.leaveRead hi).free hfree
      exact absurd ⟨hr, ne_nil_of_mem (mem_of_mem_head? hid)⟩ hcond
  | @unLockWrite todo s' hi hnotify =>
    split_ifs at hnotify with hcond
    · exact of_notifiesOne (hs.leaveWrite hi) (eq_of_waits hwithin hfew hi) hnotify
    · subst hnotify
      intro _ id hid
      exact absurd (ne_nil_of_mem (mem_of_mem_head? hid)) hcond

end Handed

lemma handed_init (progs : List (List Mode)) : Handed (init progs) := by
  intro _ id hid
  simp [init] at hid

lemma readersAwaitWriter_init (progs : List (List Mode)) : ReadersAwaitWriter (init progs) := by
  intro t ht hwaits
  obtain ⟨p, -, rfl⟩ := mem_map.mp ht
  cases hwaits

variable {progs : List (List Mode)}

lemma handed_of_reachable (h : Reachable progs s)
    (hfew : (writers progs).card ≤ 1 ∨ (users progs).card ≤ 2) : Handed s := by
  have hall : (Inv s ∧ Within progs s) ∧ Handed s := by
    refine h.of_actions (P := fun s => (Inv s ∧ Within progs s) ∧ Handed s)
      ⟨⟨inv_init _, within_init _⟩, handed_init _⟩ ?_
    rintro s s' i ⟨⟨hs, hwithin⟩, hhanded⟩ ha
    exact ⟨⟨hs.action ha, hwithin.action ha⟩, hhanded.action hs hwithin hfew ha⟩
  exact hall.2

lemma readersAwaitWriter_of_reachable (h : Reachable progs s) : ReadersAwaitWriter s := by
  have hall : Inv s ∧ ReadersAwaitWriter s := by
    refine h.of_actions (P := fun s => Inv s ∧ ReadersAwaitWriter s)
      ⟨inv_init _, readersAwaitWriter_init _⟩ ?_
    rintro s s' i ⟨hs, hr⟩ ha
    exact ⟨hs.action ha, hr.action hs ha⟩
  exact hall.2

lemma not_stuck (hs : Inv s) (hr : ReadersAwaitWriter s) (hh : Handed s) : ¬ s.Stuck := by
  rintro ⟨hfree, ⟨t, ht, hwaits⟩, hready⟩
  obtain ⟨hreaders, hwriter⟩ := hs.free hfree
  cases hq : s.writeRequests with
  | cons id rest =>
    obtain ⟨u, hu, hpc⟩ := hh hfree id (by simp [hq])
    have hnot := hready u hu
    simp [ready, hpc, predicate, hreaders, hwriter, hq] at hnot
  | nil =>
    -- no writer waits, so the thread is a reader, and awake
    have hnot := hready t ht
    have hids : t.writeIds = [] := by
      have hperm := hs.pending_perm
      rw [pending, hwriter, hq] at hperm
      exact flatMap_eq_nil_iff.mp hperm.symm.eq_nil t ht
    cases hpc : t.pc with
    | notified mode id =>
      cases mode with
      | read => simp [ready, hpc, predicate, hwriter, hq] at hnot
      | write => simp [Thread.writeIds, hpc] at hids
    | waiting mode id =>
      cases mode with
      | read => exact hr t ht (by simp [Thread.waitsOn, hpc]) hq
      | write => simp [Thread.writeIds, hpc] at hids
    | _ => simp [Thread.waits, hpc] at hwaits

/-! ### The wrong writer is woken -/

def quiet (n : ℕ) (todos : List (List Mode)) : State :=
  { idCounter := n, threads := todos.map (⟨.outside, ·⟩) }

section Alone

variable {s : State} {i n : ℕ} {mode : Mode} {todo : List Mode} {todos : List (List Mode)}

lemma step_lock (hi : s.threads[i]? = some ⟨.outside, mode :: todo⟩) (pick : ℕ) :
    s.step i pick = some (s.lock i todo mode) := by
  simp [step, hi]

lemma step_unLockRead (hi : s.threads[i]? = some ⟨.holding .read, todo⟩) (pick : ℕ) :
    s.step i pick = s.unLockRead i todo pick := by
  simp [step, hi]

lemma step_unLockWrite (hi : s.threads[i]? = some ⟨.holding .write, todo⟩) (pick : ℕ) :
    s.step i pick = s.unLockWrite i todo pick := by
  simp [step, hi]

lemma getElem?_threads_quiet (hi : todos[i]? = some todo) :
    (quiet n todos).threads[i]? = some ⟨.outside, todo⟩ := by
  simp [quiet, hi]

def taken (n : ℕ) (todos : List (List Mode)) (i : ℕ) (todo : List Mode) : Mode → State
  | .read => {
      idCounter := n + 1
      readers := 1
      threads := (todos.map (⟨.outside, ·⟩)).set i ⟨.holding .read, todo⟩ }
  | .write => {
      idCounter := n + 1
      writer := true
      writeRequests := [n]
      threads := (todos.map (⟨.outside, ·⟩)).set i ⟨.holding .write, todo⟩ }

lemma lock_quiet : (quiet n todos).lock i todo mode = taken n todos i todo mode := by
  cases mode <;>
    simp [lock, test, issue, predicate, acquire, quiet, taken]

lemma unLock_taken (hi : i < todos.length) :
    (taken n todos i todo mode).step i 0 = some (quiet (n + 1) (todos.set i todo)) := by
  have hthread (t : Thread) : ((todos.map (⟨.outside, ·⟩)).set i t)[i]? = some t :=
    getElem?_set_self (by simpa using hi)
  cases mode with
  | read =>
    rw [step_unLockRead (hthread _), unLockRead]
    simp [taken, quiet, leaveRead, map_set]
  | write =>
    rw [step_unLockWrite (hthread _), unLockWrite]
    simp [taken, quiet, leaveWrite, notifyAll, map_set, Function.comp_def, Thread.wake]

variable {progs : List (List Mode)}

variable (h : Reachable progs (quiet n todos))

include h in
lemma Reachable.pass (hi : todos[i]? = some (mode :: todo)) :
    Reachable progs (quiet (n + 1) (todos.set i todo)) := by
  have hlt := lt_length hi
  have hlock := h.step (step_lock (getElem?_threads_quiet hi) 0)
  rw [lock_quiet] at hlock
  exact hlock.step (unLock_taken hlt)

include h in
lemma Reachable.passAll (hi : todos[i]? = some (done ++ todo)) :
    ∃ n', Reachable progs (quiet n' (todos.set i todo)) := by
  induction done generalizing n todos with
  | nil =>
    obtain ⟨hlt, hget⟩ := List.getElem?_eq_some_iff.mp hi
    refine ⟨n, ?_⟩
    rw [← nil_append todo, ← hget, set_getElem_self]
    exact h
  | cons mode done ih =>
    have hlt := lt_length hi
    obtain ⟨n', hn'⟩ := ih (h.pass hi) (getElem?_set_self hlt)
    rw [set_set] at hn'
    exact ⟨n', hn'⟩

lemma Reachable.wait (h : Reachable progs s) (hi : s.threads[i]? = some ⟨.outside, .write :: todo⟩)
    (htaken : s.writer = true ∨ s.readers ≠ 0) :
    Reachable progs ((s.issue .write).setThread i ⟨.waiting .write s.idCounter, todo⟩) := by
  have hpred : (s.issue .write).predicate .write s.idCounter = false := by
    rcases htaken with hw | hr
    · simp [predicate, issue, hw]
    · simp [predicate, issue, hr]
  have hlock := h.step (step_lock hi 0)
  rwa [lock, test, hpred, if_neg Bool.false_ne_true] at hlock

def misled (n : ℕ) (todos : List (List Mode)) (i j k : ℕ) (ti tj tk : List Mode) : State :=
  { idCounter := n + 3
    writeRequests := [n + 1, n + 2]
    threads := (((todos.map (⟨.outside, ·⟩)).set k ⟨.outside, tk⟩).set i
      ⟨.waiting .write (n + 1), ti⟩).set j ⟨.notified .write (n + 2), tj⟩ }

lemma stuck_misled (hij : i ≠ j) (hi : i < todos.length) :
    (misled n todos i j k ti tj tk).Stuck := by
  have hall : ∀ t ∈ (misled n todos i j k ti tj tk).threads, t.pc = .outside
      ∨ t.pc = .waiting .write (n + 1) ∨ t.pc = .notified .write (n + 2) := by
    intro t ht
    rcases mem_or_eq_of_mem_set ht with ht | rfl
    · rcases mem_or_eq_of_mem_set ht with ht | rfl
      · rcases mem_or_eq_of_mem_set ht with ht | rfl
        · obtain ⟨todo, -, rfl⟩ := mem_map.mp ht
          exact .inl rfl
        · exact .inl rfl
      · exact .inr (.inl rfl)
    · exact .inr (.inr rfl)
  refine ⟨?_, ⟨⟨.waiting .write (n + 1), ti⟩, ?_, rfl⟩, ?_⟩
  · intro t ht
    rcases hall t ht with hpc | hpc | hpc <;> simp [Thread.holds, hpc]
  · apply mem_of_getElem? (i := i)
    show ((_ : List Thread).set j _)[i]? = _
    rw [getElem?_set_ne hij.symm]
    exact getElem?_set_self (by simpa using hi)
  · intro t ht
    rcases hall t ht with hpc | hpc | hpc <;>
      simp [ready, hpc, predicate, misled]

lemma notifyOne_of_waiting {pick id : ℕ} (h : s.threads[pick]? = some ⟨.waiting mode id, todo⟩) :
    s.notifyOne mode pick = some (s.setThread pick ⟨.notified mode id, todo⟩) := by
  have hany : s.threads.any (·.waitsOn mode) = true :=
    any_eq_true.mpr ⟨_, mem_of_getElem? h, by simp [Thread.waitsOn]⟩
  rw [notifyOne, if_pos hany, h, bind_some, if_pos (by simp [Thread.waitsOn])]
  simp [Thread.wake]

def crowded (n : ℕ) (todos : List (List Mode)) (i j k : ℕ) (ti tj tk : List Mode) (mode : Mode) :
    State :=
  { taken n todos k tk mode with
    idCounter := n + 3
    writeRequests := (taken n todos k tk mode).writeRequests ++ [n + 1, n + 2]
    threads := (((todos.map (⟨.outside, ·⟩)).set k ⟨.holding mode, tk⟩).set i
      ⟨.waiting .write (n + 1), ti⟩).set j ⟨.waiting .write (n + 2), tj⟩ }

lemma unLock_crowded (hik : i ≠ k) (hjk : j ≠ k) (hj : j < todos.length) (hk : k < todos.length) :
    (crowded n todos i j k ti tj tk mode).step k j = some (misled n todos i j k ti tj tk) := by
  have hholds : (crowded n todos i j k ti tj tk mode).threads[k]? = some ⟨.holding mode, tk⟩ := by
    show (((_ : List Thread).set i _).set j _)[k]? = _
    rw [getElem?_set_ne hjk, getElem?_set_ne hik]
    exact getElem?_set_self (by simpa using hk)
  have hwaits (t u v w : Thread) :
      (((((todos.map (⟨.outside, ·⟩)).set k t).set i u).set j v).set k w)[j]? = some v := by
    rw [getElem?_set_ne hjk.symm]
    exact getElem?_set_self (by simpa using hj)
  -- only the last thing that each of the three threads did matters
  have hthreads (t u v w x : Thread) :
      (((((todos.map (⟨.outside, ·⟩)).set k t).set i u).set j v).set k w).set j x
        = (((todos.map (⟨.outside, ·⟩)).set k w).set i u).set j x := by
    rw [set_comm v w hjk, set_comm u w hik, set_set, set_set]
  cases mode with
  | read =>
    rw [step_unLockRead hholds, unLockRead]
    rw [notifyOne_of_waiting (hwaits _ _ _ _)]
    simp [crowded, taken, misled, setThread, leaveRead, hthreads]
  | write =>
    rw [step_unLockWrite hholds, unLockWrite]
    rw [notifyOne_of_waiting (hwaits _ _ _ _)]
    simp [crowded, taken, misled, setThread, leaveWrite, hthreads]

include h in
lemma Reachable.crowded
    (hij : i ≠ j) (hik : i ≠ k) (hjk : j ≠ k) (hi : todos[i]? = some (.write :: ti))
    (hj : todos[j]? = some (.write :: tj)) (hk : todos[k]? = some (mode :: tk)) :
    Reachable progs (crowded n todos i j k ti tj tk mode) := by
  have htaken := h.step (step_lock (getElem?_threads_quiet hk) 0)
  rw [lock_quiet] at htaken
  have hthreads : (taken n todos k tk mode).threads
      = (quiet n todos).threads.set k ⟨.holding mode, tk⟩ := by cases mode <;> rfl
  have hbusy : (taken n todos k tk mode).writer = true ∨ (taken n todos k tk mode).readers ≠ 0 := by
    cases mode <;> simp [taken]
  have hfirst := htaken.wait (i := i) (by
    rw [hthreads, getElem?_set_ne hik.symm, getElem?_threads_quiet hi]) hbusy
  have hsecond := hfirst.wait (i := j) (by
    rw [setThread_threads, getElem?_set_ne hij, threads_issue, hthreads,
      getElem?_set_ne hjk.symm, getElem?_threads_quiet hj]) hbusy
  convert hsecond using 1
  cases mode <;> rfl

end Alone

lemma exists_stuck {i j k : ℕ} (hij : i ≠ j) (hik : i ≠ k)
    (hjk : j ≠ k) {pi pj pk : List Mode} (hi : progs[i]? = some pi) (hj : progs[j]? = some pj)
    (hk : progs[k]? = some pk) (hpi : .write ∈ pi) (hpj : .write ∈ pj) (hpk : pk ≠ []) :
    ∃ s, Reachable progs s ∧ s.Stuck := by
  have hilt := lt_length hi
  have hjlt := lt_length hj
  have hklt := lt_length hk
  obtain ⟨di, ti, rfl⟩ := append_of_mem hpi
  obtain ⟨dj, tj, rfl⟩ := append_of_mem hpj
  obtain ⟨mode, tk, rfl⟩ := exists_cons_of_ne_nil hpk
  have hinit : Reachable progs (quiet 0 progs) := .init
  -- the two writers go up to their first `LockWrite`
  obtain ⟨n₁, h₁⟩ := hinit.passAll hi
  obtain ⟨n₂, h₂⟩ := h₁.passAll (i := j) (by rw [getElem?_set_ne hij, hj])
  have hcrowd := h₂.crowded hij hik hjk (i := i)
    (by rw [getElem?_set_ne hij.symm, getElem?_set_self hilt])
    (getElem?_set_self (by simpa using hjlt))
    (by rw [getElem?_set_ne hjk, getElem?_set_ne hik, hk])
  exact ⟨_, hcrowd.step (unLock_crowded hik hjk (by simpa using hjlt) (by simpa using hklt)),
    stuck_misled hij (by simpa using hilt)⟩

/-- **When the lock cannot get stuck**: exactly if at most one of the threads ever locks for
writing, or at most two threads use the lock. -/
theorem neverStuck_iff (progs : List (List Mode)) :
    (∀ s, Reachable progs s → ¬ s.Stuck) ↔
      (writers progs).card ≤ 1 ∨ (users progs).card ≤ 2 := by
  constructor
  · intro hnever
    by_contra hmany
    obtain ⟨hwriters, husers⟩ := not_or.mp hmany
    obtain ⟨i, hi, j, hj, hij⟩ := one_lt_card.mp (not_le.mp hwriters)
    -- a third thread
    obtain ⟨k, hk, hknot⟩ : ∃ k ∈ users progs, k ∉ ({i, j} : Finset ℕ) := by
      apply exists_mem_notMem_of_card_lt_card
      rw [card_pair hij]
      exact not_le.mp husers
    obtain ⟨-, pi, hpi, hwi⟩ := Finset.mem_filter.mp hi
    obtain ⟨-, pj, hpj, hwj⟩ := Finset.mem_filter.mp hj
    obtain ⟨-, pk, hpk, hne⟩ := Finset.mem_filter.mp hk
    have hki : i ≠ k := by
      rintro rfl
      simp at hknot
    have hkj : j ≠ k := by
      rintro rfl
      simp at hknot
    obtain ⟨s, hs, hstuck⟩ := exists_stuck hij hki hkj hpi hpj hpk hwi hwj hne
    exact hnever s hs hstuck
  · intro hfew s hs
    exact not_stuck (inv_of_reachable hs) (readersAwaitWriter_of_reachable hs)
      (handed_of_reachable hs hfew)

/-- A reader leaves while two writers wait, and `notify_one` wakes the second of them. -/
theorem stuck_of_twoWriters : ∃ s, Reachable [[.read], [.write], [.write]] s ∧ s.Stuck :=
  ⟨{ idCounter := 3
     writeRequests := [1, 2]
     threads := [⟨.outside, []⟩, ⟨.waiting .write 1, []⟩, ⟨.notified .write 2, []⟩] },
    reachable_of_run .init [(0, 0), (1, 0), (2, 0), (0, 2)] (by decide), by decide⟩

end Rvanns.Knowhere.FairRWLock
