import Rvanns.Knowhere.Equiv.SparseIndexNodeCC

/-!
# Deadlocks of the concurrent sparse node

No wake-up is lost: a thread that waits although its predicate holds will still be notified.
-/

namespace Rvanns.Knowhere.SparseInvertedIndexNodeCC

open Cpp List Multiset Option State Call

variable {ρ : Type}

/-! ### No wake-up is lost -/

def State.Ready (s : State ρ) : Pc ρ → Prop
  | .addWaiting t _ => s.addPredicate t = true
  | .readWaiting _ _ t => s.readPredicate t = true
  | _ => False

def NoLostWakeup (s : State ρ) : Prop :=
  ∀ (j : ℕ) (pc : Pc ρ), s.threads[j]? = some pc → s.Ready pc →
    ∃ k : ℕ, s.threads[k]? = some .addUnlocked

lemma not_ready_wake (s : State ρ) (pc : Pc ρ) : ¬ s.Ready pc.wake := by
  cases pc <;> exact id

lemma not_ready_start (s : State ρ) (call : Call ρ) : ¬ s.Ready call.start := by
  cases call <;> exact id

lemma noLostWakeup_init (calls : List (Call ρ)) : NoLostWakeup (init calls) := by
  intro j pc hj hready
  have hj' : (calls.map start)[j]? = some pc := hj
  rw [getElem?_map, map_eq_some_iff] at hj'
  obtain ⟨call, -, rfl⟩ := hj'
  exact absurd hready (not_ready_start _ call)

lemma noLostWakeup_notifyAll (s : State ρ) : NoLostWakeup s.notifyAll := by
  intro j pc hj hready
  obtain ⟨pc₀, -, rfl⟩ := exists_of_getElem?_map_wake hj
  exact absurd hready (not_ready_wake _ pc₀)

namespace NoLostWakeup

variable {s : State ρ} {i : ℕ}

lemma of_set (h : NoLostWakeup s) (s' : State ρ) (pc' : Pc ρ)
    (hi : s.threads[i]? = some pc) (hthreads : s'.threads = s.threads.set i pc')
    (hpc : pc = .addUnlocked → pc' = .addUnlocked) (hnew : ¬ s'.Ready pc')
    (hmono : ∀ q, s'.Ready q → s.Ready q) :
    NoLostWakeup s' := by
  intro j q hj hready
  rw [hthreads] at hj
  rcases eq_or_of_getElem?_set hj with ⟨-, rfl⟩ | ⟨-, hold⟩
  · exact absurd hready hnew
  · obtain ⟨k, hk⟩ := h j q hold (hmono q hready)
    refine ⟨k, ?_⟩
    rw [hthreads]
    by_cases hki : k = i
    · subst hki
      rw [getElem?_set_of_eq_some pc' hi, hpc (mem_unique hi hk)]
    · rw [getElem?_set_ne (fun heq => hki heq.symm)]
      exact hk

lemma readPredicate_of_issueAdd
    (h : (s.issueAdd i task).readPredicate t = true) : s.readPredicate t = true := by
  unfold readPredicate at h ⊢
  cases hw : s.addTasks with
  | nil => rfl
  | cons a rest => simpa [issueAdd, hw] using h

lemma action (h : NoLostWakeup s) (hs : Tickets s) (ha : Action i s s') : NoLostWakeup s' := by
  cases ha with
  | @issueAdd task hi _ =>
    apply h.of_set (s.issueAdd i task) (.addWoken s.nextTaskId task) hi rfl (by simp) id
    intro q hready
    cases q with
    | readWaiting => exact readPredicate_of_issueAdd hready
    | _ => exact hready
  | @startAdd t task hi _ _ =>
    apply h.of_set (s.startAdd i t task) (.adding t task.rows task) hi rfl (by simp) id
    exact fun _ => id
  | @waitAdd t task hi hpred =>
    apply h.of_set (s.setThread i (.addWaiting t task)) (.addWaiting t task) hi rfl (by simp)
    · intro hready
      exact Bool.false_ne_true (hpred.symm.trans hready)
    · exact fun _ => id
  | @addRow t row rest task hi =>
    apply h.of_set (s.addRow i t row rest task) (.adding t rest task) hi rfl (by simp) id
    exact fun _ => id
  | finishAdd hi =>
    -- The thread that finished has not notified yet.
    exact fun _ _ _ _ => ⟨i, getElem?_set_of_eq_some _ hi⟩
  | notify hi => exact noLostWakeup_notifyAll _
  | @issueRead held nested hi _ =>
    apply h.of_set (s.issueRead i held nested) (.readWoken held nested s.nextTaskId) hi rfl
      (by simp) id
    exact fun _ => id
  | @startRead held nested t hi _ _ =>
    apply h.of_set (s.startRead i held nested t) (.reading t held nested) hi rfl (by simp) id
    intro q hready
    cases q with
    | addWaiting u task =>
      -- One more reader: the predicate of an `Add` fails.
      have hpred : (s.startRead i held nested t).addPredicate u = true := hready
      have hreaders := hs.readers
      simp only [addPredicate, startRead, Bool.and_eq_true, beq_iff_eq] at hpred
      omega
    | _ => exact hready
  | @waitRead held nested t hi hpred =>
    apply h.of_set (s.setThread i (.readWaiting held nested t)) (.readWaiting held nested t) hi rfl
      (by simp)
    · intro hready
      exact Bool.false_ne_true (hpred.symm.trans hready)
    · exact fun _ => id
  | @nest t held hi =>
    apply h.of_set (s.setThread i (.acquire (t :: held) false)) (.acquire (t :: held) false) hi rfl
      (by simp) id
    exact fun _ => id
  | finishRead hi => exact noLostWakeup_notifyAll _
  | @wake pc hi =>
    apply h.of_set (s.setThread i pc.wake) pc.wake hi rfl (by rintro rfl; rfl) (not_ready_wake _ pc)
    exact fun _ => id

end NoLostWakeup

variable {calls : List (Call ρ)} {s : State ρ}

lemma noLostWakeup_of_reachable (h : Reachable calls s) : NoLostWakeup s := by
  have hboth : Tickets s ∧ NoLostWakeup s :=
    invariant_of_reachable (I := fun s => Tickets s ∧ NoLostWakeup s)
      ⟨tickets_init calls, noLostWakeup_init calls⟩ (fun _ hs => hs.1.lt_next)
      (fun _ _ _ hs ha => ⟨hs.1.action ha, hs.2.action hs.1 ha⟩) h
  exact hboth.2

/-! ### A state in which nobody can take a step -/

section Stuck

variable {s : State ρ} {j : ℕ} {pc : Pc ρ}

variable (hs : Tickets s)

include hs

lemma mutex_of_stuck (hstuck : ∀ i, s.step i = none) : s.mutex = false := by
  by_contra hm
  obtain ⟨i, t, rest, task, hi⟩ := hs.mutex (Bool.not_eq_false _ ▸ hm)
  have hnone := hstuck i
  unfold step at hnone
  rw [hi] at hnone
  cases rest <;> simp at hnone

lemma cases_of_stuck (hstuck : ∀ i, s.step i = none) (hj : s.threads[j]? = some pc) :
    pc = .done ∨ (∃ t task, pc = .addWaiting t task) ∨
      ∃ held nested t, pc = .readWaiting held nested t := by
  have hfree := mutex_of_stuck hs hstuck
  have hnone := hstuck j
  unfold step at hnone
  rw [hj, hfree] at hnone
  cases pc with
  | addWaiting t task => exact .inr (.inl ⟨t, task, rfl⟩)
  | readWaiting held nested t => exact .inr (.inr ⟨held, nested, t, rfl⟩)
  | done => exact .inl rfl
  | adding t rest task => cases rest <;> simp at hnone
  | reading t held nested => cases nested <;> simp at hnone
  | _ => simp at hnone

section

variable (hlost : NoLostWakeup s) (hstuck : ∀ i, s.step i = none)

include hlost hstuck

lemma not_ready_of_stuck (hj : s.threads[j]? = some pc) : ¬ s.Ready pc := by
  intro hready
  obtain ⟨k, hk⟩ := hlost j pc hj hready
  rcases cases_of_stuck hs hstuck hk with h | ⟨t, task, h⟩ | ⟨held, nested, t, h⟩ <;> cases h

lemma done_of_stuck (hempty : s.addTasks = []) (hj : s.threads[j]? = some pc) : pc = .done := by
  have hnot := not_ready_of_stuck hs hlost hstuck hj
  rcases cases_of_stuck hs hstuck hj with rfl | ⟨t, task, rfl⟩ | ⟨held, nested, t, rfl⟩
  · rfl
  · have hmem := hs.mem_addTasks hj (Multiset.mem_singleton_self t)
    rw [hempty] at hmem
    simp at hmem
  · apply absurd _ hnot
    show s.readPredicate t = true
    unfold readPredicate
    rw [hempty]
    rfl

/-- **A stuck `Add` waits for a reader.**  If nobody can take a step and some `Add` is queued, a
permission is held. -/
theorem active_ne_zero_of_stuck (hne : s.addTasks ≠ []) : s.queue.active ≠ 0 := by
  intro hactive
  obtain ⟨a, rest, hw⟩ := exists_cons_of_ne_nil hne
  have ha : a ∈ s.queue.writers.head? := by simp [queue, hw]
  -- Every reader that waits comes after the first `Add`.
  have hwait : ∀ t ∈ s.queue.waiting, a ≤ t := by
    intro t ht
    obtain ⟨k, q, hk, hq⟩ := mem_total.mp ht
    rcases cases_of_stuck hs hstuck hk with rfl | ⟨u, task, rfl⟩ | ⟨held, nested, u, rfl⟩
    · exact absurd hq (notMem_zero t)
    · exact absurd hq (notMem_zero t)
    · have hnot : ¬ s.readPredicate u = true := not_ready_of_stuck hs hlost hstuck hk
      rw [Multiset.mem_singleton.mp hq]
      by_contra hlt
      apply hnot
      unfold readPredicate
      rw [hw]
      exact decide_eq_true (by omega)
  obtain ⟨hcurrent, -⟩ := hs.queue.mayWrite_of_head ha hactive hwait
  -- So the predicate of that `Add` holds.
  have hmem : a ∈ total Pc.addTickets s.threads := by
    rw [hs.adds, hw]
    exact mem_coe.mpr mem_cons_self
  obtain ⟨k, q, hk, hq⟩ := mem_total.mp hmem
  rcases cases_of_stuck hs hstuck hk with rfl | ⟨u, task, rfl⟩ | ⟨held, nested, u, rfl⟩
  · exact absurd hq (notMem_zero a)
  · apply not_ready_of_stuck hs hlost hstuck hk
    obtain rfl : a = u := Multiset.mem_singleton.mp hq
    have hreaders : s.activeReaders = 0 := by
      rw [hs.readers, hactive]
      rfl
    have hcurrent' : s.currentTaskId = a := hcurrent
    show s.addPredicate a = true
    simp [addPredicate, hreaders, hcurrent']
  · exact absurd hq (notMem_zero a)

end

end Stuck

/-! ### Calls without nested permissions, and calls that add nothing -/

inductive Move : Pc ρ → Pc ρ → Prop
  | issueAdd (t : ℕ) (task : AddTask ρ) : Move (.addStart task) (.addWoken t task)
  | startAdd (t : ℕ) (task : AddTask ρ) : Move (.addWoken t task) (.adding t task.rows task)
  | waitAdd (t : ℕ) (task : AddTask ρ) : Move (.addWoken t task) (.addWaiting t task)
  | addRow (t : ℕ) (row : ρ) (rest : List ρ) (task : AddTask ρ) :
      Move (.adding t (row :: rest) task) (.adding t rest task)
  | finishAdd (t : ℕ) (task : AddTask ρ) : Move (.adding t [] task) .addUnlocked
  | notify : Move .addUnlocked .done
  | issueRead (held : List ℕ) (nested : Bool) (t : ℕ) :
      Move (.acquire held nested) (.readWoken held nested t)
  | startRead (held : List ℕ) (nested : Bool) (t : ℕ) :
      Move (.readWoken held nested t) (.reading t held nested)
  | waitRead (held : List ℕ) (nested : Bool) (t : ℕ) :
      Move (.readWoken held nested t) (.readWaiting held nested t)
  | nest (t : ℕ) (held : List ℕ) : Move (.reading t held true) (.acquire (t :: held) false)
  | finishRead (t : ℕ) (held : List ℕ) : Move (.reading t held false) (State.afterRead held)

lemma threads_of_action (ha : Action i s s') :
    ∃ pc pc', s.threads[i]? = some pc ∧ (Move pc pc' ∨ pc' = pc.wake) ∧
      (s'.threads = s.threads.set i pc' ∨ s'.threads = (s.threads.set i pc').map Pc.wake) := by
  cases ha with
  | issueAdd hi _ => exact ⟨_, _, hi, .inl (.issueAdd _ _), .inl rfl⟩
  | startAdd hi _ _ => exact ⟨_, _, hi, .inl (.startAdd _ _), .inl rfl⟩
  | waitAdd hi _ => exact ⟨_, _, hi, .inl (.waitAdd _ _), .inl rfl⟩
  | addRow hi => exact ⟨_, _, hi, .inl (.addRow _ _ _ _), .inl rfl⟩
  | finishAdd hi => exact ⟨_, _, hi, .inl (.finishAdd _ _), .inl rfl⟩
  | notify hi => exact ⟨_, _, hi, .inl .notify, .inr rfl⟩
  | issueRead hi _ => exact ⟨_, _, hi, .inl (.issueRead _ _ _), .inl rfl⟩
  | startRead hi _ _ => exact ⟨_, _, hi, .inl (.startRead _ _ _), .inl rfl⟩
  | waitRead hi _ => exact ⟨_, _, hi, .inl (.waitRead _ _ _), .inl rfl⟩
  | nest hi => exact ⟨_, _, hi, .inl (.nest _ _), .inl rfl⟩
  | finishRead hi => exact ⟨_, _, hi, .inl (.finishRead _ _), .inr rfl⟩
  | wake hi => exact ⟨_, _, hi, .inr rfl, .inl rfl⟩

lemma forall_threads_of_reachable {P : Pc ρ → Prop}
    (hstart : ∀ call ∈ calls, P call.start) (hwake : ∀ pc, P pc → P pc.wake)
    (hmove : ∀ pc pc', Move pc pc' → P pc → P pc') (h : Reachable calls s) :
    ∀ pc ∈ s.threads, P pc := by
  have hboth : Tickets s ∧ ∀ pc ∈ s.threads, P pc := by
    refine invariant_of_reachable (I := fun s => Tickets s ∧ ∀ pc ∈ s.threads, P pc)
      ⟨tickets_init calls, forall_mem_map.mpr hstart⟩ (fun _ hs => hs.1.lt_next) ?_ h
    intro i s s' hs ha
    refine ⟨hs.1.action ha, ?_⟩
    obtain ⟨pc, pc', hi, hpc, hthreads⟩ := threads_of_action ha
    have hold := hs.2 pc (mem_of_getElem? hi)
    have hpc' : P pc' := by
      rcases hpc with hmv | rfl
      · exact hmove pc pc' hmv hold
      · exact hwake pc hold
    have hset : ∀ q ∈ s.threads.set i pc', P q := by
      intro q hq
      rcases mem_or_eq_of_mem_set hq with hq | rfl
      · exact hs.2 q hq
      · exact hpc'
    rcases hthreads with heq | heq
    · exact heq ▸ hset
    · exact heq ▸ forall_mem_map.mpr fun q hq => hwake q (hset q hq)
  exact hboth.2

def Pc.Flat : Pc ρ → Prop
  | .acquire held nested | .readWaiting held nested _ | .readWoken held nested _
  | .reading _ held nested => held = [] ∧ nested = false
  | _ => True

def Pc.Reads (pc : Pc ρ) : Prop :=
  pc.pending = none ∧ ∀ task, pc ≠ .addStart task

lemma flat_of_reachable (hcalls : ∀ k, rangeSearch k ∈ calls → k = 0) (h : Reachable calls s) :
    ∀ pc ∈ s.threads, pc.Flat := by
  refine forall_threads_of_reachable (P := Pc.Flat) ?_ ?_ ?_ h
  · intro call hcall
    cases call with
    | add task => trivial
    | rangeSearch k =>
      rw [hcalls k hcall]
      exact ⟨rfl, rfl⟩
    | _ => exact ⟨rfl, rfl⟩
  · intro pc hpc
    cases pc <;> exact hpc
  · intro pc pc' hmv hpc
    cases hmv with
    | issueRead | startRead | waitRead => exact hpc
    | nest => exact absurd hpc.2 (by simp)
    | finishRead t held =>
      rw [hpc.1]
      trivial
    | _ => trivial

lemma reads_of_reachable (hcalls : ∀ task, add task ∉ calls) (h : Reachable calls s) :
    ∀ pc ∈ s.threads, pc.Reads := by
  refine forall_threads_of_reachable (P := Pc.Reads) ?_ ?_ ?_ h
  · intro call hcall
    cases call with
    | add task => exact absurd hcall (hcalls task)
    | _ => exact ⟨rfl, by simp [start]⟩
  · intro pc hpc
    refine ⟨(Pc.pending_wake pc).trans hpc.1, fun task heq => ?_⟩
    apply hpc.2 task
    cases pc <;> first | exact heq | cases heq
  · intro pc pc' hmv hpc
    cases hmv with
    | issueAdd t task => exact absurd rfl (hpc.2 task)
    | startAdd | waitAdd | addRow | finishAdd => exact absurd hpc.1 (by simp [Pc.pending])
    | finishRead t held =>
      refine ⟨Pc.pending_afterRead held, fun task => ?_⟩
      cases held <;> simp [afterRead]
    | _ => exact ⟨rfl, by simp⟩

lemma not_deadlock_of_reachable (h : Reachable calls s)
    (hcalls : (∀ k, rangeSearch k ∈ calls → k = 0) ∨ ∀ task, add task ∉ calls) :
    ¬ Deadlock s := by
  rintro ⟨⟨j, pc, hj, hpc⟩, hstuck⟩
  have hs := tickets_of_reachable h
  have hlost := noLostWakeup_of_reachable h
  have hne : s.addTasks ≠ [] := fun hempty => hpc (done_of_stuck hs hlost hstuck hempty hj)
  rcases hcalls with hflat | hreads
  · apply active_ne_zero_of_stuck hs hlost hstuck hne
    apply eq_zero_of_forall_notMem
    intro t ht
    obtain ⟨k, q, hk, hq⟩ := mem_total.mp ht
    have hqflat := flat_of_reachable hflat h q (mem_of_getElem? hk)
    -- Who waits holds nothing.
    rcases cases_of_stuck hs hstuck hk with rfl | ⟨u, task, rfl⟩ | ⟨held, nested, u, rfl⟩
    · exact notMem_zero t hq
    · exact notMem_zero t hq
    · have hheld : held = [] := hqflat.1
      rw [hheld] at hq
      exact notMem_zero t hq
  · obtain ⟨a, rest, hw⟩ := exists_cons_of_ne_nil hne
    have hmem : a ∈ total Pc.addTickets s.threads := by
      rw [hs.adds, hw]
      exact mem_coe.mpr mem_cons_self
    obtain ⟨k, q, hk, hq⟩ := mem_total.mp hmem
    rw [Pc.addTickets, (reads_of_reachable hreads h q (mem_of_getElem? hk)).1] at hq
    exact notMem_zero a hq

/-! ### The deadlock of a nested permission -/

def Pc.startable : Pc ρ → Bool
  | .addStart _ | .acquire _ _ => true
  | _ => false

def Pc.waits : Pc ρ → Bool
  | .addWaiting _ _ | .readWaiting _ _ _ => true
  | _ => false

structure Jam (s : State ρ) : Prop where
  mutex : s.mutex = false
  front : s.addTasks.head? = some 1
  next : 1 < s.nextTaskId
  readers : s.activeReaders = 1
  current : s.currentTaskId = 0
  threads : ∀ pc ∈ s.threads, pc.startable = true ∨ pc.waits = true

namespace Jam

variable {s : State ρ} {i : ℕ}

lemma set (h : Jam s) (s' : State ρ) (pc : Pc ρ) (hpc : pc.waits = true)
    (hthreads : s'.threads = s.threads.set i pc) (hmutex : s'.mutex = false)
    (hfront : s'.addTasks.head? = some 1) (hnext : 1 < s'.nextTaskId)
    (hreaders : s'.activeReaders = 1) (hcurrent : s'.currentTaskId = 0) : Jam s' where
  mutex := hmutex
  front := hfront
  next := hnext
  readers := hreaders
  current := hcurrent
  threads := by
    intro q hq
    rw [hthreads] at hq
    rcases mem_or_eq_of_mem_set hq with hq | rfl
    · exact h.threads q hq
    · exact .inr hpc

lemma step_addStart (h : Jam s) (hi : s.threads[i]? = some (.addStart task)) :
    ∃ s', s.step i = some s' ∧ Jam s' ∧
      s'.threads = s.threads.set i (.addWaiting s.nextTaskId task) := by
  have hpred : (s.issueAdd i task).addPredicate s.nextTaskId = false := by
    simp [addPredicate, issueAdd, h.readers]
  have hstep : s.step i =
      some ((s.issueAdd i task).setThread i (.addWaiting s.nextTaskId task)) := by
    unfold step
    rw [hi, h.mutex]
    simp [testAdd, hpred]
  have hthreads : ((s.issueAdd i task).setThread i (.addWaiting s.nextTaskId task)).threads =
      s.threads.set i (.addWaiting s.nextTaskId task) := set_set _
  have hfront : (s.addTasks ++ [s.nextTaskId]).head? = some 1 := by
    rw [head?_append, h.front]
    rfl
  refine ⟨_, hstep, ?_, hthreads⟩
  exact h.set _ _ rfl hthreads h.mutex hfront (Nat.lt_succ_of_lt h.next) h.readers h.current

lemma step_acquire (h : Jam s) (hi : s.threads[i]? = some (.acquire held nested)) :
    ∃ s', s.step i = some s' ∧ Jam s' ∧
      s'.threads = s.threads.set i (.readWaiting held nested s.nextTaskId) := by
  have hlt := h.next
  have hbehind : (s.issueRead i held nested).addTasks.head?.any (fun front => front < s.nextTaskId)
      = true := by
    show s.addTasks.head?.any _ = true
    simp [h.front, hlt]
  have hpred : (s.issueRead i held nested).readPredicate s.nextTaskId = false := by
    simp [readPredicate, issueRead, h.front]
    omega
  have hstep : s.step i =
      some ((s.issueRead i held nested).setThread i (.readWaiting held nested s.nextTaskId)) := by
    unfold step
    rw [hi, h.mutex]
    simp [enterRead, hbehind, testRead, hpred]
  have hthreads :
      ((s.issueRead i held nested).setThread i (.readWaiting held nested s.nextTaskId)).threads =
        s.threads.set i (.readWaiting held nested s.nextTaskId) := set_set _
  refine ⟨_, hstep, ?_, hthreads⟩
  exact h.set _ _ rfl hthreads h.mutex h.front (Nat.lt_succ_of_lt h.next) h.readers h.current

lemma step_startable (h : Jam s) (hi : s.threads[i]? = some pc) (hpc : pc.startable = true) :
    ∃ s' pc', s.step i = some s' ∧ Jam s' ∧ pc'.startable = false ∧
      s'.threads = s.threads.set i pc' := by
  cases pc with
  | addStart task =>
    obtain ⟨s', hstep, hjam, hthreads⟩ := h.step_addStart hi
    exact ⟨s', _, hstep, hjam, rfl, hthreads⟩
  | acquire held nested =>
    obtain ⟨s', hstep, hjam, hthreads⟩ := h.step_acquire hi
    exact ⟨s', _, hstep, hjam, rfl, hthreads⟩
  | _ => cases hpc

lemma deadlock (h : Jam s) (hne : s.threads ≠ [])
    (hall : ∀ pc ∈ s.threads, ¬ pc.startable = true) : Deadlock s := by
  have hwaits : ∀ pc ∈ s.threads, pc.waits = true := fun pc hpc =>
    (h.threads pc hpc).resolve_left (hall pc hpc)
  constructor
  · obtain ⟨pc, rest, hthreads⟩ := exists_cons_of_ne_nil hne
    have h0 : s.threads[0]? = some pc := by rw [hthreads]; rfl
    refine ⟨0, pc, h0, ?_⟩
    rintro rfl
    exact Bool.false_ne_true (hwaits _ (mem_of_getElem? h0))
  · intro i
    unfold step
    cases hi : s.threads[i]? with
    | none => rfl
    | some pc =>
      have hpc := hwaits pc (mem_of_getElem? hi)
      cases pc with
      | addWaiting => rfl
      | readWaiting => rfl
      | _ => cases hpc

lemma reaches_deadlock {s : State ρ} (hcount : s.threads.countP Pc.startable = n)
    (hreach : Reachable calls s) (hjam : Jam s) (hne : s.threads ≠ []) :
    ∃ s', Reachable calls s' ∧ Deadlock s' := by
  induction n generalizing s with
  | zero =>
    exact ⟨s, hreach, hjam.deadlock hne (countP_eq_zero.mp hcount)⟩
  | succ n ih =>
    obtain ⟨pc, hmem, hpc⟩ := countP_pos_iff.mp (by omega : 0 < s.threads.countP Pc.startable)
    obtain ⟨i, hi⟩ := mem_iff_getElem?.mp hmem
    obtain ⟨s', pc', hstep, hjam', hpc', hthreads⟩ := hjam.step_startable hi hpc
    apply ih _ (.step hreach hstep) hjam'
    · rw [hthreads]
      intro hnil
      exact hne (length_eq_zero_iff.mp (by rw [← length_set, hnil]; rfl))
    · obtain ⟨hlt, hget⟩ := List.getElem?_eq_some_iff.mp hi
      rw [hthreads, countP_set hlt, hget, hpc, hpc', hcount]
      rfl

end Jam

lemma startable_start (call : Call ρ) : call.start.startable = true := by
  cases call <;> rfl

lemma exists_jam (hk : k ≠ 0) (hsearch : rangeSearch k ∈ calls) (hadd : add task ∈ calls) :
    ∃ s, Reachable calls s ∧ Jam s ∧ s.threads ≠ [] := by
  obtain ⟨i, hi⟩ := mem_iff_getElem?.mp hsearch
  obtain ⟨j, hj⟩ := mem_iff_getElem?.mp hadd
  have hij : i ≠ j := by
    rintro rfl
    exact absurd (hi.symm.trans hj) (by simp)
  set threads := calls.map start with hthreads
  have hi₀ : threads[i]? = some (.acquire [] true) := by simp [hthreads, hi, start, hk]
  have hj₀ : threads[j]? = some (.addStart task) := by simp [hthreads, hj, start]
  -- the search reads, the `Add` waits for it, and the search asks to read once more
  let s₁ : State ρ :=
    { nextTaskId := 1, activeReaders := 1, starts := [(0, false)],
      threads := threads.set i (.reading 0 [] true) }
  have hstep₁ : (init calls).step i = some s₁ := by
    unfold step
    rw [show (init calls).threads[i]? = some (.acquire [] true) from hi₀]
    show some (startRead _ i [] true 0) = some s₁
    simp [startRead, issueRead, init, s₁, hthreads]
  have hj₁ : s₁.threads[j]? = some (.addStart task) := by rw [getElem?_set_ne hij, hj₀]
  let s₂ : State ρ :=
    { s₁ with
      nextTaskId := 2, addTasks := [1], log := [(1, task)],
      threads := s₁.threads.set j (.addWaiting 1 task) }
  have hstep₂ : s₁.step j = some s₂ := by
    unfold step
    rw [hj₁]
    show some (setThread _ j (.addWaiting 1 task)) = some s₂
    simp [setThread, issueAdd, s₁, s₂]
  have hi₂ : s₂.threads[i]? = some (.reading 0 [] true) := by
    rw [getElem?_set_ne hij.symm]
    exact getElem?_set_of_eq_some _ hi₀
  have hstep₃ : s₂.step i = some (s₂.setThread i (.acquire [0] false)) := by
    unfold step
    rw [hi₂]
  refine ⟨_, .step (.step (.step .init hstep₁) hstep₂) hstep₃, ?_, ?_⟩
  · refine ⟨rfl, rfl, (by decide : 1 < 2), rfl, rfl, fun pc hpc => ?_⟩
    obtain ⟨l, hl⟩ := mem_iff_getElem?.mp hpc
    rcases eq_or_of_getElem?_set hl with ⟨-, rfl⟩ | ⟨hne, hl⟩
    · exact .inl rfl
    rcases eq_or_of_getElem?_set hl with ⟨-, rfl⟩ | ⟨-, hl⟩
    · exact .inr rfl
    rcases eq_or_of_getElem?_set hl with ⟨heq, -⟩ | ⟨-, hl⟩
    · exact absurd heq hne
    · rw [getElem?_map, map_eq_some_iff] at hl
      obtain ⟨call, -, rfl⟩ := hl
      exact .inl (startable_start call)
  · intro hnil
    have hi₃ := getElem?_set_of_eq_some (.acquire [0] false) hi₂
    rw [show s₂.threads.set i (.acquire [0] false) = [] from hnil] at hi₃
    simp at hi₃

/-- **When the node cannot deadlock.**  No interleaving of the calls reaches a deadlock exactly when
no `RangeSearch` calls `AnnIterator`, which one with `range_search_k == 0` does not, or there is no
`Add`. -/
theorem no_deadlock_iff (calls : List (Call ρ)) :
    (∀ s, Reachable calls s → ¬ Deadlock s) ↔
      (∀ k, Call.rangeSearch k ∈ calls → k = 0) ∨ ∀ task, Call.add task ∉ calls := by
  constructor
  · intro hfree
    by_contra hnot
    rw [not_or] at hnot
    obtain ⟨hsearch, hadd⟩ := hnot
    push Not at hsearch hadd
    obtain ⟨k, hk, hne⟩ := hsearch
    obtain ⟨task, htask⟩ := hadd
    obtain ⟨s, hreach, hjam, hthreads⟩ := exists_jam hne hk htask
    obtain ⟨s', hreach', hdead⟩ := hjam.reaches_deadlock rfl hreach hthreads
    exact hfree s' hreach' hdead
  · exact fun hcalls s hreach => not_deadlock_of_reachable hreach hcalls

/-- One `RangeSearch` and one `Add` deadlock: the `RangeSearch` holds ticket 0 and waits with ticket
2 for the `Add`, which waits with ticket 1 for the `RangeSearch`. -/
theorem rangeSearch_add_deadlock : ∃ s : State ℕ,
    Reachable [.rangeSearch (-1), .add ⟨[7], true⟩] s ∧ Deadlock s := by
  let s : State ℕ :=
    { nextTaskId := 3, activeReaders := 1, addTasks := [1],
      threads := [.readWaiting [0] false 2, .addWaiting 1 ⟨[7], true⟩],
      log := [(1, ⟨[7], true⟩)], starts := [(0, false)] }
  have hrun : (init [.rangeSearch (-1), .add ⟨[7], true⟩]).run [0, 1, 0, 0] = some s := by decide
  refine ⟨s, reachable_of_run .init hrun, ⟨0, _, rfl, by decide⟩, fun i => ?_⟩
  match i with
  | 0 => rfl
  | 1 => rfl
  | i + 2 => rfl

end Rvanns.Knowhere.SparseInvertedIndexNodeCC
