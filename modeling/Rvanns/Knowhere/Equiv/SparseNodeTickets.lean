import Rvanns.Cpp.TicketQueue
import Rvanns.Knowhere.SparseIndexNodeCC

/-!
# The tickets of the concurrent sparse node

The threads' tickets form a `TicketQueue`.
-/

namespace Rvanns.Knowhere.SparseInvertedIndexNodeCC

open Cpp Option Multiset TicketQueue

variable {ρ : Type}

/-! ### The tickets of a thread -/

namespace Pc

/-- The `Add` that a thread has a ticket for, with the rows that are left once it runs. -/
def pending : Pc ρ → Option (ℕ × AddTask ρ × Option (List ρ))
  | .addWaiting t task | .addWoken t task => some (t, task, none)
  | .adding t rest task => some (t, task, some rest)
  | _ => none

def addTickets (pc : Pc ρ) : Multiset ℕ := pc.pending.elim 0 fun e => {e.1}

def queued : Pc ρ → Multiset ℕ
  | .readWaiting _ _ t | .readWoken _ _ t => {t}
  | _ => 0

def permissions : Pc ρ → Multiset ℕ
  | .acquire held _ | .readWaiting held _ _ | .readWoken held _ _ => held
  | .reading t held _ => t ::ₘ held
  | _ => 0

@[simp] lemma pending_wake (pc : Pc ρ) : pc.wake.pending = pc.pending := by
  cases pc <;> rfl

@[simp] lemma queued_wake (pc : Pc ρ) : pc.wake.queued = pc.queued := by
  cases pc <;> rfl

@[simp] lemma permissions_wake (pc : Pc ρ) : pc.wake.permissions = pc.permissions := by
  cases pc <;> rfl

@[simp] lemma permissions_afterRead (held : List ℕ) :
    (State.afterRead held : Pc ρ).permissions = held := by
  cases held <;> rfl

@[simp] lemma queued_afterRead (held : List ℕ) : (State.afterRead held : Pc ρ).queued = 0 := by
  cases held <;> rfl

@[simp] lemma pending_afterRead (held : List ℕ) :
    (State.afterRead held : Pc ρ).pending = none := by
  cases held <;> rfl

lemma eq_adding {pc : Pc ρ} (h : pc.pending = some (t, task, some rest)) :
    pc = .adding t rest task := by
  cases pc <;> simp_all [pending]

end Pc

variable (f : Pc ρ → Multiset ℕ)

def total (threads : List (Pc ρ)) : Multiset ℕ := (threads.map f).sum

lemma exists_total_set (hi : threads[i]? = some pc) :
    ∃ rest, total f threads = f pc + rest ∧ ∀ pc', total f (threads.set i pc') = f pc' + rest := by
  obtain ⟨hlt, rfl⟩ := getElem_of_getElem? hi
  have hset : ∀ pc', total f (threads.set i pc') = f pc'
      + (((threads.map f).take i).sum + ((threads.map f).drop (i + 1)).sum) := by
    intro pc'
    rw [total, List.map_set, List.sum_set, if_pos (by simpa using hlt), add_right_comm,
      add_comm]
  refine ⟨_, ?_, hset⟩
  rw [← hset, List.set_getElem_self]

lemma total_set_of_eq (pc' : Pc ρ) (hi : threads[i]? = some pc) (hf : f pc' = f pc) :
    total f (threads.set i pc') = total f threads := by
  obtain ⟨rest, hrest, hset⟩ := exists_total_set f hi
  rw [hset, hrest, hf]

lemma total_map_wake (hf : ∀ pc, f (Pc.wake pc) = f pc)
    (threads : List (Pc ρ)) : total f (threads.map Pc.wake) = total f threads := by
  unfold total
  rw [List.map_map]
  congr 1
  exact List.map_congr_left fun pc _ => hf pc

lemma mem_total {f : Pc ρ → Multiset ℕ} :
    t ∈ total f threads ↔ ∃ (i : ℕ) (pc : Pc ρ), threads[i]? = some pc ∧ t ∈ f pc := by
  induction threads with
  | nil => simp [total]
  | cons p threads ih =>
    show t ∈ f p + total f threads ↔ _
    rw [mem_add, ih]
    constructor
    · rintro (hp | ⟨i, pc, hi, hpc⟩)
      · exact ⟨0, p, rfl, hp⟩
      · exact ⟨i + 1, pc, by simpa using hi, hpc⟩
    · rintro ⟨i, pc, hi, hpc⟩
      cases i with
      | zero =>
        have : p = pc := by simpa using hi
        exact .inl (this ▸ hpc)
      | succ i => exact .inr ⟨i, pc, by simpa using hi, hpc⟩

/-! ### The queue of a state -/

def State.queue (s : State ρ) : TicketQueue where
  next := s.nextTaskId
  finished := s.currentTaskId
  writers := s.addTasks
  waiting := total Pc.queued s.threads
  active := total Pc.permissions s.threads
  writing := s.mutex
  starts := s.starts

inductive Action (i : ℕ) (s : State ρ) : State ρ → Prop
  | issueAdd (hi : s.threads[i]? = some (.addStart task)) (hfree : s.mutex = false) :
      Action i s (s.issueAdd i task)
  | startAdd (hi : s.threads[i]? = some (.addWoken t task)) (hfree : s.mutex = false)
      (hpred : s.addPredicate t = true) : Action i s (s.startAdd i t task)
  | waitAdd (hi : s.threads[i]? = some (.addWoken t task)) (hpred : s.addPredicate t = false) :
      Action i s (s.setThread i (.addWaiting t task))
  | addRow (hi : s.threads[i]? = some (.adding t (row :: rest) task)) :
      Action i s (s.addRow i t row rest task)
  | finishAdd (hi : s.threads[i]? = some (.adding t [] task)) : Action i s (s.finishAdd i task)
  | notify (hi : s.threads[i]? = some .addUnlocked) : Action i s (s.setThread i .done).notifyAll
  | issueRead (hi : s.threads[i]? = some (.acquire held nested)) (hfree : s.mutex = false) :
      Action i s (s.issueRead i held nested)
  | startRead (hi : s.threads[i]? = some (.readWoken held nested t)) (hfree : s.mutex = false)
      (hpred : s.readPredicate t = true) : Action i s (s.startRead i held nested t)
  | waitRead (hi : s.threads[i]? = some (.readWoken held nested t))
      (hpred : s.readPredicate t = false) : Action i s (s.setThread i (.readWaiting held nested t))
  | nest (hi : s.threads[i]? = some (.reading t held true)) :
      Action i s (s.setThread i (.acquire (t :: held) false))
  | finishRead (hi : s.threads[i]? = some (.reading t held false)) :
      Action i s (s.finishRead i held)
  | wake (hi : s.threads[i]? = some pc) : Action i s (s.setThread i pc.wake)

/-! ### Every step is one or two actions -/

section Threads

variable {threads : List (Pc ρ)} {j : ℕ} {pc : Pc ρ}

lemma exists_of_getElem?_map_wake (hj : (threads.map Pc.wake)[j]? = some pc) :
    ∃ pc₀, threads[j]? = some pc₀ ∧ pc₀.wake = pc := by
  rw [List.getElem?_map] at hj
  exact map_eq_some_iff.mp hj

end Threads

lemma action_testAdd (hi : s.threads[i]? = some (.addWoken t task)) (hfree : s.mutex = false) :
    Action i s (s.testAdd i t task) := by
  unfold State.testAdd
  split_ifs with hpred
  · exact .startAdd hi hfree hpred
  · exact .waitAdd hi (Bool.eq_false_iff.mpr hpred)

lemma action_testRead
    (hi : s.threads[i]? = some (.readWoken held nested t)) (hfree : s.mutex = false) :
    Action i s (s.testRead i held nested t) := by
  unfold State.testRead
  split_ifs with hpred
  · exact .startRead hi hfree hpred
  · exact .waitRead hi (Bool.eq_false_iff.mpr hpred)

lemma action_enterRead {s : State ρ}
    (hi : s.threads[i]? = some (.readWoken held nested t)) (hfree : s.mutex = false)
    (hne : ∀ a ∈ s.addTasks, a ≠ t) : Action i s (s.enterRead i held nested t) := by
  unfold State.enterRead
  split_ifs with hfront
  · exact action_testRead hi hfree
  · apply Action.startRead hi hfree
    unfold State.readPredicate
    cases hw : s.addTasks with
    | nil => rfl
    | cons a rest =>
      have hat : a ≠ t := hne a (by simp [hw])
      have hnot : ¬ a < t := by simpa [hw] using hfront
      exact decide_eq_true (by omega)

lemma actions_of_step {s s' : State ρ} (h : s.step i = some s')
    (hlt : ∀ a ∈ s.addTasks, a < s.nextTaskId) :
    ∃ s₁, (s₁ = s ∨ Action i s s₁ ∧ s₁.mutex = false) ∧ Action i s₁ s' := by
  unfold State.step at h
  split at h
  case h_1 task hi =>
    split_ifs at h with hm
    have hfree := Bool.eq_false_iff.mpr hm
    have hi' := getElem?_set_of_eq_some (.addWoken s.nextTaskId task) hi
    cases h
    exact ⟨_, .inr ⟨.issueAdd hi hfree, hfree⟩, action_testAdd hi' hfree⟩
  case h_2 t task hi =>
    split_ifs at h with hm
    cases h
    exact ⟨s, .inl rfl, action_testAdd hi (Bool.eq_false_iff.mpr hm)⟩
  case h_3 t row rest task hi =>
    cases h
    exact ⟨s, .inl rfl, .addRow hi⟩
  case h_4 t task hi =>
    cases h
    exact ⟨s, .inl rfl, .finishAdd hi⟩
  case h_5 hi =>
    cases h
    exact ⟨s, .inl rfl, .notify hi⟩
  case h_6 held nested hi =>
    split_ifs at h with hm
    have hfree := Bool.eq_false_iff.mpr hm
    have hi' := getElem?_set_of_eq_some (.readWoken held nested s.nextTaskId) hi
    cases h
    exact ⟨_, .inr ⟨.issueRead hi hfree, hfree⟩,
      action_enterRead hi' hfree fun a ha => (hlt a ha).ne⟩
  case h_7 held nested t hi =>
    split_ifs at h with hm
    cases h
    exact ⟨s, .inl rfl, action_testRead hi (Bool.eq_false_iff.mpr hm)⟩
  case h_8 t held hi =>
    cases h
    exact ⟨s, .inl rfl, .nest hi⟩
  case h_9 t held hi =>
    split_ifs at h with hm
    cases h
    exact ⟨s, .inl rfl, .finishRead hi⟩
  all_goals simp at h

lemma invariant_of_reachable {I : State ρ → Prop}
    (hinit : I (init calls)) (hlt : ∀ s, I s → ∀ a ∈ s.addTasks, a < s.nextTaskId)
    (haction : ∀ i s s', I s → Action i s s' → I s') {s : State ρ} (h : Reachable calls s) :
    I s := by
  induction h with
  | init => exact hinit
  | @step s s' i _ hstep ih =>
    obtain ⟨s₁, hfirst, hsecond⟩ := actions_of_step hstep (hlt s ih)
    have h₁ : I s₁ := by
      rcases hfirst with rfl | ⟨hfirst, -⟩
      · exact ih
      · exact haction i s s₁ ih hfirst
    exact haction i s₁ s' h₁ hsecond
  | @wakeUp s i _ ih =>
    unfold State.wakeUp
    split
    case h_1 pc hi => exact haction i s _ ih (.wake hi)
    case h_2 => exact ih

lemma reachable_of_run (h : Reachable calls s)
    (hrun : s.run schedule = some s') : Reachable calls s' := by
  induction schedule generalizing s with
  | nil => exact some.inj hrun ▸ h
  | cons i schedule ih =>
    obtain ⟨s₁, hstep, hrest⟩ := bind_eq_some_iff.mp hrun
    exact ih (.step h hstep) hrest

/-! ### The actions on the queue -/

section Queue

variable {s s' : State ρ} {i t : ℕ} {held : List ℕ} {nested : Bool} {task : AddTask ρ}
  {pc pc' : Pc ρ}

lemma queue_set (hset : s'.threads = s.threads.set i pc') (hi : s.threads[i]? = some pc)
    (hq : pc'.queued = pc.queued) (hp : pc'.permissions = pc.permissions) :
    s'.queue = { s'.queue with waiting := s.queue.waiting, active := s.queue.active } := by
  unfold State.queue
  rw [hset, total_set_of_eq _ pc' hi hq, total_set_of_eq _ pc' hi hp]

lemma queue_setThread (hi : s.threads[i]? = some pc) (hq : pc'.queued = pc.queued)
    (hp : pc'.permissions = pc.permissions) : (s.setThread i pc').queue = s.queue :=
  queue_set rfl hi hq hp

lemma queue_notifyAll (s : State ρ) : s.notifyAll.queue = s.queue := by
  unfold State.queue State.notifyAll
  rw [total_map_wake _ Pc.queued_wake, total_map_wake _ Pc.permissions_wake]

lemma queue_issueAdd (hi : s.threads[i]? = some (.addStart task)) :
    (s.issueAdd i task).queue = s.queue.issueWriter := queue_set rfl hi rfl rfl

lemma queue_startAdd (hi : s.threads[i]? = some (.addWoken t task)) :
    (s.startAdd i t task).queue = s.queue.startWriter t := queue_set rfl hi rfl rfl

lemma queue_addRow (hi : s.threads[i]? = some (.adding t (row :: rest) task)) :
    (s.addRow i t row rest task).queue = s.queue := queue_set rfl hi rfl rfl

lemma queue_finishAdd (hi : s.threads[i]? = some (.adding t [] task)) :
    (s.finishAdd i task).queue = s.queue.finishWriter := queue_set rfl hi rfl rfl

lemma queue_issueRead (hi : s.threads[i]? = some (.acquire held nested)) :
    (s.issueRead i held nested).queue = s.queue.issueReader := by
  obtain ⟨rest, hrest, hset⟩ := exists_total_set Pc.queued hi
  have hqueued : total Pc.queued s.threads = rest := by simpa [Pc.queued] using hrest
  unfold State.queue State.issueRead issueReader
  rw [total_set_of_eq Pc.permissions (.readWoken held nested s.nextTaskId) hi rfl, hset, hqueued]
  rfl

lemma queue_startRead (hi : s.threads[i]? = some (.readWoken held nested t)) :
    (s.startRead i held nested t).queue = s.queue.startReader t := by
  obtain ⟨rest, hrest, hset⟩ := exists_total_set Pc.queued hi
  obtain ⟨rest', hrest', hset'⟩ := exists_total_set Pc.permissions hi
  have hqueued : (total Pc.queued s.threads).erase t = rest := by
    rw [hrest]
    exact erase_cons_head t rest
  have hheld : total Pc.permissions (s.threads.set i (.reading t held nested)) =
      t ::ₘ total Pc.permissions s.threads := by
    rw [hset', hrest']
    exact cons_add t (held : Multiset ℕ) rest'
  unfold State.queue State.startRead startReader
  rw [hset, hheld, hqueued, show Pc.queued (.reading t held nested : Pc ρ) = 0 from rfl, zero_add]

lemma queue_finishRead (hi : s.threads[i]? = some (.reading t held false)) :
    (s.finishRead i held).queue = s.queue.finishReader t := by
  obtain ⟨rest', hrest', hset'⟩ := exists_total_set Pc.permissions hi
  have hheld : total Pc.permissions (s.threads.set i (State.afterRead held)) =
      (total Pc.permissions s.threads).erase t := by
    rw [hset', hrest', Pc.permissions_afterRead]
    show (held : Multiset ℕ) + rest' = (t ::ₘ (held : Multiset ℕ) + rest').erase t
    rw [cons_add, erase_cons_head]
  unfold State.finishRead
  rw [queue_notifyAll]
  unfold State.queue finishReader
  rw [total_set_of_eq Pc.queued (State.afterRead held) hi (Pc.queued_afterRead held), hheld]

end Queue

/-! ### The threads that change the index -/

section Adding

variable {threads : List (Pc ρ)} {i j t : ℕ} {rest : List ρ} {task : AddTask ρ} {pc pc' : Pc ρ}

lemma map_pending_set (hi : threads[i]? = some pc) (h : pc'.pending = pc.pending) :
    (threads.set i pc').map Pc.pending = threads.map Pc.pending := by
  obtain ⟨hlt, rfl⟩ := getElem_of_getElem? hi
  rw [List.map_set, h, ← List.getElem_map Pc.pending (h := by simpa), List.set_getElem_self]

lemma map_pending_wake (threads : List (Pc ρ)) :
    (threads.map Pc.wake).map Pc.pending = threads.map Pc.pending := by
  simp [Function.comp_def]

section Same

variable {threads' : List (Pc ρ)} (h : threads'.map Pc.pending = threads.map Pc.pending)

include h

lemma exists_pending_eq (hj : threads'[j]? = some pc) :
    ∃ pc₀, threads[j]? = some pc₀ ∧ pc₀.pending = pc.pending := by
  have hj' : (threads.map Pc.pending)[j]? = some pc.pending := by
    rw [← h, List.getElem?_map, hj]
    rfl
  exact map_eq_some_iff.mp ((List.getElem?_map ..).symm.trans hj')

lemma adding_of_pending_eq (hj : threads'[j]? = some (.adding t rest task)) :
    threads[j]? = some (.adding t rest task) := by
  obtain ⟨pc₀, hj₀, heq⟩ := exists_pending_eq h hj
  rw [hj₀, Pc.eq_adding heq]

lemma total_addTickets_eq : total Pc.addTickets threads' = total Pc.addTickets threads := by
  have hmap := congrArg (List.map fun o => o.elim (0 : Multiset ℕ) fun e => {e.1}) h
  rw [List.map_map, List.map_map] at hmap
  exact congrArg List.sum hmap

end Same

lemma eq_of_mem_total {f : Pc ρ → Multiset ℕ} (hnodup : (total f threads).Nodup)
    (hi : threads[i]? = some pc) (hj : threads[j]? = some pc') (ht : t ∈ f pc) (ht' : t ∈ f pc') :
    i = j := by
  induction threads generalizing i j with
  | nil => simp at hi
  | cons p threads ih =>
    obtain ⟨-, htail, hdisj⟩ := nodup_add.mp hnodup
    -- The head's ticket is in no other thread.
    have hapart : ∀ (k : ℕ) (q : Pc ρ), threads[k]? = some q → t ∈ f p → t ∉ f q :=
      fun k q hk hp hq => disjoint_left.mp hdisj hp (mem_total.mpr ⟨k, q, hk, hq⟩)
    cases i with
    | zero =>
      have hp : p = pc := by simpa using hi
      cases j with
      | zero => rfl
      | succ j => exact absurd ht' (hapart j pc' (by simpa using hj) (hp ▸ ht))
    | succ i =>
      cases j with
      | zero =>
        have hp : p = pc' := by simpa using hj
        exact absurd ht (hapart i pc (by simpa using hi) (hp ▸ ht'))
      | succ j =>
        have hij : i = j := ih htail (by simpa using hi) (by simpa using hj)
        rw [hij]

end Adding

/-! ### The ticket invariant -/

/-- Nothing changes for the `Add`s.  This is so in all actions of readers, and when a thread waits
or wakes up. -/
structure SameAdds (s s' : State ρ) : Prop where
  threads : s'.threads.map Pc.pending = s.threads.map Pc.pending
  mutex : s'.mutex = s.mutex := by rfl
  tasks : s'.addTasks = s.addTasks := by rfl
  log : s'.log = s.log := by rfl
  index : s'.index = s.index := by rfl
  raw : s'.rawData = s.rawData := by rfl

lemma sameAdds_finishRead {s : State ρ} (hi : s.threads[i]? = some (.reading t held false)) :
    SameAdds s (s.finishRead i held) :=
  .mk ((map_pending_wake _).trans (map_pending_set hi (Pc.pending_afterRead held)))

structure Tickets (s : State ρ) : Prop where
  queue : s.queue.Inv
  readers : s.activeReaders = s.queue.active.card
  adds : total Pc.addTickets s.threads = s.addTasks
  /-- Only the first queued `Add` changes the index, with the mutex. -/
  adding : ∀ {i t : ℕ} {rest : List ρ} {task : AddTask ρ},
    s.threads[i]? = some (.adding t rest task) → s.mutex = true ∧ t ∈ s.addTasks.head?
  mutex : s.mutex = true → ∃ (i t : ℕ) (rest : List ρ) (task : AddTask ρ),
    s.threads[i]? = some (.adding t rest task)

lemma total_start (calls : List (Call ρ))
    (hf : ∀ call : Call ρ, f call.start = 0) : total f (calls.map Call.start) = 0 := by
  induction calls with
  | nil => rfl
  | cons call calls ih =>
    show f call.start + total f (calls.map Call.start) = 0
    rw [hf, ih, add_zero]

lemma start_ne_adding (call : Call ρ) : call.start ≠ .adding t rest task := by
  cases call <;> simp [Call.start]

lemma queue_init (calls : List (Call ρ)) : (init calls).queue = {} := by
  have hq : total Pc.queued (calls.map Call.start) = 0 :=
    total_start _ calls fun call => by cases call <;> rfl
  have hp : total Pc.permissions (calls.map Call.start) = 0 :=
    total_start _ calls fun call => by cases call <;> rfl
  unfold State.queue init
  rw [hq, hp]

lemma tickets_init (calls : List (Call ρ)) : Tickets (init calls) where
  queue := queue_init calls ▸ inv_empty
  readers := by
    rw [queue_init]
    rfl
  adds := total_start _ calls fun call => by cases call <;> rfl
  adding := by
    intro i t rest task hi
    have hi' : (calls.map Call.start)[i]? = some (.adding t rest task) := hi
    rw [List.getElem?_map, map_eq_some_iff] at hi'
    obtain ⟨call, -, hcall⟩ := hi'
    exact absurd hcall (start_ne_adding call)
  mutex := nofun

namespace Tickets

variable {s : State ρ} {i j t : ℕ} {held : List ℕ} {nested : Bool} {task : AddTask ρ}

section

variable (h : Tickets s)

include h

lemma lt_next : ∀ a ∈ s.addTasks, a < s.nextTaskId :=
  fun a ha => h.queue.lt_next a (mem_live.mpr (.inl ha))

lemma not_adding (hfree : s.mutex = false) : s.threads[i]? ≠ some (.adding t rest task) := by
  intro hi
  have hmutex := (h.adding hi).1
  rw [hfree] at hmutex
  exact Bool.false_ne_true hmutex

lemma mem_addTasks (hi : s.threads[i]? = some pc) (ht : t ∈ pc.addTickets) : t ∈ s.addTasks := by
  have hmem := mem_total.mpr ⟨i, pc, hi, ht⟩
  rw [h.adds] at hmem
  exact mem_coe.mp hmem

lemma adding_unique (hi : s.threads[i]? = some (.adding t rest task))
    (hj : s.threads[j]? = some (.adding u rest' task')) : i = j := by
  have hu : u = t := some.inj (((h.adding hj).2).symm.trans (h.adding hi).2)
  have hnodup : (total Pc.addTickets s.threads).Nodup := by
    rw [h.adds]
    exact coe_nodup.mpr (h.queue.sorted.imp Nat.ne_of_lt)
  apply eq_of_mem_total hnodup hi hj (t := t)
  · exact mem_singleton_self t
  · rw [hu]
    exact mem_singleton_self t

lemma mayWrite (hpred : s.addPredicate t = true) : s.queue.MayWrite t := by
  unfold State.addPredicate at hpred
  rw [Bool.and_eq_true, beq_iff_eq, beq_iff_eq] at hpred
  refine ⟨hpred.1, ?_⟩
  have hcard := h.readers
  rw [hpred.2] at hcard
  exact card_eq_zero.mp (by exact_mod_cast hcard.symm)

end

lemma mayRead (hpred : s.readPredicate t = true) : s.queue.MayRead t := by
  intro a ha
  have ha' : s.addTasks.head? = some a := ha
  unfold State.readPredicate at hpred
  rw [ha'] at hpred
  exact of_decide_eq_true hpred

lemma mem_waiting (hi : s.threads[i]? = some (.readWoken held nested t)) : t ∈ s.queue.waiting :=
  mem_total.mpr ⟨i, _, hi, mem_singleton_self t⟩

lemma mem_active (hi : s.threads[i]? = some (.reading t held nested)) : t ∈ s.queue.active :=
  mem_total.mpr ⟨i, _, hi, mem_cons_self t (held : Multiset ℕ)⟩

variable (h : Tickets s)

include h

lemma frame (hadds : SameAdds s s') (hqueue : s'.queue.Inv)
    (hreaders : s'.activeReaders = s'.queue.active.card) : Tickets s' where
  queue := hqueue
  readers := hreaders
  adds := by rw [total_addTickets_eq hadds.threads, hadds.tasks, h.adds]
  adding := by
    intro j t rest task hj
    rw [hadds.mutex, hadds.tasks]
    exact h.adding (adding_of_pending_eq hadds.threads hj)
  mutex := by
    intro hm
    obtain ⟨j, t, rest, task, hj⟩ := h.mutex (hadds.mutex ▸ hm)
    exact ⟨j, t, rest, task, adding_of_pending_eq hadds.threads.symm hj⟩

lemma setThread (hi : s.threads[i]? = some pc) (hq : pc'.queued = pc.queued)
    (hp : pc'.permissions = pc.permissions) (hpc : pc'.pending = pc.pending) :
    Tickets (s.setThread i pc') := by
  have hqueue := queue_setThread hi hq hp
  exact h.frame (.mk (map_pending_set hi hpc)) (hqueue ▸ h.queue) (hqueue ▸ h.readers)

lemma notifyAll : Tickets s.notifyAll := by
  have hqueue := queue_notifyAll s
  exact h.frame (.mk (map_pending_wake _)) (hqueue ▸ h.queue) (hqueue ▸ h.readers)

lemma issueAdd (hi : s.threads[i]? = some (.addStart task))
    (hfree : s.mutex = false) : Tickets (s.issueAdd i task) where
  queue := queue_issueAdd hi ▸ h.queue.issueWriter
  readers := queue_issueAdd hi ▸ h.readers
  adds := by
    obtain ⟨rest, hrest, hset⟩ := exists_total_set Pc.addTickets hi
    have hold : rest = (s.addTasks : Multiset ℕ) := by
      rw [← h.adds, hrest]
      exact (zero_add rest).symm
    show total Pc.addTickets (s.threads.set i _) = (s.addTasks ++ [s.nextTaskId] : List ℕ)
    rw [hset, hold, add_comm]
    rfl
  adding := by
    intro j u rest task' hj
    rcases eq_or_of_getElem?_set hj with ⟨-, hpc⟩ | ⟨-, hold⟩
    · cases hpc
    · exact absurd hold (h.not_adding hfree)
  mutex := by
    intro hmutex
    have : s.mutex = true := hmutex
    rw [hfree] at this
    cases this

lemma startAdd (hi : s.threads[i]? = some (.addWoken t task))
    (hfree : s.mutex = false) (hpred : s.addPredicate t = true) :
    Tickets (s.startAdd i t task) := by
  have hmem : t ∈ s.addTasks := h.mem_addTasks hi (mem_singleton_self t)
  have hmay := h.mayWrite hpred
  exact
    { queue := queue_startAdd hi ▸ h.queue.startWriter hmem hfree hmay
      readers := queue_startAdd hi ▸ h.readers
      adds := (total_set_of_eq Pc.addTickets (.adding t task.rows task) hi rfl).trans h.adds
      adding := by
        intro j u rest task' hj
        rcases eq_or_of_getElem?_set hj with ⟨-, hpc⟩ | ⟨-, hold⟩
        · cases hpc
          exact ⟨rfl, h.queue.head_of_mayWrite hmem hmay⟩
        · exact absurd hold (h.not_adding hfree)
      mutex := fun _ => ⟨i, t, task.rows, task, getElem?_set_of_eq_some _ hi⟩ }

lemma addRow (hi : s.threads[i]? = some (.adding t (row :: rest) task)) :
    Tickets (s.addRow i t row rest task) where
  queue := queue_addRow hi ▸ h.queue
  readers := queue_addRow hi ▸ h.readers
  adds := (total_set_of_eq Pc.addTickets (.adding t rest task) hi rfl).trans h.adds
  adding := by
    intro j u rest' task' hj
    rcases eq_or_of_getElem?_set hj with ⟨-, hpc⟩ | ⟨-, hold⟩
    · cases hpc
      exact h.adding hi
    · exact h.adding hold
  mutex := fun _ => ⟨i, t, rest, task, getElem?_set_of_eq_some _ hi⟩

lemma finishAdd (hi : s.threads[i]? = some (.adding t [] task)) :
    Tickets (s.finishAdd i task) where
  queue := queue_finishAdd hi ▸ h.queue.finishWriter (h.adding hi).1
  readers := queue_finishAdd hi ▸ h.readers
  adds := by
    obtain ⟨rest, hrest, hset⟩ := exists_total_set Pc.addTickets hi
    have hcons : s.addTasks = t :: s.addTasks.tail := (List.cons_head?_tail (h.adding hi).2).symm
    have hold : t ::ₘ rest = t ::ₘ (s.addTasks.tail : Multiset ℕ) := by
      rw [cons_coe, ← hcons, ← h.adds, hrest]
      exact singleton_add t rest
    show total Pc.addTickets (s.threads.set i _) = (s.addTasks.tail : Multiset ℕ)
    rw [hset, ← (cons_inj_right t).mp hold]
    exact zero_add rest
  adding := by
    intro j u rest task' hj
    rcases eq_or_of_getElem?_set hj with ⟨-, hpc⟩ | ⟨hne, hold⟩
    · cases hpc
    · exact absurd (h.adding_unique hold hi) hne
  mutex := nofun

lemma issueRead (hi : s.threads[i]? = some (.acquire held nested)) :
    Tickets (s.issueRead i held nested) := by
  have hqueue := queue_issueRead hi
  exact h.frame (.mk (map_pending_set hi rfl)) (hqueue ▸ h.queue.issueReader) (hqueue ▸ h.readers)

lemma startRead (hi : s.threads[i]? = some (.readWoken held nested t))
    (hfree : s.mutex = false) (hpred : s.readPredicate t = true) :
    Tickets (s.startRead i held nested t) := by
  have hqueue := queue_startRead hi
  have hreaders : s.activeReaders + 1 = (t ::ₘ s.queue.active).card := by
    rw [card_cons, h.readers]
    rfl
  exact h.frame (.mk (map_pending_set hi rfl))
    (hqueue ▸ h.queue.startReader (mem_waiting hi) hfree (mayRead hpred)) (hqueue ▸ hreaders)

lemma finishRead (hi : s.threads[i]? = some (.reading t held false)) :
    Tickets (s.finishRead i held) := by
  have hqueue := queue_finishRead hi
  have hcard := card_erase_add_one (mem_active hi)
  have hreaders : s.activeReaders - 1 = (s.queue.active.erase t).card := by
    rw [h.readers]
    omega
  exact h.frame (sameAdds_finishRead hi) (hqueue ▸ h.queue.finishReader (mem_active hi))
    (hqueue ▸ hreaders)

lemma action (ha : Action i s s') : Tickets s' := by
  cases ha with
  | issueAdd hi hfree => exact h.issueAdd hi hfree
  | startAdd hi hfree hpred => exact h.startAdd hi hfree hpred
  | waitAdd hi _ => exact h.setThread hi rfl rfl rfl
  | addRow hi => exact h.addRow hi
  | finishAdd hi => exact h.finishAdd hi
  | notify hi =>
    apply Tickets.notifyAll
    exact h.setThread hi rfl rfl rfl
  | issueRead hi _ => exact h.issueRead hi
  | startRead hi hfree hpred => exact h.startRead hi hfree hpred
  | waitRead hi _ => exact h.setThread hi rfl rfl rfl
  | nest hi => exact h.setThread hi rfl rfl rfl
  | finishRead hi => exact h.finishRead hi
  | wake hi =>
    exact h.setThread hi (Pc.queued_wake _) (Pc.permissions_wake _) (Pc.pending_wake _)

end Tickets

end Rvanns.Knowhere.SparseInvertedIndexNodeCC
