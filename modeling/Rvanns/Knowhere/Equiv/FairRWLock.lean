import Rvanns.Cpp.Vector
import Rvanns.Knowhere.FairRWLock

/-!
# The state of the fair read-write lock

In every reachable state the counters say who holds the lock, and the queue of requests holds the
tickets of the writers that wait (`Inv`, `inv_of_reachable`).  Nobody enters past a writer with a
smaller ticket.
-/

namespace Rvanns.Knowhere.FairRWLock

open Cpp List Option State Thread

/-! ### What a step does -/

inductive NotifiesOne (s : State) : State → Prop
  | nobody (h : ∀ t ∈ s.threads, t.waitsOn .write = false) : NotifiesOne s s
  | wakes {pick id : ℕ} {todo : List Mode}
      (h : s.threads[pick]? = some ⟨.waiting .write id, todo⟩) :
      NotifiesOne s (s.setThread pick ⟨.notified .write id, todo⟩)

lemma waitsOn_iff {t : Thread} : t.waitsOn mode = true ↔ ∃ id, t = ⟨.waiting mode id, t.todo⟩ := by
  obtain ⟨pc, todo⟩ := t
  cases pc <;> simp [waitsOn, and_comm]

variable {s : State}

lemma notifiesOne_of_notifyOne {s' : State} {pick : ℕ}
    (h : s.notifyOne .write pick = some s') : NotifiesOne s s' := by
  unfold notifyOne at h
  split_ifs at h with hany
  · obtain ⟨t, ht, h⟩ := bind_eq_some_iff.mp h
    split_ifs at h with hwaits
    obtain ⟨id, hid⟩ := waitsOn_iff.mp hwaits
    cases h
    rw [hid] at ht ⊢
    exact .wakes ht
  · cases h
    apply NotifiesOne.nobody
    intro t ht
    by_contra hne
    exact hany (any_eq_true.mpr ⟨t, ht, by simpa using hne⟩)

inductive Action (i : ℕ) (s : State) : State → Prop
  | arrive {mode : Mode} {todo : List Mode} (h : s.threads[i]? = some ⟨.outside, mode :: todo⟩) :
      Action i s ((s.issue mode).setThread i ⟨.notified mode s.idCounter, todo⟩)
  | acquire {mode : Mode} {id : ℕ} {todo : List Mode}
      (h : s.threads[i]? = some ⟨.notified mode id, todo⟩) (hpred : s.predicate mode id = true) :
      Action i s (s.acquire i todo mode)
  | wait {mode : Mode} {id : ℕ} {todo : List Mode}
      (h : s.threads[i]? = some ⟨.notified mode id, todo⟩) (hpred : s.predicate mode id = false) :
      Action i s (s.setThread i ⟨.waiting mode id, todo⟩)
  | unLockRead {todo : List Mode} {s' : State} (h : s.threads[i]? = some ⟨.holding .read, todo⟩)
      (hnotify : if (s.leaveRead i todo).readers = 0 ∧ (s.leaveRead i todo).writeRequests ≠ [] then
        NotifiesOne (s.leaveRead i todo) s' else s' = s.leaveRead i todo) :
      Action i s s'
  | unLockWrite {todo : List Mode} {s' : State} (h : s.threads[i]? = some ⟨.holding .write, todo⟩)
      (hnotify : if (s.leaveWrite i todo).writeRequests ≠ [] then
        NotifiesOne (s.leaveWrite i todo) s' else s' = (s.leaveWrite i todo).notifyAll .read) :
      Action i s s'

lemma action_test {i id : ℕ} {mode : Mode} {todo : List Mode}
    (h : s.threads[i]? = some ⟨.notified mode id, todo⟩) : Action i s (s.test i todo mode id) := by
  unfold test
  cases hpred : s.predicate mode id with
  | true => exact .acquire h hpred
  | false => exact .wait h hpred

lemma test_setThread (s : State) (i id : ℕ) (t : Thread) (mode : Mode) (todo : List Mode) :
    (s.setThread i t).test i todo mode id = s.test i todo mode id := by
  have hpred : (s.setThread i t).predicate mode id = s.predicate mode id := by cases mode <;> rfl
  unfold test
  rw [hpred]
  cases mode <;> simp [setThread, acquire, set_set]

@[simp] lemma threads_issue (s : State) (mode : Mode) : (s.issue mode).threads = s.threads := by
  cases mode <;> rfl

lemma action_of_step (h : s.step i pick = some s') :
    Action i s s' ∨ ∃ s₁, Action i s s₁ ∧ Action i s₁ s' := by
  unfold step at h
  split at h
  · rename_i mode todo hi
    cases h
    have harrive := Action.arrive hi
    refine .inr ⟨_, harrive, ?_⟩
    rw [lock, ← test_setThread _ i _ ⟨.notified mode s.idCounter, todo⟩]
    apply action_test
    apply getElem?_set_of_eq_some
    rw [threads_issue]
    exact hi
  · rename_i mode id todo hi
    cases h
    exact .inl (action_test hi)
  · rename_i todo hi
    refine .inl (.unLockRead hi ?_)
    unfold unLockRead at h
    dsimp only at h
    split_ifs at h with hcond
    · rw [if_pos hcond]
      exact notifiesOne_of_notifyOne h
    · rw [if_neg hcond]
      exact (some.inj h).symm
  · rename_i todo hi
    refine .inl (.unLockWrite hi ?_)
    unfold unLockWrite at h
    dsimp only at h
    split_ifs at h with hcond
    · rw [if_pos hcond]
      exact notifiesOne_of_notifyOne h
    · rw [if_neg hcond]
      exact (some.inj h).symm
  · cases h
  · cases h
  · cases h

lemma Reachable.of_actions {P : State → Prop} (hinit : P (FairRWLock.init programs))
    (haction : ∀ {s s' : State} {i : ℕ}, P s → Action i s s' → P s')
    (h : Reachable programs s) : P s := by
  induction h with
  | init => exact hinit
  | step _ hstep ih =>
    rcases action_of_step hstep with hact | ⟨s₁, hact₁, hact₂⟩
    · exact haction ih hact
    · exact haction (haction ih hact₁) hact₂

/-! ### The counters and the queue -/

def Thread.writeIds (t : Thread) : List ℕ :=
  match t.pc with
  | .waiting .write id | .notified .write id => [id]
  | _ => []

lemma mem_writeIds {t : Thread} {id : ℕ} :
    id ∈ t.writeIds ↔ t.pc = .waiting .write id ∨ t.pc = .notified .write id := by
  obtain ⟨pc, todo⟩ := t
  cases pc with
  | waiting mode id' => cases mode <;> simp [writeIds, eq_comm]
  | notified mode id' => cases mode <;> simp [writeIds, eq_comm]
  | _ => simp [writeIds]

def State.pending (s : State) : List ℕ :=
  if s.writer then s.writeRequests.tail else s.writeRequests

def Thread.modes (t : Thread) : List Mode :=
  match t.pc with
  | .outside => t.todo
  | .waiting mode _ | .notified mode _ | .holding mode => mode :: t.todo

section Wake

variable (mode mode' : Mode) (t : Thread)

@[simp] lemma pc_wake_eq_holding : (t.wake mode).pc = .holding mode' ↔ t.pc = .holding mode' := by
  obtain ⟨pc, todo⟩ := t
  cases pc with
  | waiting m id => by_cases h : m = mode <;> simp [wake, h]
  | _ => rfl

@[simp] lemma writeIds_wake : (t.wake mode).writeIds = t.writeIds := by
  obtain ⟨pc, todo⟩ := t
  cases pc with
  | waiting m id =>
    by_cases h : m = mode
    · subst h
      cases m <;> simp [wake, writeIds]
    · simp [wake, h]
  | _ => rfl

@[simp] lemma waitsOn_wake : (t.wake mode).waitsOn mode = false := by
  obtain ⟨pc, todo⟩ := t
  cases pc with
  | waiting m id => by_cases h : m = mode <;> simp [wake, waitsOn, h]
  | _ => rfl

@[simp] lemma modes_wake : (t.wake mode).modes = t.modes := by
  obtain ⟨pc, todo⟩ := t
  cases pc with
  | waiting m id => by_cases h : m = mode <;> simp [wake, modes, h]
  | _ => rfl

end Wake

structure Inv (s : State) : Prop where
  readers_eq : s.threads.countP (·.pc = .holding .read) = s.readers
  writer_eq : s.threads.countP (·.pc = .holding .write) = s.writer.toNat
  exclusive : s.writer = true → s.readers = 0
  requested : s.writer = true → s.writeRequests ≠ []
  pending_perm : s.pending.Perm (s.threads.flatMap Thread.writeIds)

lemma inv_init (programs : List (List Mode)) : Inv (init programs) where
  readers_eq := by simp [init, countP_map, countP_eq_zero]
  writer_eq := by simp [init, countP_map, countP_eq_zero]
  exclusive := fun h => by simp [init] at h
  requested := fun h => by simp [init] at h
  pending_perm := by simp [init, pending, flatMap_map, writeIds]

namespace Inv

variable {s s' : State} {i : ℕ} {t t' : Thread}

lemma of_set (hs : Inv s) (s' : State) (t' : Thread) (hi : s.threads[i]? = some t)
    (hthreads : s'.threads = s.threads.set i t')
    (hreaders : s'.readers + (decide (t.pc = .holding .read)).toNat
      = s.readers + (decide (t'.pc = .holding .read)).toNat)
    (hwriter : s'.writer.toNat + (decide (t.pc = .holding .write)).toNat
      = s.writer.toNat + (decide (t'.pc = .holding .write)).toNat)
    (hexclusive : s'.writer = true → s'.readers = 0)
    (hrequested : s'.writer = true → s'.writeRequests ≠ [])
    (hpending : (t.writeIds ++ s'.pending).Perm (t'.writeIds ++ s.pending)) : Inv s' where
  readers_eq := by
    have hcount := countP_set_add (p := (·.pc = .holding .read)) hi t'
    have heq := hs.readers_eq
    rw [hthreads]
    omega
  writer_eq := by
    have hcount := countP_set_add (p := (·.pc = .holding .write)) hi t'
    have heq := hs.writer_eq
    rw [hthreads]
    omega
  exclusive := hexclusive
  requested := hrequested
  pending_perm := by
    rw [hthreads]
    apply (perm_append_left_iff t.writeIds).mp
    calc (t.writeIds ++ s'.pending).Perm (t'.writeIds ++ s.pending) := hpending
      _ |>.Perm (t'.writeIds ++ s.threads.flatMap writeIds) := hs.pending_perm.append_left _
      _ |>.Perm _ := (perm_flatMap_set hi t').symm

lemma notifiesOne (hs : Inv s) (h : NotifiesOne s s') : Inv s' := by
  cases h with
  | nobody => exact hs
  | @wakes pick id todo hi =>
    exact hs.of_set (s.setThread pick ⟨.notified .write id, todo⟩) _ hi rfl (by simp) (by simp)
      hs.exclusive hs.requested (.refl _)

lemma notifyAll (hs : Inv s) : Inv (s.notifyAll .read) := by
  have hpending : (s.notifyAll .read).pending = s.pending := rfl
  refine ⟨?_, ?_, hs.exclusive, hs.requested, ?_⟩
  · simpa [countP_map, Function.comp_def] using hs.readers_eq
  · simpa [countP_map, Function.comp_def] using hs.writer_eq
  · simpa [flatMap_map, hpending, Function.comp_def] using hs.pending_perm

lemma pending_issue (hs : Inv s) : (s.issue .write).pending = s.pending ++ [s.idCounter] := by
  unfold pending
  cases hw : s.writer with
  | false => simp [issue, hw]
  | true =>
    have hne := hs.requested hw
    simp [issue, hw, tail_append_of_ne_nil hne]

variable {todo : List Mode}

variable (hs : Inv s)

include hs

lemma arrive (hi : s.threads[i]? = some ⟨.outside, mode :: todo⟩) :
    Inv ((s.issue mode).setThread i ⟨.notified mode s.idCounter, todo⟩) := by
  apply hs.of_set _ ⟨.notified mode s.idCounter, todo⟩ hi (by simp)
  · cases mode <;> simp [issue]
  · cases mode <;> simp [issue]
  · cases mode <;> exact hs.exclusive
  · cases mode with
    | read => exact hs.requested
    | write => simp [issue]
  · cases mode with
    | read => exact .refl _
    | write =>
      show (s.issue .write).pending.Perm ([s.idCounter] ++ s.pending)
      rw [hs.pending_issue]
      exact perm_append_comm

section

variable {mode : Mode} {id : ℕ} (hi : s.threads[i]? = some ⟨.notified mode id, todo⟩)

include hi

lemma acquire (hpred : s.predicate mode id = true) : Inv (s.acquire i todo mode) := by
  cases mode with
  | read =>
    have hw : s.writer = false := by
      unfold State.predicate at hpred
      cases hw : s.writer with
      | false => rfl
      | true => simp [hw] at hpred
    exact hs.of_set (s.acquire i todo .read) ⟨.holding .read, todo⟩ hi rfl
      (by simp [State.acquire]) (by simp [State.acquire]) (by simp [State.acquire, hw])
      hs.requested (.refl _)
  | write =>
    obtain ⟨⟨hw, hr⟩, hhead⟩ : (s.writer = false ∧ s.readers = 0)
        ∧ s.writeRequests.head? = some id := by
      simpa [State.predicate] using hpred
    obtain ⟨rest, hrest⟩ := head?_eq_some_iff.mp hhead
    apply hs.of_set (s.acquire i todo .write) ⟨.holding .write, todo⟩ hi rfl
      (by simp [State.acquire]) (by simp [State.acquire, hw]) (fun _ => hr)
      (by simp [State.acquire, hrest])
    simp [State.pending, State.acquire, hw, hrest, writeIds]

lemma wait : Inv (s.setThread i ⟨.waiting mode id, todo⟩) := by
  apply hs.of_set (s.setThread i ⟨.waiting mode id, todo⟩) ⟨.waiting mode id, todo⟩ hi rfl (by simp)
    (by simp) hs.exclusive hs.requested
  cases mode <;> exact .refl _

end

lemma leaveRead (hi : s.threads[i]? = some ⟨.holding .read, todo⟩) : Inv (s.leaveRead i todo) := by
  have hpos : 0 < s.readers := by
    rw [← hs.readers_eq]
    exact countP_pos_iff.mpr ⟨_, mem_of_getElem? hi, by simp⟩
  apply hs.of_set (s.leaveRead i todo) ⟨.outside, todo⟩ hi rfl _ (by simp) _ hs.requested (.refl _)
  · simp
    omega
  · intro hw
    have := hs.exclusive hw
    simp [this]

lemma writer_of_holding (ht : t ∈ s.threads) (hpc : t.pc = .holding .write) : s.writer = true := by
  have hpos : 0 < s.writer.toNat := by
    rw [← hs.writer_eq]
    exact countP_pos_iff.mpr ⟨t, ht, by simp [hpc]⟩
  cases hw : s.writer with
  | false => simp [hw] at hpos
  | true => rfl

lemma leaveWrite
    (hi : s.threads[i]? = some ⟨.holding .write, todo⟩) : Inv (s.leaveWrite i todo) := by
  have hw := hs.writer_of_holding (mem_of_getElem? hi) rfl
  apply hs.of_set (s.leaveWrite i todo) ⟨.outside, todo⟩ hi rfl (by simp) (by simp [hw]) (by simp)
    (by simp)
  simp [pending, hw, writeIds]

lemma action (h : Action i s s') : Inv s' := by
  cases h with
  | arrive hi => exact hs.arrive hi
  | acquire hi hpred => exact hs.acquire hi hpred
  | wait hi => exact hs.wait hi
  | unLockRead hi hnotify =>
    split_ifs at hnotify
    · exact (hs.leaveRead hi).notifiesOne hnotify
    · exact hnotify ▸ hs.leaveRead hi
  | unLockWrite hi hnotify =>
    split_ifs at hnotify
    · exact (hs.leaveWrite hi).notifiesOne hnotify
    · exact hnotify ▸ (hs.leaveWrite hi).notifyAll

end Inv

lemma inv_of_reachable (h : Reachable programs s) : Inv s :=
  h.of_actions (inv_init programs) Inv.action

lemma Inv.free (hs : Inv s) (h : ∀ t ∈ s.threads, t.holds = false) :
    s.readers = 0 ∧ s.writer = false := by
  have hnone (mode : Mode) : s.threads.countP (·.pc = .holding mode) = 0 := by
    apply countP_eq_zero.mpr
    intro t ht hpc
    have hfree := h t ht
    rw [holds, of_decide_eq_true hpc] at hfree
    exact Bool.false_ne_true hfree.symm
  have hw : s.writer.toNat = 0 := hs.writer_eq.symm.trans (hnone .write)
  refine ⟨hs.readers_eq.symm.trans (hnone .read), ?_⟩
  cases hwriter : s.writer with
  | false => rfl
  | true => simp [hwriter] at hw

lemma holding_alone {programs : List (List Mode)} (h : Reachable programs s) {i j : ℕ}
    {t t' : Thread} (hi : s.threads[i]? = some t) (hj : s.threads[j]? = some t')
    (ht : t.pc = .holding .write) (ht' : t'.holds = true) : i = j := by
  have hs := inv_of_reachable h
  have hw := hs.writer_of_holding (mem_of_getElem? hi) ht
  by_contra hij
  -- without thread `i` there is no writer, and thread `j` is still there
  have hcount := countP_set_add (p := (·.pc = .holding .write)) hi ⟨.outside, []⟩
  have hmem : t' ∈ s.threads.set i ⟨.outside, []⟩ := by
    apply mem_of_getElem? (i := j)
    rw [getElem?_set_ne hij, hj]
  have hwriters := hs.writer_eq
  simp only [ht, hw, Bool.toNat_true, decide_true] at hcount hwriters
  cases hpc : t'.pc with
  | holding mode =>
    cases mode with
    | read =>
      have hpos : 0 < s.readers := by
        rw [← hs.readers_eq]
        exact countP_pos_iff.mpr ⟨t', mem_of_getElem? hj, by simp [hpc]⟩
      have hzero := hs.exclusive hw
      omega
    | write =>
      have hpos : 0 < (s.threads.set i ⟨.outside, []⟩).countP (·.pc = .holding .write) :=
        countP_pos_iff.mpr ⟨t', hmem, decide_eq_true hpc⟩
      have hnone : decide (Pc.outside = .holding .write) = false := rfl
      rw [hnone, Bool.toNat_false] at hcount
      omega
  | _ => simp [holds, hpc] at ht'

section

variable {s s' : State} {i id : ℕ} {mode : Mode} {todo : List Mode}

/-! ### Tickets -/

/-- Writers queue in the order of their tickets. -/
structure Ordered (s : State) : Prop where
  sorted : s.writeRequests.Pairwise (· < ·)
  issued : ∀ id ∈ s.writeRequests, id < s.idCounter

namespace Ordered

lemma issue (ho : Ordered s) (mode : Mode) : Ordered (s.issue mode) := by
  cases mode with
  | read => exact ⟨ho.sorted, fun id hid => Nat.lt_succ_of_lt (ho.issued id hid)⟩
  | write =>
    exact ⟨pairwise_concat.mpr ⟨ho.sorted, ho.issued⟩, forall_mem_concat.mpr
      ⟨fun id hid => Nat.lt_succ_of_lt (ho.issued id hid), Nat.lt_succ_self _⟩⟩

lemma notifiesOne (ho : Ordered s) (h : NotifiesOne s s') : Ordered s' := by
  cases h with
  | nobody => exact ho
  | wakes => exact ⟨ho.sorted, ho.issued⟩

lemma action (ho : Ordered s) (h : Action i s s') : Ordered s' := by
  cases h with
  | @arrive mode todo hi =>
    have hissue := ho.issue mode
    exact ⟨hissue.sorted, hissue.issued⟩
  | @acquire mode => cases mode <;> exact ⟨ho.sorted, ho.issued⟩
  | wait => exact ⟨ho.sorted, ho.issued⟩
  | @unLockRead todo s' hi hnotify =>
    have hleave : Ordered (s.leaveRead i todo) := ⟨ho.sorted, ho.issued⟩
    split_ifs at hnotify
    · exact hleave.notifiesOne hnotify
    · exact hnotify ▸ hleave
  | @unLockWrite todo s' hi hnotify =>
    have hleave : Ordered (s.leaveWrite i todo) :=
      ⟨ho.sorted.tail, fun id hid => ho.issued id (mem_of_mem_tail hid)⟩
    split_ifs at hnotify
    · exact hleave.notifiesOne hnotify
    · exact hnotify ▸ ⟨hleave.sorted, hleave.issued⟩

lemma le_of_predicate (ho : Ordered s) (h : s.predicate mode id = true) :
    s.writer = false ∧ ∀ id' ∈ s.writeRequests, id ≤ id' := by
  have hsorted := ho.sorted
  cases mode with
  | read =>
    obtain ⟨hw, hhead⟩ : s.writer = false ∧ ∀ id' ∈ s.writeRequests.head?, id < id' := by
      simpa [State.predicate, Option.all_eq_true] using h
    refine ⟨hw, fun id' hid' => ?_⟩
    cases hq : s.writeRequests with
    | nil => simp [hq] at hid'
    | cons first rest =>
      rw [hq] at hsorted hid' hhead
      have hfirst := hhead first rfl
      rcases mem_cons.mp hid' with rfl | hrest
      · exact le_of_lt hfirst
      · exact le_of_lt (lt_trans hfirst (rel_of_pairwise_cons hsorted hrest))
  | write =>
    obtain ⟨⟨hw, -⟩, hhead⟩ : (s.writer = false ∧ s.readers = 0)
        ∧ s.writeRequests.head? = some id := by
      simpa [State.predicate] using h
    obtain ⟨rest, hrest⟩ := head?_eq_some_iff.mp hhead
    rw [hrest] at hsorted ⊢
    refine ⟨hw, fun id' hid' => ?_⟩
    rcases mem_cons.mp hid' with rfl | hmem
    · exact le_rfl
    · exact le_of_lt (rel_of_pairwise_cons hsorted hmem)

end Ordered

lemma ordered_of_reachable (h : Reachable programs s) : Ordered s :=
  h.of_actions ⟨.nil, nofun⟩ Ordered.action

/-! ### Who enters -/

/-- The ticket that `t` has, or would draw now. -/
def State.ticket (s : State) (t : Thread) : ℕ :=
  match t.pc with
  | .waiting _ id | .notified _ id => id
  | _ => s.idCounter

/-- The next step of thread `i` takes it into the lock, with ticket `id`. -/
def State.Enters (s : State) (i : ℕ) (mode : Mode) (id : ℕ) : Prop :=
  ∃ pick s' t t', s.step i pick = some s' ∧ s.threads[i]? = some t ∧ s'.threads[i]? = some t' ∧
    t.holds = false ∧ t'.pc = .holding mode ∧ s.ticket t = id

lemma getElem?_test (h : (s.test i todo mode id).threads[j]? = some t') :
    (j = i ∧ t' = ⟨if s.predicate mode id then .holding mode else .waiting mode id, todo⟩) ∨
      (j ≠ i ∧ s.threads[j]? = some t') := by
  unfold State.test at h
  split_ifs at h ⊢
  · cases mode <;> exact eq_or_of_getElem?_set h
  · exact eq_or_of_getElem?_set h

lemma State.Enters.inv (h : s.Enters i mode id) : ∃ todo,
    (s.threads[i]? = some ⟨.outside, mode :: todo⟩ ∧ id = s.idCounter ∧
      (s.issue mode).predicate mode id = true) ∨
    (s.threads[i]? = some ⟨.notified mode id, todo⟩ ∧ s.predicate mode id = true) := by
  obtain ⟨pick, s', t, t', hstep, hi, hi', hout, hin, rfl⟩ := h
  -- whoever is in the lock afterwards has passed the test
  have htest {s₁ : State} {mode' : Mode} {id : ℕ} {todo : List Mode}
      (h : s' = s₁.test i todo mode' id) : mode' = mode ∧ s₁.predicate mode' id = true := by
    rw [h] at hi'
    rcases getElem?_test hi' with ⟨-, rfl⟩ | ⟨hne, -⟩
    · dsimp only at hin
      split_ifs at hin with hpred
      exact ⟨Pc.holding.inj hin, hpred⟩
    · exact absurd rfl hne
  unfold State.step at hstep
  rw [hi] at hstep
  split at hstep
  · rename_i mode' todo hi
    cases hi
    obtain ⟨rfl, hpred⟩ := htest (some.inj hstep).symm
    exact ⟨todo, .inl ⟨‹_›, rfl, hpred⟩⟩
  · rename_i mode' id todo hi
    cases hi
    obtain ⟨rfl, hpred⟩ := htest (some.inj hstep).symm
    exact ⟨todo, .inr ⟨‹_›, hpred⟩⟩
  · rename_i hi
    cases hi
    exact Bool.noConfusion hout
  · rename_i hi
    cases hi
    exact Bool.noConfusion hout
  · cases hstep
  · cases hstep
  · cases hstep

lemma State.Enters.le (h : s.Enters i mode id) (ho : Ordered s) :
    s.writer = false ∧ ∀ id' ∈ s.writeRequests, id ≤ id' := by
  obtain ⟨todo, ⟨-, -, hpred⟩ | ⟨-, hpred⟩⟩ := h.inv
  · obtain ⟨hw, hle⟩ := (ho.issue mode).le_of_predicate hpred
    cases mode with
    | read => exact ⟨hw, hle⟩
    | write => exact ⟨hw, fun id' hid' => hle id' (mem_append_left _ hid')⟩
  · exact ho.le_of_predicate hpred

lemma State.Enters.nobody_writes (h : s.Enters i mode id) (hs : Inv s) (ho : Ordered s) :
    ∀ t ∈ s.threads, t.pc ≠ .holding .write := by
  intro t ht hpc
  have hw := (h.le ho).1
  rw [hs.writer_of_holding ht hpc] at hw
  cases hw

/-- **Exclusion and order**: a writer holds the lock alone, and whoever enters, reader or writer,
does so when nobody writes and no writer with a smaller ticket waits. -/
theorem exclusive_and_in_order (h : Reachable programs s) :
    (∀ (i j : ℕ) (t t' : Thread), s.threads[i]? = some t → s.threads[j]? = some t' →
      t.pc = .holding .write → t'.holds = true → i = j) ∧
    ∀ (i : ℕ) (mode : Mode) (id : ℕ), s.Enters i mode id →
      (∀ t ∈ s.threads, t.pc ≠ .holding .write) ∧
        ∀ t ∈ s.threads, ∀ id' ∈ t.writeIds, id ≤ id' := by
  have hs := inv_of_reachable h
  refine ⟨fun i j t t' hi hj => holding_alone h hi hj, fun i mode id henters => ?_⟩
  have ho := ordered_of_reachable h
  obtain ⟨hw, hle⟩ := henters.le ho
  refine ⟨henters.nobody_writes hs ho, fun t ht id' hid' => hle id' ?_⟩
  have hmem : id' ∈ s.pending := hs.pending_perm.mem_iff.mpr (mem_flatMap.mpr ⟨t, ht, hid'⟩)
  rwa [State.pending, hw, if_neg Bool.false_ne_true] at hmem

lemma reachable_of_run (h : Reachable programs s)
    (schedule : List (ℕ × ℕ)) (hrun : s.run schedule = some s') : Reachable programs s' := by
  induction schedule generalizing s with
  | nil =>
    cases hrun
    exact h
  | cons p schedule ih =>
    obtain ⟨s₁, hstep, hrest⟩ := Option.bind_eq_some_iff.mp hrun
    exact ih (h.step hstep) hrest

/-- Thread 0 writes while threads 1 and 2 wait; it leaves, and thread 1 enters. -/
theorem exclusive_and_in_order_threeWriters : ∃ s s' : State,
    s.threads = [⟨.holding .write, []⟩, ⟨.waiting .write 1, []⟩, ⟨.waiting .write 2, []⟩] ∧
      (∀ (j : ℕ) (t : Thread), s.threads[j]? = some t → t.holds = true → 0 = j) ∧
      s.step 0 1 = some s' ∧ s'.Enters 1 .write 1 ∧
      ∀ t ∈ s'.threads, ∀ id ∈ t.writeIds, 1 ≤ id := by
  let s : State := {
    idCounter := 3
    writer := true
    writeRequests := [0, 1, 2]
    threads := [⟨.holding .write, []⟩, ⟨.waiting .write 1, []⟩, ⟨.waiting .write 2, []⟩] }
  let s' : State := {
    idCounter := 3
    writeRequests := [1, 2]
    threads := [⟨.outside, []⟩, ⟨.notified .write 1, []⟩, ⟨.waiting .write 2, []⟩] }
  have hs : Reachable [[.write], [.write], [.write]] s :=
    reachable_of_run .init [(0, 0), (1, 0), (2, 0)] (by decide)
  have henters : s'.Enters 1 .write 1 := ⟨0, _, _, _, rfl, rfl, rfl, rfl, rfl, rfl⟩
  have hstep : s.step 0 1 = some s' := rfl
  refine ⟨s, s', rfl, fun j t hj => ?_, hstep, henters, ?_⟩
  · exact (exclusive_and_in_order hs).1 0 j _ t rfl hj rfl
  · exact ((exclusive_and_in_order (hs.step hstep)).2 1 .write 1 henters).2

end

end Rvanns.Knowhere.FairRWLock
