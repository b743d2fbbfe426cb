import Rvanns.Knowhere.Equiv.SparseNodeTickets

/-!
# What every interleaving of the concurrent sparse node keeps

What the index holds is tied to the history of the `Add`s.
-/

namespace Rvanns.Knowhere.SparseInvertedIndexNodeCC

open Cpp List Option TicketQueue State

variable {ρ : Type}

/-! ### What the index holds -/

def rowsOf (log : List (ℕ × AddTask ρ)) : List ρ := log.flatMap fun e => e.2.rows

def rawOf (log : List (ℕ × AddTask ρ)) : List ρ := log.flatMap fun e => e.2.raw

def State.startedLog (s : State ρ) : List (ℕ × AddTask ρ) :=
  s.log.take s.queue.startedWriters.length

lemma pendingWriters_of_free {s : State ρ} (hfree : s.mutex = false) :
    s.queue.pendingWriters = s.addTasks := by
  simp [pendingWriters, queue, hfree]

structure Content (s : State ρ) : Prop where
  log : s.log.map Prod.fst = s.queue.startedWriters ++ s.queue.pendingWriters
  entry : ∀ {i : ℕ} {pc : Pc ρ}, s.threads[i]? = some pc →
    ∀ e ∈ pc.pending, (e.1, e.2.1) ∈ s.log
  idle : s.mutex = false → s.index = rowsOf s.startedLog ∧ s.rawData = rawOf s.startedLog
  adding : ∀ {i t : ℕ} {rest : List ρ} {task : AddTask ρ},
    s.threads[i]? = some (.adding t rest task) →
      s.index ++ rest = rowsOf s.startedLog ∧ s.rawData ++ task.raw = rawOf s.startedLog

lemma content_init (calls : List (Call ρ)) : Content (init calls) where
  log := by
    rw [queue_init]
    rfl
  entry := by
    intro i pc hi e he
    have hi' : (calls.map Call.start)[i]? = some pc := hi
    rw [getElem?_map, map_eq_some_iff] at hi'
    obtain ⟨call, -, rfl⟩ := hi'
    cases call <;> simp [Call.start, Pc.pending] at he
  idle := fun _ => ⟨rfl, rfl⟩
  adding := by
    intro i t rest task hi
    have hmutex := ((tickets_init calls).adding hi).1
    cases hmutex

namespace Content

variable {s : State ρ} {i t : ℕ} {held : List ℕ} {nested : Bool} {task : AddTask ρ}

lemma map_startedLog (h : Content s) : s.startedLog.map Prod.fst = s.queue.startedWriters := by
  unfold startedLog
  rw [map_take, h.log]
  exact take_left

lemma map_drop (h : Content s) :
    (s.log.drop s.queue.startedWriters.length).map Prod.fst = s.queue.pendingWriters := by
  rw [List.map_drop, h.log]
  exact List.drop_left

lemma length_le (h : Content s) : s.queue.startedWriters.length ≤ s.log.length := by
  have hlen := congrArg List.length h.log
  rw [length_map, length_append] at hlen
  omega

lemma frame (h : Content s) (hadds : SameAdds s s')
    (hstarted : s'.queue.startedWriters = s.queue.startedWriters) : Content s' := by
  have hstartedLog : s'.startedLog = s.startedLog := by
    unfold startedLog
    rw [hadds.log, hstarted]
  have hpending : s'.queue.pendingWriters = s.queue.pendingWriters := by
    unfold pendingWriters queue
    rw [hadds.mutex, hadds.tasks]
  exact
    { log := by rw [hadds.log, hstarted, hpending, h.log]
      entry := by
        intro j pc hj e he
        obtain ⟨pc₀, hj₀, heq⟩ := exists_pending_eq hadds.threads hj
        rw [hadds.log]
        exact h.entry hj₀ e (heq ▸ he)
      idle := by
        rw [hadds.mutex, hadds.index, hadds.raw, hstartedLog]
        exact h.idle
      adding := by
        intro j t rest task hj
        rw [hadds.index, hadds.raw, hstartedLog]
        exact h.adding (adding_of_pending_eq hadds.threads hj) }

variable (h : Content s)

include h

section

variable (hs : Tickets s)

include hs

lemma issueAdd (hfree : s.mutex = false) : Content (s.issueAdd i task) := by
  have hstarted : (s.issueAdd i task).startedLog = s.startedLog := by
    exact take_append_of_le_length h.length_le
  have hpending := pendingWriters_of_free hfree
  have hpending' := pendingWriters_of_free (s := s.issueAdd i task) hfree
  exact
    { log := by
        rw [hpending']
        show (s.log ++ [(s.nextTaskId, task)]).map Prod.fst =
          s.queue.startedWriters ++ (s.addTasks ++ [s.nextTaskId])
        rw [map_append, h.log, hpending, append_assoc]
        rfl
      entry := by
        intro j pc hj e he
        apply mem_append.mpr
        rcases eq_or_of_getElem?_set hj with ⟨-, rfl⟩ | ⟨-, hold⟩
        · cases he
          exact .inr (mem_singleton.mpr rfl)
        · exact .inl (h.entry hold e he)
      idle := by
        rw [hstarted]
        exact h.idle
      adding := by
        intro j u rest task' hj
        rcases eq_or_of_getElem?_set hj with ⟨-, hpc⟩ | ⟨-, hold⟩
        · cases hpc
        · exact absurd hold (hs.not_adding hfree) }

lemma tickets_nodup (hfree : s.mutex = false) : (s.log.map Prod.fst).Nodup := by
  have hpending := pendingWriters_of_free hfree
  rw [h.log]
  apply List.Pairwise.imp Nat.ne_of_lt
  apply pairwise_append.mpr
  refine ⟨?_, hpending ▸ hs.queue.sorted, ?_⟩
  · apply pairwise_map.mpr
    refine (hs.queue.inOrder.filter _).imp_of_mem fun hx _ hxy => hxy (.inl ?_)
    exact (mem_filter.mp hx).2
  · intro x hx a ha
    obtain ⟨e, he, rfl⟩ := mem_map.mp hx
    exact hs.queue.started_lt_writer e (mem_filter.mp he).1 a ha

lemma startedLog_startAdd (hi : s.threads[i]? = some (.addWoken t task)) (hfree : s.mutex = false)
    (hhead : t ∈ s.addTasks.head?) :
    (s.startAdd i t task).startedLog = s.startedLog ++ [(t, task)] := by
  set n := s.queue.startedWriters.length with hn
  have hpending : s.queue.pendingWriters = t :: s.addTasks.tail :=
    (pendingWriters_of_free hfree).trans (cons_head?_tail hhead).symm
  have hdrop := h.map_drop
  rw [hpending] at hdrop
  obtain ⟨e, rest, hlog, hfst, -⟩ := map_eq_cons_iff.mp hdrop
  have hmem : e ∈ s.log := mem_of_mem_drop (hlog ▸ mem_cons_self)
  have heq : e = (t, task) :=
    inj_on_of_nodup_map (h.tickets_nodup hs hfree) hmem (h.entry hi (t, task, none) rfl) hfst
  have hlen : (s.startAdd i t task).queue.startedWriters.length = n + 1 := by
    rw [queue_startAdd hi, hn]
    simp [startedWriters, startWriter]
  show s.log.take (s.startAdd i t task).queue.startedWriters.length = s.log.take n ++ [(t, task)]
  rw [hlen, take_add, hlog, heq]
  rfl

lemma startAdd (hi : s.threads[i]? = some (.addWoken t task))
    (hfree : s.mutex = false) (hpred : s.addPredicate t = true) :
    Content (s.startAdd i t task) := by
  have hmem : t ∈ s.addTasks := hs.mem_addTasks hi (Multiset.mem_singleton_self t)
  have hhead := hs.queue.head_of_mayWrite hmem (hs.mayWrite hpred)
  have hlog := h.startedLog_startAdd hs hi hfree hhead
  exact
    { log := by
        rw [queue_startAdd hi]
        show s.log.map Prod.fst = _
        have hpending : s.queue.pendingWriters = t :: s.addTasks.tail :=
          (pendingWriters_of_free hfree).trans (cons_head?_tail hhead).symm
        rw [h.log, hpending]
        simp [startedWriters, startWriter, pendingWriters,
          queue]
      entry := by
        intro j pc hj e he
        rcases eq_or_of_getElem?_set hj with ⟨-, rfl⟩ | ⟨-, hold⟩
        · cases he
          exact h.entry hi (t, task, none) rfl
        · exact h.entry hold e he
      idle := fun hidle => absurd hidle.symm Bool.false_ne_true
      adding := by
        intro j u rest task' hj
        rw [hlog]
        obtain ⟨hindex, hraw⟩ := h.idle hfree
        rcases eq_or_of_getElem?_set hj with ⟨-, hpc⟩ | ⟨-, hold⟩
        · cases hpc
          show s.index ++ task.rows = _ ∧ s.rawData ++ task.raw = _
          rw [hindex, hraw]
          simp [rowsOf, rawOf]
        · exact absurd hold (hs.not_adding hfree) }

lemma addRow {row : ρ} {rest : List ρ} (hi : s.threads[i]? = some (.adding t (row :: rest) task)) :
    Content (s.addRow i t row rest task) := by
  have hstarted : (s.addRow i t row rest task).startedLog = s.startedLog := rfl
  obtain ⟨hindex, hraw⟩ := h.adding hi
  exact
    { log := h.log
      entry := by
        intro j pc hj e he
        rcases eq_or_of_getElem?_set hj with ⟨-, rfl⟩ | ⟨-, hold⟩
        · cases he
          exact h.entry hi (t, task, some (row :: rest)) rfl
        · exact h.entry hold e he
      idle := by
        intro hidle
        have : s.mutex = false := hidle
        exact absurd hi (hs.not_adding this)
      adding := by
        intro j u rest' task' hj
        rw [hstarted]
        rcases eq_or_of_getElem?_set hj with ⟨-, hpc⟩ | ⟨hne, hold⟩
        · cases hpc
          refine ⟨?_, hraw⟩
          show s.index ++ [row] ++ rest = _
          rw [← hindex, append_assoc]
          rfl
        · exact absurd (hs.adding_unique hold hi) hne }

lemma finishAdd (hi : s.threads[i]? = some (.adding t [] task)) : Content (s.finishAdd i task) := by
  have hpending : s.queue.pendingWriters = s.addTasks.tail := by
    simp [pendingWriters, queue, (hs.adding hi).1]
  obtain ⟨hindex, hraw⟩ := h.adding hi
  exact
    { log := h.log.trans (congrArg _ hpending)
      entry := by
        intro j pc hj e he
        rcases eq_or_of_getElem?_set hj with ⟨-, rfl⟩ | ⟨-, hold⟩
        · exact absurd he (by simp [Pc.pending])
        · exact h.entry hold e he
      idle := fun _ => ⟨(append_nil _).symm.trans hindex, hraw⟩
      adding := by
        intro j u rest' task' hj
        rcases eq_or_of_getElem?_set hj with ⟨-, hpc⟩ | ⟨hne, hold⟩
        · cases hpc
        · exact absurd (hs.adding_unique hold hi) hne }

end

lemma action (hs : Tickets s) (ha : Action i s s') : Content s' := by
  cases ha with
  | issueAdd _ hfree => exact h.issueAdd hs hfree
  | startAdd hi hfree hpred => exact h.startAdd hs hi hfree hpred
  | addRow hi => exact h.addRow hs hi
  | finishAdd hi => exact h.finishAdd hs hi
  | notify hi => exact h.frame (.mk ((map_pending_wake _).trans (map_pending_set hi rfl))) rfl
  | startRead hi _ _ =>
    exact h.frame (.mk (map_pending_set hi rfl)) (by simp [startedWriters, queue, startRead])
  | finishRead hi => exact h.frame (sameAdds_finishRead hi) rfl
  | wake hi => exact h.frame (.mk (map_pending_set hi (Pc.pending_wake _))) rfl
  | waitAdd hi _ | issueRead hi _ | waitRead hi _ | nest hi =>
    exact h.frame (.mk (map_pending_set hi rfl)) rfl

end Content

/-! ### Every reachable state -/

section Reachable

variable {calls : List (Call ρ)} {s : State ρ}

lemma tickets_of_reachable (h : Reachable calls s) : Tickets s :=
  invariant_of_reachable (tickets_init calls) (fun _ hs => hs.lt_next)
    (fun _ _ _ hs ha => hs.action ha) h

lemma content_of_reachable (h : Reachable calls s) : Content s := by
  have hboth : Tickets s ∧ Content s :=
    invariant_of_reachable (I := fun s => Tickets s ∧ Content s)
      ⟨tickets_init calls, content_init calls⟩ (fun _ hs => hs.1.lt_next)
      (fun _ _ _ hs ha => ⟨hs.1.action ha, hs.2.action hs.1 ha⟩) h
  exact hboth.2

end Reachable

lemma startedLog_eq_filter {s : State ρ} (hs : Tickets s) (hc : Content s)
    (ht : t ∈ s.queue.active) : s.mutex = false ∧ s.startedLog = s.log.filter fun e => e.1 < t := by
  have hfree : s.mutex = false := by
    by_contra hm
    obtain ⟨a, -, -, hzero⟩ := hs.queue.alone (Bool.not_eq_false _ ▸ hm)
    exact Multiset.notMem_zero t (hzero ▸ ht)
  refine ⟨hfree, ?_⟩
  have hbefore : ∀ e ∈ s.startedLog, e.1 < t := by
    intro e he
    have hmem : e.1 ∈ s.queue.startedWriters := hc.map_startedLog ▸ mem_map_of_mem he
    obtain ⟨x, hx, hfst⟩ := mem_map.mp hmem
    obtain ⟨hx, hwriter⟩ := mem_filter.mp hx
    rw [← hfst]
    exact hs.queue.started_lt_reader x hx hwriter t (Multiset.mem_add.mpr (.inr ht))
  have hafter : ∀ e ∈ s.log.drop s.queue.startedWriters.length, ¬ e.1 < t := by
    intro e he
    have hmem : e.1 ∈ s.addTasks := pendingWriters_of_free hfree ▸ hc.map_drop ▸ mem_map_of_mem he
    cases hw : s.addTasks with
    | nil => simp [hw] at hmem
    | cons a rest =>
      have hlt : t < a := hs.queue.active_lt a (by simp [queue, hw]) t ht
      have hsorted : s.addTasks.Pairwise (· < ·) := hs.queue.sorted
      rw [hw] at hmem hsorted
      rcases mem_cons.mp hmem with heq | hrest
      · omega
      · have := (pairwise_cons.mp hsorted).1 e.1 hrest
        omega
  have hsplit : s.log = s.startedLog ++ s.log.drop s.queue.startedWriters.length :=
    (take_append_drop _ _).symm
  conv_rhs => rw [hsplit]
  rw [filter_append, filter_eq_self.mpr fun e he => decide_eq_true (hbefore e he),
    filter_eq_nil_iff.mpr fun e he => by simpa using hafter e he, append_nil]

def State.data (s : State ρ) : List ρ × List ρ := (s.index, s.rawData)

lemma data_of_action (ha : Action i s s') : s'.data = s.data ∨
    ∃ (t : ℕ) (rest : List ρ) (task : AddTask ρ), s.threads[i]? = some (.adding t rest task) := by
  cases ha with
  | addRow hi => exact .inr ⟨_, _, _, hi⟩
  | finishAdd hi => exact .inr ⟨_, _, _, hi⟩
  | _ => exact .inl rfl

lemma adding_of_data_ne {s s' : State ρ} (hs : Tickets s) (hstep : s.step i = some s')
    (hne : s'.data ≠ s.data) :
    ∃ (t : ℕ) (rest : List ρ) (task : AddTask ρ), s.threads[i]? = some (.adding t rest task) := by
  obtain ⟨s₁, hfirst, hsecond⟩ := actions_of_step hstep hs.lt_next
  rcases hfirst with rfl | ⟨hfirst, hfree⟩
  · exact (data_of_action hsecond).resolve_left hne
  · -- a thread that has just drawn its ticket changes nothing
    rcases data_of_action hsecond with heq | ⟨t, rest, task, hi⟩
    · exact (data_of_action hfirst).resolve_left (heq ▸ hne)
    · exact absurd hi ((hs.action hfirst).not_adding hfree)

lemma permissions_eq_zero {s : State ρ} (hs : Tickets s) (hmutex : s.mutex = true) {j : ℕ}
    {pc : Pc ρ} (hj : s.threads[j]? = some pc) : pc.permissions = 0 := by
  obtain ⟨a, -, -, hzero⟩ := hs.queue.alone hmutex
  apply Multiset.eq_zero_of_forall_notMem
  intro t ht
  exact Multiset.notMem_zero t (hzero ▸ mem_total.mpr ⟨j, pc, hj, ht⟩)

/-- **`Add`s are alone, tasks start in ticket order, and readers see the earlier `Add`s.**  In every
reachable state: a step that changes the index or the raw data is one of an `Add`, at a moment when
no thread holds a permission and no other `Add` changes the index; of two tasks that started, one of
them an `Add`, the one that started first has the smaller ticket; and while a thread holds the
permission with ticket `t`, the index has exactly the rows of the `Add`s with tickets below `t`, and
so has the raw data. -/
theorem add_alone_and_read_earlier (calls : List (Call ρ)) (s : State ρ) (h : Reachable calls s) :
    (∀ i s', s.step i = some s' → s'.data ≠ s.data →
      (∃ t rest task, s.threads[i]? = some (.adding t rest task)) ∧
      (∀ (j : ℕ) (pc : Pc ρ), s.threads[j]? = some pc → pc.permissions = 0) ∧
      ∀ j t rest task, s.threads[j]? = some (.adding t rest task) → j = i) ∧
    (s.starts.Pairwise fun x y => x.2 = true ∨ y.2 = true → x.1 < y.1) ∧
    ∀ (j : ℕ) (pc : Pc ρ) (t : ℕ), s.threads[j]? = some pc → t ∈ pc.permissions →
      s.data = (rowsOf (s.log.filter fun e => e.1 < t), rawOf (s.log.filter fun e => e.1 < t)) := by
  have hs := tickets_of_reachable h
  have hc := content_of_reachable h
  refine ⟨fun i s' hstep hne => ?_, hs.queue.inOrder, fun j pc t hj ht => ?_⟩
  · obtain ⟨t, rest, task, hi⟩ := adding_of_data_ne hs hstep hne
    refine ⟨⟨t, rest, task, hi⟩, ?_, ?_⟩
    · intro j pc hj
      exact permissions_eq_zero hs (hs.adding hi).1 hj
    · intro j u rest' task' hj
      exact hs.adding_unique hj hi
  · have hactive : t ∈ s.queue.active := mem_total.mpr ⟨j, pc, hj, ht⟩
    obtain ⟨hfree, hlog⟩ := startedLog_eq_filter hs hc hactive
    obtain ⟨hindex, hraw⟩ := hc.idle hfree
    rw [← hlog]
    exact Prod.ext hindex hraw

/-- The theorem at a `Search` that starts after an `Add` of one row. -/
theorem search_after_add : ∃ s : State ℕ,
    Reachable [.add ⟨[7], true⟩, .search] s ∧ s.threads[1]? = some (.reading 1 [] false) ∧
    s.index = [7] ∧
    s.data = (rowsOf (s.log.filter fun e => e.1 < 1), rawOf (s.log.filter fun e => e.1 < 1)) := by
  let s : State ℕ :=
    { nextTaskId := 2, currentTaskId := 1, activeReaders := 1, index := [7], rawData := [7],
      threads := [.addUnlocked, .reading 1 [] false], log := [(0, ⟨[7], true⟩)],
      starts := [(0, true), (1, false)] }
  have hrun : (init [.add ⟨[7], true⟩, .search]).run [0, 0, 0, 1] = some s := by decide
  have hreach := reachable_of_run .init hrun
  refine ⟨s, hreach, rfl, rfl, ?_⟩
  exact (add_alone_and_read_earlier _ s hreach).2.2 1 (.reading 1 [] false) 1 rfl (by decide)

end Rvanns.Knowhere.SparseInvertedIndexNodeCC
