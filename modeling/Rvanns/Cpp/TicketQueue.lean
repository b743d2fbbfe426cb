import Rvanns.Cpp.Vector

/-!
# Ticket queues of readers and writers

Tasks draw tickets from a counter.
-/

namespace Rvanns.Cpp

open List
open Multiset (add_cons card_cons cons_add cons_erase mem_add mem_cons mem_cons_self mem_toFinset
  nodup_cons notMem_zero toFinset_card_of_nodup)

structure TicketQueue where
  next : ℕ := 0
  finished : ℕ := 0
  /-- The writers that are not finished, in the order of the queue. -/
  writers : List ℕ := []
  waiting : Multiset ℕ := 0
  active : Multiset ℕ := 0
  /-- The first writer of the queue is writing. -/
  writing : Bool := false
  starts : List (ℕ × Bool) := []

namespace TicketQueue

variable (q : TicketQueue)

def live : Multiset ℕ := (q.writers : Multiset ℕ) + q.waiting + q.active

def pendingWriters : List ℕ := if q.writing then q.writers.tail else q.writers

def startedWriters : List ℕ := (q.starts.filter Prod.snd).map Prod.fst

/-! ### What a task can do -/

def issueWriter : TicketQueue := { q with next := q.next + 1, writers := q.writers ++ [q.next] }

def issueReader : TicketQueue := { q with next := q.next + 1, waiting := q.next ::ₘ q.waiting }

def startWriter (t : ℕ) : TicketQueue :=
  { q with writing := true, starts := q.starts ++ [(t, true)] }

def startReader (t : ℕ) : TicketQueue :=
  { q with
    waiting := q.waiting.erase t
    active := t ::ₘ q.active
    starts := q.starts ++ [(t, false)] }

def finishWriter : TicketQueue :=
  { q with finished := q.finished + 1, writers := q.writers.tail, writing := false }

def finishReader (t : ℕ) : TicketQueue :=
  { q with finished := q.finished + 1, active := q.active.erase t }

def MayRead (t : ℕ) : Prop := ∀ a ∈ q.writers.head?, t < a

def MayWrite (t : ℕ) : Prop := q.finished = t ∧ q.active = 0

/-! ### The invariant -/

structure Inv : Prop where
  sorted : q.writers.Pairwise (· < ·)
  nodup : q.live.Nodup
  lt_next : ∀ t ∈ q.live, t < q.next
  count : q.next = q.finished + q.live.card
  /-- Nothing behind the first queued writer is finished. -/
  behind : ∀ a ∈ q.writers.head?, ∀ t, a ≤ t → t < q.next → t ∈ q.live
  active_lt : ∀ a ∈ q.writers.head?, ∀ t ∈ q.active, t < a
  alone : q.writing = true → ∃ a ∈ q.writers.head?, q.finished = a ∧ q.active = 0
  started_lt : ∀ x ∈ q.starts, x.1 < q.next
  inOrder : q.starts.Pairwise fun x y => x.2 = true ∨ y.2 = true → x.1 < y.1
  started_lt_writer : ∀ x ∈ q.starts, ∀ a ∈ q.pendingWriters, x.1 < a
  started_lt_reader : ∀ x ∈ q.starts, x.2 = true → ∀ t ∈ q.waiting + q.active, x.1 < t

lemma inv_empty : ({} : TicketQueue).Inv where
  sorted := .nil
  nodup := Multiset.nodup_zero
  lt_next := fun t ht => by simp [live] at ht
  count := rfl
  behind := fun a ha => by simp at ha
  active_lt := fun a ha => by simp at ha
  alone := fun h => by simp at h
  started_lt := fun x hx => by simp at hx
  inOrder := .nil
  started_lt_writer := fun x hx => by simp at hx
  started_lt_reader := fun x hx => by simp at hx

variable {q}

lemma mem_live : t ∈ q.live ↔ t ∈ q.writers ∨ t ∈ q.waiting ∨ t ∈ q.active := by
  simp [live, or_assoc]

lemma mem_of_mem_pendingWriters (h : a ∈ q.pendingWriters) : a ∈ q.writers := by
  unfold pendingWriters at h
  split_ifs at h
  · exact mem_of_mem_tail h
  · exact h

/-! ### The tickets after each action -/

lemma live_issueWriter : q.issueWriter.live = q.next ::ₘ q.live := by
  unfold live issueWriter
  rw [← Multiset.coe_add, Multiset.add_comm (q.writers : Multiset ℕ), Multiset.coe_singleton,
    ← Multiset.singleton_add]
  simp only [add_assoc]

lemma live_issueReader : q.issueReader.live = q.next ::ₘ q.live := by
  unfold live issueReader
  rw [add_cons, cons_add]

lemma live_startReader (ht : t ∈ q.waiting) : (q.startReader t).live = q.live := by
  unfold live startReader
  have hcons := cons_erase ht
  rw [add_cons, ← cons_add, ← add_cons, hcons]

lemma live_finishWriter (ha : a ∈ q.writers.head?) : q.live = a ::ₘ q.finishWriter.live := by
  obtain ⟨rest, hw⟩ : ∃ rest, q.writers = a :: rest := ⟨q.writers.tail, (cons_head?_tail ha).symm⟩
  unfold live finishWriter
  rw [hw, tail_cons, ← Multiset.cons_coe, cons_add, cons_add]

lemma live_finishReader (ht : t ∈ q.active) : q.live = t ::ₘ (q.finishReader t).live := by
  unfold live finishReader
  have hcons := cons_erase ht
  rw [← add_cons, hcons]

lemma mem_head_issueWriter (ha : a ∈ q.issueWriter.writers.head?) :
    a ∈ q.writers.head? ∨ a = q.next := by
  have ha' : a ∈ (q.writers ++ [q.next]).head? := ha
  cases hw : q.writers with
  | nil => exact .inr (by simpa [hw, eq_comm] using ha')
  | cons b rest => exact .inl (by simpa [hw] using ha')

lemma mem_pendingWriters_issueWriter (h : q.Inv) (ha : a ∈ q.issueWriter.pendingWriters) :
    a ∈ q.pendingWriters ∨ a = q.next := by
  unfold pendingWriters issueWriter at ha
  unfold pendingWriters
  split_ifs at ha ⊢ with hw
  · obtain ⟨b, hb, -⟩ := h.alone hw
    have hne : q.writers ≠ [] := by rintro hnil; simp [hnil] at hb
    rw [tail_append_of_ne_nil hne] at ha
    simpa using ha
  · simpa using ha

/-! ### Every action keeps the invariant -/

namespace Inv

variable (h : q.Inv)

include h

lemma Ico_subset (ha : a ∈ q.writers.head?) : Finset.Ico a q.next ⊆ q.live.toFinset := by
  intro t ht
  obtain ⟨hat, htn⟩ := Finset.mem_Ico.mp ht
  exact mem_toFinset.mpr (h.behind a ha t hat htn)

lemma finished_le (ha : a ∈ q.writers.head?) : q.finished ≤ a := by
  have hcard := Finset.card_le_card (h.Ico_subset ha)
  rw [Nat.card_Ico, toFinset_card_of_nodup h.nodup] at hcard
  have hcount := h.count
  omega

lemma le_of_finished_eq (ha : a ∈ q.writers.head?) (hfin : q.finished = a) (ht : t ∈ q.live) :
    a ≤ t := by
  have hcard : q.live.toFinset.card ≤ (Finset.Ico a q.next).card := by
    rw [Nat.card_Ico, toFinset_card_of_nodup h.nodup]
    have := h.count
    omega
  have heq := Finset.eq_of_subset_of_card_le (h.Ico_subset ha) hcard
  have hmem : t ∈ Finset.Ico a q.next := heq ▸ mem_toFinset.mpr ht
  exact (Finset.mem_Ico.mp hmem).1

lemma lt_of_mem_tail (ha : a ∈ q.writers.head?) (ht : t ∈ q.writers.tail) : a < t := by
  have hsorted := h.sorted
  rw [← cons_head?_tail ha] at hsorted
  exact (pairwise_cons.mp hsorted).1 t ht

lemma exists_head_le (ht : t ∈ q.writers) : ∃ a ∈ q.writers.head?, a ≤ t := by
  obtain ⟨a, ha⟩ := Option.isSome_iff_exists.mp (isSome_head?.mpr (ne_nil_of_mem ht))
  refine ⟨a, ha, ?_⟩
  rw [← cons_head?_tail ha] at ht
  rcases mem_cons.mp ht with rfl | hrest
  · exact le_rfl
  · exact (h.lt_of_mem_tail ha hrest).le

lemma head_of_mayWrite (ht : t ∈ q.writers) (hmay : q.MayWrite t) : t ∈ q.writers.head? := by
  obtain ⟨a, ha, hle⟩ := h.exists_head_le ht
  have hfin := h.finished_le ha
  obtain rfl : a = t := le_antisymm hle (hmay.1 ▸ hfin)
  exact ha

lemma nodup_cons_next : (q.next ::ₘ q.live).Nodup :=
  nodup_cons.mpr ⟨fun hmem => lt_irrefl _ (h.lt_next _ hmem), h.nodup⟩

lemma lt_of_mem_cons_next (ht : t ∈ q.next ::ₘ q.live) : t < q.next + 1 := by
  rcases mem_cons.mp ht with rfl | hold
  · exact Nat.lt_succ_self _
  · exact Nat.lt_succ_of_lt (h.lt_next t hold)

lemma count_cons_next : q.next + 1 = q.finished + (q.next ::ₘ q.live).card := by
  rw [card_cons]
  have := h.count
  omega

omit h in
lemma mem_cons_next (hold : t < q.next → t ∈ q.live) (ht : t < q.next + 1) :
    t ∈ q.next ::ₘ q.live := by
  rcases Nat.lt_succ_iff_lt_or_eq.mp ht with hlt | rfl
  · exact Multiset.mem_cons_of_mem (hold hlt)
  · exact mem_cons_self _ _

lemma count_of_cons (hlive : q.live = t ::ₘ rest) : q.next = q.finished + 1 + rest.card := by
  have hcount := h.count
  rw [hlive, card_cons] at hcount
  omega

lemma issueWriter : q.issueWriter.Inv where
  sorted := by
    exact pairwise_concat.mpr ⟨h.sorted, fun a ha => h.lt_next a (mem_live.mpr (.inl ha))⟩
  nodup := live_issueWriter ▸ h.nodup_cons_next
  lt_next := fun t ht => h.lt_of_mem_cons_next (live_issueWriter ▸ ht)
  count := live_issueWriter ▸ h.count_cons_next
  behind := by
    intro a ha t hat htn
    rw [live_issueWriter]
    refine mem_cons_next (fun hlt => ?_) htn
    -- The first writer was in the queue before: the new ticket is not below `t`.
    rcases mem_head_issueWriter ha with hb | rfl
    · exact h.behind a hb t hat hlt
    · omega
  active_lt := by
    intro a ha t ht
    rcases mem_head_issueWriter ha with hb | rfl
    · exact h.active_lt a hb t ht
    · exact h.lt_next t (mem_live.mpr (.inr (.inr ht)))
  alone := by
    intro hwriting
    obtain ⟨a, ha, hfin, hact⟩ := h.alone hwriting
    exact ⟨a, mem_head?_append_of_mem_head? ha, hfin, hact⟩
  started_lt := fun x hx => Nat.lt_succ_of_lt (h.started_lt x hx)
  inOrder := h.inOrder
  started_lt_writer := by
    intro x hx a ha
    rcases mem_pendingWriters_issueWriter h ha with hold | rfl
    · exact h.started_lt_writer x hx a hold
    · exact h.started_lt x hx
  started_lt_reader := h.started_lt_reader

lemma issueReader : q.issueReader.Inv where
  sorted := h.sorted
  nodup := live_issueReader ▸ h.nodup_cons_next
  lt_next := fun t ht => h.lt_of_mem_cons_next (live_issueReader ▸ ht)
  count := live_issueReader ▸ h.count_cons_next
  behind := by
    intro a ha t hat htn
    rw [live_issueReader]
    exact mem_cons_next (h.behind a ha t hat) htn
  active_lt := h.active_lt
  alone := h.alone
  started_lt := fun x hx => Nat.lt_succ_of_lt (h.started_lt x hx)
  inOrder := h.inOrder
  started_lt_writer := h.started_lt_writer
  started_lt_reader := by
    intro x hx hwriter t ht
    have ht' : t ∈ q.next ::ₘ q.waiting + q.active := ht
    rw [cons_add] at ht'
    rcases mem_cons.mp ht' with rfl | hold
    · exact h.started_lt x hx
    · exact h.started_lt_reader x hx hwriter t hold

lemma startWriter (ht : t ∈ q.writers) (hfree : q.writing = false)
    (hmay : q.MayWrite t) : (q.startWriter t).Inv := by
  have hhead := h.head_of_mayWrite ht hmay
  have hpending : q.pendingWriters = q.writers := by simp [pendingWriters, hfree]
  have hbefore : ∀ x ∈ q.starts, x.1 < t := fun x hx =>
    h.started_lt_writer x hx t (hpending ▸ ht)
  -- Every reader with a ticket comes after the writer that starts.
  have hreaders : ∀ s ∈ q.waiting + q.active, t < s := by
    intro s hs
    have hs' := mem_add.mp hs
    have hle : t ≤ s := h.le_of_finished_eq hhead hmay.1 (mem_live.mpr (.inr hs'))
    have hdisj : Disjoint (q.writers : Multiset ℕ) (q.waiting + q.active) := by
      have hnodup := h.nodup
      unfold live at hnodup
      rw [add_assoc] at hnodup
      exact (Multiset.nodup_add.mp hnodup).2.2
    have hne : t ≠ s := by
      rintro rfl
      exact Multiset.disjoint_left.mp hdisj (Multiset.mem_coe.mpr ht) hs
    omega
  exact
    { sorted := h.sorted
      nodup := h.nodup
      lt_next := h.lt_next
      count := h.count
      behind := h.behind
      active_lt := h.active_lt
      alone := fun _ => ⟨t, hhead, hmay.1, hmay.2⟩
      started_lt := forall_mem_concat.mpr ⟨h.started_lt, h.lt_next t (mem_live.mpr (.inl ht))⟩
      inOrder := pairwise_concat.mpr ⟨h.inOrder, fun x hx _ => hbefore x hx⟩
      started_lt_writer := by
        have hlt : ∀ a ∈ q.writers.tail, t < a := fun a ha => h.lt_of_mem_tail hhead ha
        exact forall_mem_concat.mpr ⟨fun x hx a ha => (hbefore x hx).trans (hlt a ha), hlt⟩
      started_lt_reader := forall_mem_concat.mpr ⟨h.started_lt_reader, fun _ => hreaders⟩ }

lemma startReader (ht : t ∈ q.waiting) (hfree : q.writing = false)
    (hmay : q.MayRead t) : (q.startReader t).Inv where
  sorted := h.sorted
  nodup := live_startReader ht ▸ h.nodup
  lt_next := live_startReader ht ▸ h.lt_next
  count := live_startReader ht ▸ h.count
  behind := live_startReader ht ▸ h.behind
  active_lt := by
    intro a ha s hs
    rcases mem_cons.mp hs with rfl | hold
    · exact hmay a ha
    · exact h.active_lt a ha s hold
  alone := fun hwriting => absurd (hfree.symm.trans hwriting) Bool.false_ne_true
  started_lt :=
    forall_mem_concat.mpr ⟨h.started_lt, h.lt_next t (mem_live.mpr (.inr (.inl ht)))⟩
  inOrder := by
    refine pairwise_concat.mpr ⟨h.inOrder, fun x hx hwriter => ?_⟩
    have hx2 : x.2 = true := by simpa using hwriter
    exact h.started_lt_reader x hx hx2 t (mem_add.mpr (.inl ht))
  started_lt_writer := by
    refine forall_mem_concat.mpr ⟨h.started_lt_writer, fun a ha => ?_⟩
    -- The reader is before the first writer of the queue, hence before all.
    obtain ⟨b, hb, hle⟩ := h.exists_head_le (mem_of_mem_pendingWriters ha)
    exact (hmay b hb).trans_le hle
  started_lt_reader := by
    refine forall_mem_concat.mpr ⟨fun x hx hwriter s hs => ?_, nofun⟩
    apply h.started_lt_reader x hx hwriter s
    rcases mem_add.mp hs with hwait | hact
    · exact mem_add.mpr (.inl (Multiset.mem_of_mem_erase hwait))
    · rcases mem_cons.mp hact with rfl | hact
      · exact mem_add.mpr (.inl ht)
      · exact mem_add.mpr (.inr hact)

lemma finishWriter (hwriting : q.writing = true) : q.finishWriter.Inv := by
  obtain ⟨a, ha, hfin, hact⟩ := h.alone hwriting
  have hlive := live_finishWriter ha
  have hpending : q.pendingWriters = q.writers.tail := by simp [pendingWriters, hwriting]
  exact
    { sorted := h.sorted.tail
      nodup := (nodup_cons.mp (hlive ▸ h.nodup)).2
      lt_next := fun t ht => h.lt_next t (hlive ▸ Multiset.mem_cons_of_mem ht)
      count := h.count_of_cons hlive
      behind := by
        intro b hb t hbt htn
        have hab := h.lt_of_mem_tail ha (mem_of_mem_head? hb)
        have hmem := h.behind a ha t (by omega) htn
        rw [hlive] at hmem
        rcases mem_cons.mp hmem with rfl | hold
        · omega
        · exact hold
      active_lt := fun b _ t ht => absurd (hact ▸ (ht : t ∈ q.active)) (notMem_zero t)
      alone := nofun
      started_lt := h.started_lt
      inOrder := h.inOrder
      started_lt_writer := fun x hx b hb => h.started_lt_writer x hx b (hpending ▸ hb)
      started_lt_reader := h.started_lt_reader }

lemma finishReader (ht : t ∈ q.active) : (q.finishReader t).Inv := by
  have hlive := live_finishReader ht
  have hsub : ∀ s ∈ q.active.erase t, s ∈ q.active := fun s hs => Multiset.mem_of_mem_erase hs
  exact
    { sorted := h.sorted
      nodup := (nodup_cons.mp (hlive ▸ h.nodup)).2
      lt_next := fun s hs => h.lt_next s (hlive ▸ Multiset.mem_cons_of_mem hs)
      count := h.count_of_cons hlive
      behind := by
        intro a ha s has hsn
        have hmem := h.behind a ha s has hsn
        rw [hlive] at hmem
        rcases mem_cons.mp hmem with rfl | hold
        · have := h.active_lt a ha s ht
          omega
        · exact hold
      active_lt := fun a ha s hs => h.active_lt a ha s (hsub s hs)
      alone := by
        intro hwriting
        obtain ⟨a, ha, -, hact⟩ := h.alone hwriting
        exact absurd (hact ▸ ht) (notMem_zero t)
      started_lt := h.started_lt
      inOrder := h.inOrder
      started_lt_writer := h.started_lt_writer
      started_lt_reader := by
        intro x hx hwriter s hs
        apply h.started_lt_reader x hx hwriter s
        rcases mem_add.mp hs with hwait | hact
        · exact mem_add.mpr (.inl hwait)
        · exact mem_add.mpr (.inr (hsub s hact)) }

/-- **Nothing is stuck.**  When no reader is active and none with a ticket below the first queued
writer waits, the first queued writer may write. -/
theorem mayWrite_of_head (ha : a ∈ q.writers.head?) (hact : q.active = 0)
    (hwait : ∀ t ∈ q.waiting, a ≤ t) : q.MayWrite a := by
  refine ⟨?_, hact⟩
  have hsub : q.live.toFinset ⊆ Finset.Ico a q.next := by
    intro t ht
    have ht' := mem_toFinset.mp ht
    refine Finset.mem_Ico.mpr ⟨?_, h.lt_next t ht'⟩
    rcases mem_live.mp ht' with hw | hw | hw
    · obtain ⟨b, hb, hle⟩ := h.exists_head_le hw
      rwa [Option.mem_unique ha hb]
    · exact hwait t hw
    · exact absurd (hact ▸ hw) (notMem_zero t)
  have hcard := Finset.card_le_card hsub
  rw [Nat.card_Ico, toFinset_card_of_nodup h.nodup] at hcard
  have hcount := h.count
  have hle := h.finished_le ha
  have hlt := h.lt_next a (mem_live.mpr (.inl (mem_of_mem_head? ha)))
  omega

end Inv

end TicketQueue

end Rvanns.Cpp
