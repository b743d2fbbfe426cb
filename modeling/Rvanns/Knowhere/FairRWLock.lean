import Mathlib

/-!
# The fair read-write lock

`FairRWLock` of `rw_lock.h`, used by any number of threads.
-/

namespace Rvanns.Knowhere.FairRWLock

inductive Mode where
  | read
  | write
deriving DecidableEq, Repr

inductive Pc where
  /-- Between two pairs of calls. -/
  | outside
  | waiting (mode : Mode) (id : ℕ)
  /-- Notified; it does not have the mutex yet. -/
  | notified (mode : Mode) (id : ℕ)
  /-- Between `Lock` and `UnLock`. -/
  | holding (mode : Mode)
deriving DecidableEq, Repr

structure Thread where
  pc : Pc
  todo : List Mode
deriving DecidableEq, Repr

structure State where
  idCounter : ℕ := 0
  readers : ℕ := 0
  writer : Bool := false
  writeRequests : List ℕ := []
  threads : List Thread
deriving DecidableEq, Repr

def init (programs : List (List Mode)) : State := { threads := programs.map (⟨.outside, ·⟩) }

def Thread.waitsOn (mode : Mode) (t : Thread) : Bool :=
  match t.pc with
  | .waiting mode' _ => mode' = mode
  | _ => false

def Thread.wake (mode : Mode) (t : Thread) : Thread :=
  match t.pc with
  | .waiting mode' id => if mode' = mode then { t with pc := .notified mode id } else t
  | _ => t

namespace State

variable (s : State)

@[simps] def setThread (i : ℕ) (t : Thread) : State := { s with threads := s.threads.set i t }

def notifyOne (mode : Mode) (pick : ℕ) : Option State :=
  if s.threads.any (·.waitsOn mode) then
    (s.threads[pick]?).bind fun t =>
      if t.waitsOn mode then some (s.setThread pick (t.wake mode)) else none
  else some s

@[simps] def notifyAll (mode : Mode) : State :=
  { s with threads := s.threads.map (Thread.wake mode) }

/-- The predicate of `wait`: `!writer_ && (write_requests_.empty() || write_requests_.front() > id)`
for a reader, `!writer_ && readers_ == 0 && write_requests_.front() == id` for a writer. -/
def predicate : Mode → ℕ → Bool
  | .read, id => !s.writer && s.writeRequests.head?.all (id < ·)
  | .write, id => !s.writer && s.readers == 0 && s.writeRequests.head? == some id

def acquire (i : ℕ) (todo : List Mode) : Mode → State
  | .read => { s with
      readers := s.readers + 1
      threads := s.threads.set i ⟨.holding .read, todo⟩ }
  | .write => { s with
      writer := true
      threads := s.threads.set i ⟨.holding .write, todo⟩ }

def test (i : ℕ) (todo : List Mode) (mode : Mode) (id : ℕ) : State :=
  if s.predicate mode id then s.acquire i todo mode else s.setThread i ⟨.waiting mode id, todo⟩

def issue : Mode → State
  | .read => { s with idCounter := s.idCounter + 1 }
  | .write => { s with
      idCounter := s.idCounter + 1
      writeRequests := s.writeRequests ++ [s.idCounter] }

def lock (i : ℕ) (todo : List Mode) (mode : Mode) : State :=
  (s.issue mode).test i todo mode s.idCounter

@[simps] def leaveRead (i : ℕ) (todo : List Mode) : State :=
  { s with readers := s.readers - 1, threads := s.threads.set i ⟨.outside, todo⟩ }

def unLockRead (i : ℕ) (todo : List Mode) (pick : ℕ) : Option State :=
  let s := s.leaveRead i todo
  if s.readers = 0 ∧ s.writeRequests ≠ [] then s.notifyOne .write pick else some s

@[simps] def leaveWrite (i : ℕ) (todo : List Mode) : State :=
  { s with
    writer := false
    writeRequests := s.writeRequests.tail
    threads := s.threads.set i ⟨.outside, todo⟩ }

def unLockWrite (i : ℕ) (todo : List Mode) (pick : ℕ) : Option State :=
  let s := s.leaveWrite i todo
  if s.writeRequests ≠ [] then s.notifyOne .write pick else some (s.notifyAll .read)

def step (i pick : ℕ) : Option State :=
  match s.threads[i]? with
  | some ⟨.outside, mode :: todo⟩ => some (s.lock i todo mode)
  | some ⟨.notified mode id, todo⟩ => some (s.test i todo mode id)
  | some ⟨.holding .read, todo⟩ => s.unLockRead i todo pick
  | some ⟨.holding .write, todo⟩ => s.unLockWrite i todo pick
  | some ⟨.outside, []⟩ | some ⟨.waiting _ _, _⟩ | none => none

def run : State → List (ℕ × ℕ) → Option State
  | s, [] => some s
  | s, (i, pick) :: schedule => (s.step i pick).bind fun s' => s'.run schedule

end State

inductive Reachable (programs : List (List Mode)) : State → Prop
  | init : Reachable programs (init programs)
  | step {s s' : State} {i pick : ℕ} :
      Reachable programs s → s.step i pick = some s' → Reachable programs s'

def Thread.waits (t : Thread) : Bool :=
  match t.pc with
  | .waiting _ _ | .notified _ _ => true
  | _ => false

def Thread.holds (t : Thread) : Bool :=
  match t.pc with
  | .holding _ => true
  | _ => false

def State.ready (s : State) (t : Thread) : Bool :=
  match t.pc with
  | .notified mode id => s.predicate mode id
  | _ => false

def State.Stuck (s : State) : Prop :=
  (∀ t ∈ s.threads, t.holds = false) ∧ (∃ t ∈ s.threads, t.waits = true) ∧
    ∀ t ∈ s.threads, s.ready t = false

instance (s : State) : Decidable s.Stuck := inferInstanceAs (Decidable (_ ∧ _ ∧ _))

end Rvanns.Knowhere.FairRWLock
