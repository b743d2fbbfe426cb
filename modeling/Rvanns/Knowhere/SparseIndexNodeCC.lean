import Mathlib

/-!
# The concurrent sparse node

`SparseInvertedIndexNodeCC` of `sparse_index_node.cc`.
-/

namespace Rvanns.Knowhere.SparseInvertedIndexNodeCC

variable {ρ : Type}

structure AddTask (ρ : Type) where
  rows : List ρ
  metricIP : Bool
deriving DecidableEq

def AddTask.raw (task : AddTask ρ) : List ρ := if task.metricIP then task.rows else []

inductive Call (ρ : Type) where
  | add (task : AddTask ρ)
  | search
  | annIterator
  | getVectorByIds
  | rangeSearch (rangeSearchK : ℤ)
deriving DecidableEq

/-- The program point of a call.  `held` are the tickets of the permissions that the call holds
already, `nested` says that the call takes another one while it holds the next. -/
inductive Pc (ρ : Type) where
  | addStart (task : AddTask ρ)
  | addWaiting (taskId : ℕ) (task : AddTask ρ)
  /-- Out of `wait`, before the mutex is taken and the predicate tested. -/
  | addWoken (taskId : ℕ) (task : AddTask ρ)
  /-- Has the mutex; `rest` is not in the index yet. -/
  | adding (taskId : ℕ) (rest : List ρ) (task : AddTask ρ)
  /-- After `lock.unlock()`, before `cv_.notify_all()`. -/
  | addUnlocked
  | acquire (held : List ℕ) (nested : Bool)
  | readWaiting (held : List ℕ) (nested : Bool) (taskId : ℕ)
  | readWoken (held : List ℕ) (nested : Bool) (taskId : ℕ)
  /-- Holds the permission `taskId` and those of `held`. -/
  | reading (taskId : ℕ) (held : List ℕ) (nested : Bool)
  | done
deriving DecidableEq

def Call.start : Call ρ → Pc ρ
  | .add task => .addStart task
  | .search | .annIterator | .getVectorByIds => .acquire [] false
  | .rangeSearch rangeSearchK => .acquire [] (rangeSearchK != 0)

def Pc.wake : Pc ρ → Pc ρ
  | .addWaiting t task => .addWoken t task
  | .readWaiting held nested t => .readWoken held nested t
  | pc => pc

/-- The fields of the node, the rows of the index, and the threads.  `log` and `starts` are
histories: the `Add`s by ticket, and the tickets in the order in which their tasks started to work
on the index, with `true` for an `Add`. -/
structure State (ρ : Type) where
  mutex : Bool := false
  activeReaders : ℤ := 0
  addTasks : List ℕ := []
  nextTaskId : ℕ := 0
  currentTaskId : ℕ := 0
  index : List ρ := []
  rawData : List ρ := []
  threads : List (Pc ρ)
  log : List (ℕ × AddTask ρ) := []
  starts : List (ℕ × Bool) := []
deriving DecidableEq

def init (calls : List (Call ρ)) : State ρ := { threads := calls.map Call.start }

namespace State

variable (s : State ρ)

def setThread (i : ℕ) (pc : Pc ρ) : State ρ :=
  { s with threads := s.threads.set i pc }

def notifyAll : State ρ := { s with threads := s.threads.map Pc.wake }

def issueAdd (i : ℕ) (task : AddTask ρ) : State ρ :=
  { s with
    nextTaskId := s.nextTaskId + 1
    addTasks := s.addTasks ++ [s.nextTaskId]
    log := s.log ++ [(s.nextTaskId, task)]
    threads := s.threads.set i (.addWoken s.nextTaskId task) }

def addPredicate (taskId : ℕ) : Bool :=
  s.currentTaskId == taskId && s.activeReaders == 0

def startAdd (i taskId : ℕ) (task : AddTask ρ) : State ρ :=
  { s with
    mutex := true
    starts := s.starts ++ [(taskId, true)]
    threads := s.threads.set i (.adding taskId task.rows task) }

def testAdd (i taskId : ℕ) (task : AddTask ρ) : State ρ :=
  if s.addPredicate taskId then s.startAdd i taskId task
  else s.setThread i (.addWaiting taskId task)

def addRow (i taskId : ℕ) (row : ρ) (rest : List ρ) (task : AddTask ρ) : State ρ :=
  { s with
    index := s.index ++ [row]
    threads := s.threads.set i (.adding taskId rest task) }

def finishAdd (i : ℕ) (task : AddTask ρ) : State ρ :=
  { s with
    rawData := s.rawData ++ task.raw
    addTasks := s.addTasks.tail
    currentTaskId := s.currentTaskId + 1
    mutex := false
    threads := s.threads.set i .addUnlocked }

def issueRead (i : ℕ) (held : List ℕ) (nested : Bool) : State ρ :=
  { s with
    nextTaskId := s.nextTaskId + 1
    threads := s.threads.set i (.readWoken held nested s.nextTaskId) }

def readPredicate (taskId : ℕ) : Bool :=
  s.addTasks.head?.all fun front => taskId < front

def startRead (i : ℕ) (held : List ℕ) (nested : Bool) (taskId : ℕ) : State ρ :=
  { s with
    activeReaders := s.activeReaders + 1
    starts := s.starts ++ [(taskId, false)]
    threads := s.threads.set i (.reading taskId held nested) }

def testRead (i : ℕ) (held : List ℕ) (nested : Bool) (taskId : ℕ) : State ρ :=
  if s.readPredicate taskId then s.startRead i held nested taskId
  else s.setThread i (.readWaiting held nested taskId)

def enterRead (i : ℕ) (held : List ℕ) (nested : Bool) (taskId : ℕ) : State ρ :=
  if s.addTasks.head?.any fun front => front < taskId then s.testRead i held nested taskId
  else s.startRead i held nested taskId

def afterRead : List ℕ → Pc ρ
  | [] => .done
  | taskId :: held => .reading taskId held false

def finishRead (i : ℕ) (held : List ℕ) : State ρ :=
  notifyAll
    { s with
      activeReaders := s.activeReaders - 1
      currentTaskId := s.currentTaskId + 1
      threads := s.threads.set i (afterRead held) }

def step (i : ℕ) : Option (State ρ) :=
  match s.threads[i]? with
  | some (.addStart task) =>
    if s.mutex then none else some ((s.issueAdd i task).testAdd i s.nextTaskId task)
  | some (.addWoken t task) => if s.mutex then none else some (s.testAdd i t task)
  | some (.adding t (row :: rest) task) => some (s.addRow i t row rest task)
  | some (.adding _ [] task) => some (s.finishAdd i task)
  | some .addUnlocked => some (s.setThread i .done).notifyAll
  | some (.acquire held nested) =>
    if s.mutex then none
    else some ((s.issueRead i held nested).enterRead i held nested s.nextTaskId)
  | some (.readWoken held nested t) => if s.mutex then none else some (s.testRead i held nested t)
  -- The base class's `RangeSearch` calls `AnnIterator`.
  | some (.reading t held true) => some (s.setThread i (.acquire (t :: held) false))
  | some (.reading _ held false) => if s.mutex then none else some (s.finishRead i held)
  | some (.addWaiting _ _) | some (.readWaiting _ _ _) | some .done | none => none

def run (s : State ρ) : List ℕ → Option (State ρ)
  | [] => some s
  | i :: schedule => (s.step i).bind fun s' => s'.run schedule

def wakeUp (i : ℕ) : State ρ :=
  match s.threads[i]? with
  | some pc => s.setThread i pc.wake
  | none => s

end State

inductive Reachable (calls : List (Call ρ)) : State ρ → Prop
  | init : Reachable calls (init calls)
  | step {s s' : State ρ} {i : ℕ} : Reachable calls s → s.step i = some s' → Reachable calls s'
  | wakeUp {s : State ρ} (i : ℕ) : Reachable calls s → Reachable calls (s.wakeUp i)

def Deadlock (s : State ρ) : Prop :=
  (∃ (i : ℕ) (pc : Pc ρ), s.threads[i]? = some pc ∧ pc ≠ .done) ∧ ∀ i, s.step i = none

end Rvanns.Knowhere.SparseInvertedIndexNodeCC
