import Rvanns.Knowhere.Status

/-!
# Threads that use a data view refined index

`IndexNodeWithDataViewRefiner` while `Add`, `Search` and `AnnIterator` run and iterators are
advanced. Of the lock only the exclusion between its readers and its writer is used.
-/

namespace Rvanns.Knowhere.RefinerThreads

open Function

inductive Call where
  | add
  | search
  | annIterator
  /-- `Next` or `HasNext` of an iterator. -/
  | advance

inductive Pc where
  | outside
  /-- In `Add`, with the sizes of the blocks that are left. -/
  | adding (blocks : List ℕ)
  /-- In `refine_offset_index_->Add`, between the norms and the count. -/
  | counting (size : ℕ) (blocks : List ℕ)
  | locking (size : ℕ) (blocks : List ℕ)
  /-- In `base_index_->Add`. -/
  | baseAdd (size : ℕ) (blocks : List ℕ)
  /-- In `base_index_->Search`. -/
  | baseSearch
  /-- In `SearchWithIds` of the refiner, with what the base index has found. -/
  | refining (ids : List ℕ)
  /-- In `base_index_->AnnIterator`. -/
  | baseAnnIterator
  /-- In a method of the base iterator. -/
  | baseAdvance

/-- Holds `base_index_lock_` for reading. -/
def Pc.locksRead : Pc → Prop
  | .baseSearch | .baseAnnIterator => True
  | _ => False

/-- Holds `base_index_lock_` for writing. -/
def Pc.locksWrite : Pc → Prop
  | .baseAdd _ _ => True
  | _ => False

/-- Runs code that reads the base index, under the lock or not. -/
def Pc.readsBase : Pc → Prop
  | .baseSearch | .baseAnnIterator | .baseAdvance => True
  | _ => False

structure State where
  /-- Rows and norms of the refiner, and rows of the base index. -/
  ntotal : ℕ := 0
  norms : ℕ := 0
  baseCount : ℕ := 0
  /-- An iterator has been handed out. -/
  iterators : Bool := false
  pc : ℕ → Pc := fun _ => .outside

def State.goto (s : State) (t : ℕ) (pc : Pc) : State := { s with pc := Function.update s.pc t pc }

def kBatchSize : ℕ := 4096

def blockSizes (rows : ℕ) : List ℕ :=
  List.replicate (rows / kBatchSize) kBatchSize ++
    if rows % kBatchSize = 0 then [] else [rows % kBatchSize]

section

variable (isCosine : Bool) (may : ℕ → Call → Prop) (t : ℕ) (s : State)

/-- Thread `t` makes the calls `may t`. -/
inductive Step : State → Prop
  | beginAdd (rows : ℕ) (h : s.pc t = .outside) (hmay : may t .add) :
      Step (s.goto t (.adding (blockSizes rows)))
  | addNorms (size : ℕ) (blocks : List ℕ) (h : s.pc t = .adding (size :: blocks)) :
      Step { s.goto t (.counting size blocks) with
        norms := s.norms + if isCosine then size else 0 }
  | addCount (size : ℕ) (blocks : List ℕ) (h : s.pc t = .counting size blocks) :
      Step { s.goto t (.locking size blocks) with ntotal := s.ntotal + size }
  | lockWrite (size : ℕ) (blocks : List ℕ) (h : s.pc t = .locking size blocks)
      (hfree : ∀ u, ¬ (s.pc u).locksRead ∧ ¬ (s.pc u).locksWrite) :
      Step (s.goto t (.baseAdd size blocks))
  | unLockWrite (size : ℕ) (blocks : List ℕ) (h : s.pc t = .baseAdd size blocks) :
      Step { s.goto t (.adding blocks) with baseCount := s.baseCount + size }
  | endAdd (h : s.pc t = .adding []) : Step (s.goto t .outside)
  | search (h : s.pc t = .outside) (hmay : may t .search) (hfree : ∀ u, ¬ (s.pc u).locksWrite) :
      Step (s.goto t .baseSearch)
  | refine (ids : List ℕ) (h : s.pc t = .baseSearch) (hids : ∀ id ∈ ids, id < s.baseCount) :
      Step (s.goto t (.refining ids))
  | endSearch (ids : List ℕ) (h : s.pc t = .refining ids) : Step (s.goto t .outside)
  | annIterator (h : s.pc t = .outside) (hmay : may t .annIterator)
      (hfree : ∀ u, ¬ (s.pc u).locksWrite) : Step (s.goto t .baseAnnIterator)
  | handOut (h : s.pc t = .baseAnnIterator) : Step { s.goto t .outside with iterators := true }
  | advance (h : s.pc t = .outside) (hmay : may t .advance) (hiter : s.iterators = true) :
      Step (s.goto t .baseAdvance)
  | endAdvance (h : s.pc t = .baseAdvance) : Step (s.goto t .outside)

end

def Reachable (isCosine : Bool) (may : ℕ → Call → Prop) : State → Prop :=
  Relation.ReflTransGen (fun s s' => ∃ t, Step isCosine may t s s') {}

/-! ### Steps of `Add` that fail -/

/-- A block of `Add`, and how its steps end. -/
structure Block where
  size : ℕ
  quantizerFails : Bool
  baseStatus : Status

def Block.Fails (b : Block) : Prop := b.quantizerFails = true ∨ b.baseStatus ≠ .success

/-- A failed `base_index_->Add` adds nothing. The refiner makes an exception of its quantizer into
a `runtime_error` that it does not throw, and counts the rows. -/
def addBlocks (isCosine : Bool) : List Block → State → State × Status
  | [], s => (s, .success)
  | b :: blocks, s =>
    let s := { s with
      norms := s.norms + if isCosine then b.size else 0
      ntotal := s.ntotal + b.size }
    if b.baseStatus = .success then
      addBlocks isCosine blocks { s with baseCount := s.baseCount + b.size }
    else (s, b.baseStatus)

end Rvanns.Knowhere.RefinerThreads
