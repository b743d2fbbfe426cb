import Mathlib

/-!
# The re-ranking tasks of a batch search

The loop of `MinHashLSH::BatchSearch` that submits one task for each query.
-/

namespace Rvanns.Knowhere.MinHashRerank

/-- `i` is the loop variable, which is gone after the loop; the first `pushed` tasks are in the
pool, those of `ran` have been executed, and `rows` are the output rows that have been filled. -/
structure State (R : Type) where
  i : Option ℕ := some 0
  pushed : ℕ := 0
  ran : List ℕ := []
  rows : ℕ → Option R := fun _ => none

variable {R : Type} (rerank : ℕ → R) (nq : ℕ)

/-- The body of a task, executed in one go: `MinHashJaccardKNNSearchByIDs` for the vector and the
candidates at `i`, into the output row `i`.  It is undefined if `i` is gone or no query. -/
def runTask (s : State R) : Option (State R) :=
  match s.i with
  | some i => if i < nq then some { s with rows := Function.update s.rows i (some (rerank i)) }
    else none
  | none => none

inductive Step : State R → State R → Prop
  | push {s : State R} {i : ℕ} : s.i = some i → i < nq → s.pushed = i →
    Step s { s with pushed := i + 1 }
  | increment {s : State R} {i : ℕ} : s.i = some i → s.pushed = i + 1 →
    Step s { s with i := some (i + 1) }
  | leave {s : State R} : s.i = some nq → Step s { s with i := none }
  | run {s s' : State R} {t : ℕ} : t < s.pushed → t ∉ s.ran → runTask rerank nq s = some s' →
    Step s { s' with ran := t :: s.ran }

def Reachable (s : State R) : Prop := Relation.ReflTransGen (Step rerank nq) {} s

structure Correct : Prop where
  defined : ∀ s, Reachable rerank nq s → ∀ t < s.pushed, t ∉ s.ran →
    (runTask rerank nq s).isSome = true
  filled : ∀ s, Reachable rerank nq s → s.i = none → (∀ t < s.pushed, t ∈ s.ran) →
    ∀ q < nq, s.rows q = some (rerank q)

variable {rerank nq}

lemma Reachable.step (h : Reachable rerank nq s) (hs : Step rerank nq s s') :
    Reachable rerank nq s' :=
  .tail h hs

lemma reachable_turn (hn : n ≤ nq) :
    Reachable rerank nq ({ i := some n, pushed := n } : State R) := by
  induction n with
  | zero => exact .refl
  | succ n ih => exact ((ih (by omega)).step (.push rfl (by omega) rfl)).step (.increment rfl rfl)

lemma reachable_left : Reachable rerank nq ({ i := none, pushed := nq } : State R) :=
  (reachable_turn (Nat.le_refl nq)).step (.leave rfl)

lemma pushed_eq_zero (h : Reachable rerank 0 s) : s.pushed = 0 := by
  induction h with
  | refl => rfl
  | tail _ hstep ih =>
    cases hstep with
    | push _ hlt _ => exact absurd hlt (Nat.not_lt_zero _)
    | increment _ _ => exact ih
    | leave _ => exact ih
    | run hlt _ _ =>
      rw [ih] at hlt
      exact absurd hlt (Nat.not_lt_zero _)

/-- **The re-ranking is correct under all schedules** exactly if there is no query. -/
theorem correct_iff (rerank : ℕ → R) (nq : ℕ) : Correct rerank nq ↔ nq = 0 := by
  constructor
  · intro h
    by_contra hpos
    have hdefined := h.defined _ reachable_left 0 (Nat.pos_of_ne_zero hpos) (List.not_mem_nil)
    exact Bool.false_ne_true hdefined
  · rintro rfl
    refine ⟨fun s hs t ht => ?_, fun s _ _ _ q hq => absurd hq (Nat.not_lt_zero q)⟩
    rw [pushed_eq_zero hs] at ht
    exact absurd ht (Nat.not_lt_zero t)

/-- One query, whose task is executed after the loop. -/
theorem runTask_afterLoop :
    Reachable (fun q => q) 1 ({ i := none, pushed := 1 } : State ℕ) ∧
      runTask (fun q => q) 1 ({ i := none, pushed := 1 } : State ℕ) = none :=
  ⟨reachable_left, rfl⟩

/-- Two queries, and the first task is executed when the loop has come to the second: it fills the
row of the second. -/
example : runTask (fun q => q) 2 ({ i := some 1, pushed := 1 } : State ℕ) =
    some { i := some 1, pushed := 1, rows := Function.update (fun _ => none) 1 (some 1) } := rfl

end Rvanns.Knowhere.MinHashRerank
