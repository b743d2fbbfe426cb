import Rvanns.Cpp.BinaryHeap

/-!
# Result heaps of (distance, id) pairs

The comparison classes `CMin` and `CMax` of `ordered_key_value.h` and the heap operations of
`utils/Heap.h` on an array of `std::pair`s.
-/

namespace Rvanns.Faiss

open Cpp

variable {F : Type*} [LinearOrder F]

structure Cmp (F : Type*) where
  isMax : Bool
  /-- `C::neutral()`, the worst distance. -/
  neutral : F

structure NumericLimits (F : Type*) where
  lowest : F
  max : F

def CMin (limits : NumericLimits F) : Cmp F := ⟨false, limits.lowest⟩

def CMax (limits : NumericLimits F) : Cmp F := ⟨true, limits.max⟩

namespace Cmp

def cmp (C : Cmp F) (a b : F) : Bool :=
  if C.isMax then decide (b < a) else decide (a < b)

def cmp2 (C : Cmp F) (a1 b1 : F) (a2 b2 : ℤ) : Bool :=
  if C.isMax then decide (b1 < a1) || (a1 == b1 && decide (b2 < a2))
  else decide (a1 < b1) || (a1 == b1 && decide (a2 < b2))

def above (C : Cmp F) (a b : F × ℤ) : Bool := C.cmp2 a.1 b.1 a.2 b.2

end Cmp

def heapPush (C : Cmp F) (k : ℕ) (bh : ℕ → F × ℤ) (val : F) (id : ℤ) : ℕ → F × ℤ :=
  siftUp C.above (val, id) k bh k

def heapReplaceTop (C : Cmp F) (k : ℕ) (bh : ℕ → F × ℤ) (val : F) (id : ℤ) : ℕ → F × ℤ :=
  siftDown C.above k (val, id) bh

/-- The hole left by the top sinks as if the last element were to fill it, and is then filled with
what the last cell holds.  Cell `k` is not part of the remaining heap. -/
def heapPop (C : Cmp F) (k : ℕ) (bh : ℕ → F × ℤ) : ℕ → F × ℤ :=
  let (bh', i) := sinkHole C.above k (bh k) k bh 1
  Function.update bh' i (bh' k)

lemma Cmp.cmp_strictWeak (C : Cmp F) : StrictWeak C.cmp := by
  cases hC : C.isMax with
  | true =>
    refine StrictWeak.of_key OrderDual.toDual fun a b => ?_
    simp [Cmp.cmp, hC]
  | false =>
    refine StrictWeak.of_key id fun a b => ?_
    simp [Cmp.cmp, hC]

lemma Cmp.above_iff (C : Cmp F) (a b : F × ℤ) :
    C.above a b ↔ C.cmp a.1 b.1 ∨ a.1 = b.1 ∧ (if C.isMax then b.2 < a.2 else a.2 < b.2) := by
  cases hC : C.isMax <;> simp [Cmp.above, Cmp.cmp2, Cmp.cmp, hC]

lemma Cmp.cmp_total (C : Cmp F) (hab : ¬ C.cmp a b) (hba : ¬ C.cmp b a) : a = b := by
  cases hC : C.isMax with
  | true =>
    simp only [Cmp.cmp, hC, if_true, decide_eq_true_eq, not_lt] at hab hba
    exact le_antisymm hab hba
  | false =>
    simp only [Cmp.cmp, hC, Bool.false_eq_true, if_false, decide_eq_true_eq, not_lt] at hab hba
    exact le_antisymm hba hab

lemma Cmp.not_cmp_of_not_above (C : Cmp F) (h : ¬ C.above a b) : ¬ C.cmp a.1 b.1 := by
  rw [C.above_iff, not_or] at h
  exact h.1

lemma Cmp.above_strictWeak (C : Cmp F) : StrictWeak C.above := by
  constructor
  · intro a b hab hba
    rw [C.above_iff] at hab hba
    rcases hab with hab | ⟨hab, hid⟩
    · rcases hba with hba | ⟨hba, -⟩
      · exact C.cmp_strictWeak.asymm hab hba
      · rw [hba] at hab
        exact C.cmp_strictWeak.irrefl _ hab
    · rcases hba with hba | ⟨-, hid'⟩
      · rw [hab] at hba
        exact C.cmp_strictWeak.irrefl _ hba
      · split_ifs at hid hid' <;> omega
  · intro a b c hab hbc hac
    have hab1 := C.not_cmp_of_not_above hab
    have hbc1 := C.not_cmp_of_not_above hbc
    rw [C.above_iff] at hab hbc hac
    rcases hac with hac | ⟨hac, hid⟩
    · exact C.cmp_strictWeak.negTrans hab1 hbc1 hac
    · -- The three distances coincide, and the ids contradict one another.
      have h1 : a.1 = b.1 := by
        refine C.cmp_total hab1 fun hba => ?_
        exact hbc1 (hac ▸ hba)
      rw [not_or, not_and] at hab hbc
      have hab2 := hab.2 h1
      have hbc2 := hbc.2 (h1 ▸ hac)
      split_ifs at hid hab2 hbc2 <;> omega

/-! ### Heaps over arrays of distances and ids -/

section

variable {F : Type} [LinearOrder F]

def heapHeapify (C : Cmp F) (k : ℕ) (x : ℕ → Option F) (ids : ℕ → Option ℤ) (k0 : ℕ)
    (bh : ℕ → F × ℤ) : Option (ℕ → F × ℤ) := do
  let bh ← (List.range k0).foldlM (fun bh i => do
    let val ← x i
    let id ← ids i
    return heapPush C (i + 1) bh val id) bh
  return fun j => if k0 < j ∧ j ≤ k then (C.neutral, -1) else bh j

def heapAddn (C : Cmp F) (k : ℕ) (x : ℕ → Option F) (ids : ℕ → Option ℤ) (n : ℕ)
    (bh : ℕ → F × ℤ) : Option (ℕ → F × ℤ) :=
  (List.range n).foldlM (fun bh i => do
    let val ← x i
    if C.cmp (bh 1).1 val then do
      let id ← ids i
      return heapReplaceTop C k bh val id
    else return bh) bh

/-- One turn of `heap_reorder`: the top goes to the end of what is still to be filled, where the
next turn overwrites it if it is not a true element.  The state is the block and `ii`. -/
def reorderStep (C : Cmp F) (k : ℕ) (s : (ℕ → F × ℤ) × ℕ) (i : ℕ) : (ℕ → F × ℤ) × ℕ :=
  let top := s.1 1
  (Function.update (heapPop C (k - i) s.1) (k - s.2) top, if top.2 ≠ -1 then s.2 + 1 else s.2)

def heapReorder (C : Cmp F) (k : ℕ) (bh : ℕ → F × ℤ) : List (F × ℤ) :=
  let (bh, ii) := (List.range k).foldl (reorderStep C k) (bh, 0)
  (List.range ii).map (fun j => bh (k - ii + j + 1)) ++ List.replicate (k - ii) (C.neutral, -1)

def reorder2Heaps (C : Cmp F) (k kBase : ℕ) (baseLabels : ℕ → Option ℤ)
    (baseDistances : ℕ → Option F) (bh : ℕ → F × ℤ) : Option (List (F × ℤ)) := do
  let bh ← heapHeapify C k baseDistances baseLabels k bh
  let bh ← if kBase ≠ k then
      heapAddn C k (fun i => baseDistances (k + i)) (fun i => baseLabels (k + i))
        ((kBase + 2 ^ 64 - k) % 2 ^ 64) bh
    else some bh
  return heapReorder C k bh

end

end Rvanns.Faiss
