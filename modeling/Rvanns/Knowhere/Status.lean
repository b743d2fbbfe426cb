import Mathlib

/-!
# Status codes

How a call on an index node can fail: with a status and a message, or with undefined behaviour.
-/

namespace Rvanns.Knowhere

/-- The codes of `enum class Status` that the modelled functions return. -/
inductive Status where
  | success
  | invalidArgs
  | invalidMetricType
  | emptyIndex
  | indexNotTrained
  | faissInnerError
  | invalidBinarySet
  | invalidIndexError
  | invalidSerializedIndexType
  | diskFileError
  | internalError
  | notImplemented
  | invalidParamInJson
  | typeConflictInJson
  | arithmeticOverflow
  | outOfRangeInJson
  | sparseInnerError
deriving DecidableEq, Repr

/-- A call that returns no value. -/
inductive Failure where
  | status (code : Status) (what : String)
  | undefined
deriving DecidableEq, Repr

/-- Code that only fails by leaving a vector. -/
def orUndefined {α : Type*} : Option α → Except Failure α
  | some a => .ok a
  | none => .error .undefined

lemma orUndefined_some {α : Type*} (a : α) : orUndefined (some a) = .ok a := rfl

lemma orUndefined_eq_ok : orUndefined x = .ok a ↔ x = some a := by
  cases x with
  | none => simp [orUndefined]
  | some b => simp [orUndefined]

end Rvanns.Knowhere
