import Rvanns.Cpp.WrapInt
import Rvanns.Knowhere.Status

/-!
# Configurations

`Config::Load` of `config.h`.
-/

namespace Rvanns.Knowhere

open Cpp

inductive ParamType where
  | train
  | search
  | rangeSearch
  | feder
  | deserialize
  | deserializeFromFile
  | iterator
  | cluster
  | static
deriving DecidableEq, Repr

structure Range (T : Type) where
  left : T
  right : T
  includeLeft : Bool
  includeRight : Bool
deriving DecidableEq

section Range

variable {T : Type} [LinearOrder T]

def Range.within (r : Range T) (val : T) : Bool :=
  (r.left < val || (r.includeLeft && r.left ≤ val)) &&
    (val < r.right || (r.includeRight && val ≤ r.right))

def Range.toText (text : T → String) (r : Range T) : String :=
  (if r.includeLeft then "[" else "(") ++ text r.left ++ ", " ++ text r.right ++
    (if r.includeRight then "]" else ")")

end Range

inductive Json (D : Type) where
  | integer (z : ℤ)
  | float (x : D)
  | string (s : String)
  | boolean (b : Bool)
  | other (dump : String)
deriving DecidableEq

namespace Json

variable {D : Type}

def isNumberInteger : Json D → Bool
  | .integer z => -2 ^ 63 ≤ z ∧ z < 2 ^ 64
  | _ => false

def isNumber : Json D → Bool
  | .integer _ | .float _ => true
  | _ => false

def isString : Json D → Bool
  | .string _ => true
  | _ => false

def isBoolean : Json D → Bool
  | .boolean _ => true
  | _ => false

end Json

structure Entry (T : Type) where
  type : List ParamType
  defaultVal : Option T := none
  range : Option (Range T) := none
  allowEmptyWithoutDefault : Bool := false

structure ConfigError where
  status : Status
  msg : String
deriving DecidableEq, Repr

structure FieldKind (D T : Type) where
  hasType : Json D → Bool
  /-- The text after "should be ". -/
  typeText : String
  /-- The quotes around the name of a parameter that is missing. -/
  quotes : String × String := ("'", "'")
  overflows : Json D → Bool := fun _ => false
  maxText : String := ""
  convert : Json D → T
  within : Range T → T → Bool := fun _ _ => true
  rangeText : Range T → String := fun _ => ""

section Load

variable {D T : Type} (dump : Json D → String)

def FieldKind.load (kind : FieldKind D T) (type : ParamType) (name : String) (entry : Entry T)
    (json : Option (Json D)) : Except ConfigError (Option T) :=
  if type ∉ entry.type then .ok none
  else
    match json with
    | none =>
      match entry.defaultVal with
      | some v => .ok (some v)
      | none =>
        if entry.allowEmptyWithoutDefault then .ok none
        else .error ⟨.invalidParamInJson,
          "param " ++ kind.quotes.1 ++ name ++ kind.quotes.2 ++ " not exist in json"⟩
    | some j =>
      if !kind.hasType j then
        .error ⟨.typeConflictInJson, "Type conflict in json: param '" ++ name ++ "' (" ++ dump j ++
          ") should be " ++ kind.typeText⟩
      else
        match entry.range with
        | none => .ok (some (kind.convert j))
        | some r =>
          if kind.overflows j then
            .error ⟨.arithmeticOverflow,
              "Arithmetic overflow: param '" ++ name ++ "' (" ++ dump j ++
              ") should not bigger than " ++ kind.maxText⟩
          else
            let v := kind.convert j
            if kind.within r v then .ok (some v)
            else .error ⟨.outOfRangeInJson, "Out of range in json: param '" ++ name ++ "' (" ++
              dump j ++ ") should be in range " ++ kind.rangeText r⟩

end Load

section Kinds

variable {D F : Type} [LinearOrder D] [LinearOrder F]

def Json.toInt (w : ℕ) : Json D → ℤ
  | .integer z => wrapInt w z
  | _ => 0

def intKind : FieldKind D ℤ where
  hasType := Json.isNumberInteger
  typeText := "integer"
  overflows j := 2 ^ 31 - 1 < j.toInt 64
  maxText := "2147483647"
  convert := Json.toInt 32
  within := Range.within
  rangeText := Range.toText toString

def int64Kind : FieldKind D ℤ where
  hasType := Json.isNumberInteger
  typeText := "long integer"
  overflows j := 2 ^ 63 - 1 < j.toInt 64
  maxText := "9223372036854775807"
  convert := Json.toInt 64
  within := Range.within
  rangeText := Range.toText toString

structure FloatCasts (D F : Type) where
  toDouble : Json D → D
  toFloat : Json D → F
  floatMax : D
  maxText : String
  text : F → String

def floatKind (ops : FloatCasts D F) : FieldKind D F where
  hasType := Json.isNumber
  typeText := "a number"
  overflows j := ops.floatMax < ops.toDouble j
  maxText := ops.maxText
  convert := ops.toFloat
  within := Range.within
  rangeText := Range.toText ops.text

def stringKind : FieldKind D String where
  hasType := Json.isString
  typeText := "a string"
  quotes := ("[", "]")
  convert
    | .string s => s
    | _ => ""

def boolKind : FieldKind D Bool where
  hasType := Json.isBoolean
  typeText := "a boolean"
  convert
    | .boolean b => b
    | _ => false

def materializedViewKind : FieldKind D (Json D) where
  hasType _ := true
  typeText := ""
  convert j := j

end Kinds

inductive VarEntry (D F : Type) where
  | string (entry : Entry String)
  | float (entry : Entry F)
  | int (entry : Entry ℤ)
  | int64 (entry : Entry ℤ)
  | bool (entry : Entry Bool)
  | materializedView (entry : Entry (Json D))

inductive ConfigValue (D F : Type) where
  | string (s : String)
  | float (x : F)
  | int (z : ℤ)
  | int64 (z : ℤ)
  | bool (b : Bool)
  | materializedView (j : Json D)

abbrev Fields (D F : Type) := String → Option (ConfigValue D F)

section Classes

variable {D F : Type} [LinearOrder D] [LinearOrder F] (dump : Json D → String)
  (ops : FloatCasts D F)

def VarEntry.load (type : ParamType) (name : String) (json : Option (Json D)) :
    VarEntry D F → Except ConfigError (Option (ConfigValue D F))
  | .string e => (stringKind.load dump type name e json).map (·.map .string)
  | .float e => ((floatKind ops).load dump type name e json).map (·.map .float)
  | .int e => (intKind.load dump type name e json).map (·.map .int)
  | .int64 e => (int64Kind.load dump type name e json).map (·.map .int64)
  | .bool e => (boolKind.load dump type name e json).map (·.map .bool)
  | .materializedView e =>
    (materializedViewKind.load dump type name e json).map (·.map .materializedView)

def loadFields (type : ParamType) (json : String → Option (Json D)) :
    List (String × VarEntry D F) → Fields D F → Fields D F × Option ConfigError
  | [], fields => (fields, none)
  | (name, entry) :: dict, fields =>
    match entry.load dump ops type name (json name) with
    | .error err => (fields, some err)
    | .ok none => loadFields type json dict fields
    | .ok (some v) => loadFields type json dict (Function.update fields name (some v))

/-- A config class: its fields in the order in which `__DICT__` is traversed, and `CheckAndAdjust`.
The overrides in the repository fill in fields that have no value, and `itopk_size`, which has no
declared range; they keep the value of every other integer field. -/
structure ConfigClass (D F : Type) where
  dict : List (String × VarEntry D F)
  names_nodup : (dict.map Prod.fst).Nodup
  checkAndAdjust : ParamType → Fields D F → Fields D F × Option ConfigError
  keeps_int : ∀ (type : ParamType) (fields : Fields D F) (name : String) (entry : Entry ℤ) (z : ℤ),
    (name, .int entry) ∈ dict → entry.range.isSome → fields name = some (.int z) →
    (checkAndAdjust type fields).1 name = some (.int z)

def ConfigClass.load (cls : ConfigClass D F) (type : ParamType) (json : String → Option (Json D))
    (fields : Fields D F) : Fields D F × Option ConfigError :=
  match loadFields dump ops type json cls.dict fields with
  | (fields, some err) => (fields, some err)
  | (fields, none) => cls.checkAndAdjust type fields

end Classes

end Rvanns.Knowhere
