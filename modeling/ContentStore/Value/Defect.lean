import ContentStore.Value.Kind

/-!
# Defects of values

What can be wrong with a value on its own or against the definition of its
field.
-/

namespace ContentStore

/-- Why a value is refused. -/
inductive ValueDefect where
  /-- Raw input of the named JSON type cannot become a value of the kind. -/
  | unreadable (expected : Kind) (found : String)
  /-- A value of another kind stands in the field. -/
  | wrongKind (expected found : Kind)
  /-- Several values stand in a field that holds one. -/
  | notSingle (kind : Kind) (count : Nat)
  | missing
  | tooLong (limit length : Nat)
  | outOfRange (value : Int) (low high : Option Int)
  | notAnOption (value : String)
  deriving DecidableEq, Repr

namespace ValueDefect

/-- A limit, or a hyphen where there is none. -/
def limitText : Option Int → String
  | some n => toString n
  | none => "-"

/-- The wording of a defect. -/
def message : ValueDefect → String
  | unreadable expected found => "type mismatch: expected " ++ expected.name ++ ", got " ++ found
  | wrongKind expected found =>
    "type mismatch: expected " ++ expected.name ++ ", got " ++ found.name
  | notSingle kind count =>
    "type mismatch: expected single " ++ kind.name ++ ", got " ++ toString count ++ " values"
  | missing => "value is required"
  | tooLong limit length =>
    "length " ++ toString length ++ " exceeds maximum " ++ toString limit
  | outOfRange value low high =>
    toString value ++ " is out of range [" ++ limitText low ++ ", " ++ limitText high ++ "]"
  | notAnOption value => "'" ++ value ++ "' is not one of the allowed options"

end ValueDefect

end ContentStore
