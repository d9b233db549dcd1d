import ContentStore.Ident.Basic

/-!
# Defects of schemas

Which rule of the catalog a change of a schema would break.
-/

namespace ContentStore

/-- Why a change of a schema is refused. -/
inductive SchemaDefect where
  | duplicateKey (key : String)
  | invalidKey (key : String)
  | fieldNotFound (field : FieldId)
  /-- A one-way reference would become two-way or the other way round. -/
  | directionChanged
  /-- A two-way reference would point at another model. -/
  | targetChanged
  /-- The schema at the other end has a field of that key. -/
  | targetKeyTaken (key : String)
  | invalidTitle
  /-- The group would contain itself. -/
  | groupCycle (group : GroupId)
  | kindChanged
  | multipleTwoWay
  deriving DecidableEq, Repr

namespace SchemaDefect

/-- The wording of a defect. -/
def message : SchemaDefect → String
  | duplicateKey key => "duplicated key: " ++ key
  | invalidKey key => "invalid key: '" ++ key ++ "'"
  | fieldNotFound field => "field not found: " ++ field.text
  | directionChanged => "reference direction cannot be changed"
  | targetChanged => "referenced model of a two-way reference cannot be changed"
  | targetKeyTaken key => "referenced schema already has a field with key '" ++ key ++ "'"
  | invalidTitle => "title field must be an existing non-multiple field"
  | groupCycle group => "group " ++ group.text ++ " would embed itself"
  | kindChanged => "field type cannot be changed"
  | multipleTwoWay => "a two-way reference holds a single item"

end SchemaDefect

end ContentStore
