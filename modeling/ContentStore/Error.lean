import ContentStore.Access.Principal
import ContentStore.Ident.Version
import ContentStore.Schema.Defect
import ContentStore.Value.Defect

/-!
# Errors

Every way an operation can fail is a cause with the things it is about.  A
cause has a wording and a code; the codes are the stable classification.  Only
a conflict is worth another try, with a fresh read.
-/

namespace ContentStore

/-- What was looked for and not found. -/
inductive Missing where
  | model | schema | group | item | publicItem | metadataItem | referencedItem | version
  deriving DecidableEq, Repr

namespace Missing

def text : Missing → String
  | model => "model"
  | schema => "schema"
  | group => "group"
  | item => "item"
  | publicItem => "public item"
  | metadataItem => "metadata item"
  | referencedItem => "referenced item"
  | version => "version"

end Missing

/-- How a call misuses an operation. -/
inductive Misuse where
  | instanceNotListed (group : String)
  | unknownField (name : String)
  | notAGroup (key : String)
  | foreignItem (item owner : ItemId)
  | latestIsFixed
  | selectorWithoutField
  | unknownQueryField (field : FieldId)
  | timeWithoutValue
  | otherModel (package query : ModelId)
  | otherProject (model : ModelId) (project : ProjectId)
  | schemaNotOfModel (schema : SchemaId) (model : String)
  | unknownCursor (cursor : ItemId)
  | emptySort
  | nothingToUpdate
  | noFieldUpdated
  | metadataOfMetadata
  | mixedModels
  | noMetadataSchema (model : String)
  | selfReference (item : ItemId) (key : String)
  | wrongTarget (item : ItemId) (key : String) (model : ModelId)
  | notMetadata (item : ItemId) (model : ModelId)
  | twoWayOutsideModel
  | notAReference (key : String)
  | referenceWithoutModel (key : String)
  | groupWithoutGroup (key : String)
  | invalidVersion (text : String)
  | fieldNotJson (key : String)
  | invalidFilter
  /-- A reason given by what surrounds the library. -/
  | other (reason : String)
  deriving DecidableEq, Repr

namespace Misuse

/-- The wording of a misuse. -/
def message : Misuse → String
  | instanceNotListed group => "group instance " ++ group ++ " is not listed by any group field"
  | unknownField name => "unknown field " ++ name
  | notAGroup key => "field " ++ key ++ " is not a group"
  | foreignItem item owner =>
    "item " ++ item.text ++ " does not belong to the history of " ++ owner.text
  | latestIsFixed => "the latest ref cannot be removed"
  | selectorWithoutField => "field selector without a field id"
  | unknownQueryField field => "unknown field " ++ field.text ++ " in query"
  | timeWithoutValue => "time condition requires a value"
  | otherModel package query =>
    "schema package of model " ++ package.text ++ " does not match query model " ++ query.text
  | otherProject model project =>
    "model " ++ model.text ++ " does not belong to project " ++ project.text
  | schemaNotOfModel schema model =>
    "schema " ++ schema.text ++ " does not belong to model " ++ model
  | unknownCursor cursor => "unknown cursor " ++ cursor.text
  | emptySort => "empty sort field"
  | nothingToUpdate => "no fields to update"
  | noFieldUpdated => "no field updated"
  | metadataOfMetadata => "a metadata item cannot carry metadata"
  | mixedModels => "all items must belong to the same model"
  | noMetadataSchema model => "model " ++ model ++ " has no metadata schema"
  | selfReference item key =>
    "item " ++ item.text ++ " cannot reference itself through two-way field '" ++ key ++ "'"
  | wrongTarget item key model =>
    "item " ++ item.text ++ " referenced by '" ++ key ++ "' is not of model " ++ model.text
  | notMetadata item model =>
    "item " ++ item.text ++ " is not a metadata item of model " ++ model.text
  | twoWayOutsideModel => "two-way references can only be added to model schemas"
  | notAReference key => "field '" ++ key ++ "' is not a reference"
  | referenceWithoutModel key => "reference field '" ++ key ++ "' needs a model"
  | groupWithoutGroup key => "group field '" ++ key ++ "' needs a group"
  | invalidVersion text => "invalid version '" ++ text ++ "'"
  | fieldNotJson key => "field '" ++ key ++ "' is not valid JSON"
  | invalidFilter => "invalid filter"
  | other reason => reason

end Misuse

/-- Why an operation failed. -/
inductive Error where
  | invalidValue (field : String) (defect : ValueDefect)
  | schema (defect : SchemaDefect)
  | duplicateValue (field : String)
  | conflict (item : ItemId) (expected actual : VersionId)
  | notFound (what : Missing) (id : String)
  | cannotWrite (principal : Principal) (workspace : WorkspaceId)
  | doesNotMaintain (principal : Principal) (workspace : WorkspaceId)
  | misuse (how : Misuse)
  | cancelled
  | storage
  /-- A catalog declaration cannot be read. -/
  | unreadableCatalog
  deriving DecidableEq, Repr

/-- The stable classification of errors. -/
inductive ErrorCode where
  | validation | schemaIntegrity | duplicateValue | conflict | notFound | permission
  | invalidParam | cancelled | storage
  deriving DecidableEq, Repr

namespace ErrorCode

def text : ErrorCode → String
  | validation => "validation"
  | schemaIntegrity => "schema_integrity"
  | duplicateValue => "duplicate_value"
  | conflict => "conflict"
  | notFound => "not_found"
  | permission => "permission"
  | invalidParam => "invalid_param"
  | cancelled => "cancelled"
  | storage => "storage"

end ErrorCode

namespace Error

/-- The class an error belongs to. -/
def code : Error → ErrorCode
  | invalidValue _ _ => .validation
  | schema _ => .schemaIntegrity
  | duplicateValue _ => .duplicateValue
  | conflict _ _ _ => .conflict
  | notFound _ _ => .notFound
  | cannotWrite _ _ => .permission
  | doesNotMaintain _ _ => .permission
  | misuse _ => .invalidParam
  | cancelled => .cancelled
  | storage => .storage
  | unreadableCatalog => .storage

/-- The wording of an error.  What makes a catalog unreadable is not told. -/
def message : Error → String
  | invalidValue field defect =>
    "validation error on field '" ++ field ++ "': " ++ defect.message
  | schema defect => "schema error: " ++ defect.message
  | duplicateValue field => "duplicated value on unique field '" ++ field ++ "'"
  | conflict item expected actual =>
    "item " ++ item.text ++ " was modified concurrently (expected version " ++
      expected.toText ++ ", latest is " ++ actual.toText ++ ")"
  | notFound what id => what.text ++ " not found: " ++ id
  | cannotWrite principal workspace =>
    "operation denied: " ++ principal.toText ++ " cannot write to workspace " ++ workspace.text
  | doesNotMaintain principal workspace =>
    "operation denied: " ++ principal.toText ++ " does not maintain workspace " ++ workspace.text
  | misuse how => "invalid parameter: " ++ how.message
  | cancelled => "operation cancelled"
  | storage => "storage error"
  | unreadableCatalog => ""

/-- Only a conflict is worth another try. -/
def isRetryable : Error → Bool
  | conflict _ _ _ => true
  | _ => false

end Error

/-- A defect of a schema as an error. -/
def liftSchema {α : Type} : Except SchemaDefect α → Except Error α
  | .ok a => .ok a
  | .error d => .error (.schema d)

/-- A defect of a field's value as an error. -/
def liftValue {α : Type} (key : String) : Except ValueDefect α → Except Error α
  | .ok a => .ok a
  | .error d => .error (.invalidValue key d)

end ContentStore
