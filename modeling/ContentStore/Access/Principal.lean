import ContentStore.Ident.Basic

/-!
# Principals

Who acts: a person or an integration.  Items record their creator and their
last editor.
-/

namespace ContentStore

/-- An acting identity. -/
inductive Principal where
  | user (id : UserId)
  | integration (id : IntegrationId)
  deriving DecidableEq, Repr

namespace Principal

/-- The id without its kind. -/
def idText : Principal → String
  | user id => id.text
  | integration id => id.text

/-- The principal as messages name it. -/
def toText : Principal → String
  | user id => "user:" ++ id.text
  | integration id => "integration:" ++ id.text

end Principal

instance : Record Principal where
  toJson
    | .user id => .object [("type", .string "user"), ("id", toJson id)]
    | .integration id => .object [("type", .string "integration"), ("id", toJson id)]
  ofJson? j := do
    let (type, id) ← Record.adjacent? "type" "id" j
    match type with
    | "user" => return .user (← ofJson? id)
    | "integration" => return .integration (← ofJson? id)
    | _ => none

end ContentStore
