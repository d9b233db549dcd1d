import ContentStore.Json.Record

/-!
# Kinds of values

A field holds values of one of thirteen kinds.  The set is closed.
-/

namespace ContentStore

/-- The kind of a value and of the field that holds it. -/
inductive Kind where
  | text | textArea | markdown | bool | checkbox | integer | select | tag | url
  | dateTime | asset | reference | group
  deriving DecidableEq, Repr

namespace Kind

/-- All kinds. -/
def all : List Kind :=
  [.text, .textArea, .markdown, .bool, .checkbox, .integer, .select, .tag, .url,
    .dateTime, .asset, .reference, .group]

/-- The name of a kind in records and messages. -/
def name : Kind → String
  | .text => "text"
  | .textArea => "text_area"
  | .markdown => "markdown"
  | .bool => "bool"
  | .checkbox => "checkbox"
  | .integer => "integer"
  | .select => "select"
  | .tag => "tag"
  | .url => "url"
  | .dateTime => "date_time"
  | .asset => "asset"
  | .reference => "reference"
  | .group => "group"

/-- The kind of that name. -/
def ofName? (name : String) : Option Kind := all.find? fun k => k.name == name

/-- Free text of any length. -/
def isText : Kind → Bool
  | .text | .textArea | .markdown => true
  | _ => false

/-- Every kind is found by its name. -/
theorem ofName?_name (k : Kind) : ofName? k.name = some k := by
  cases k <;> decide

end Kind

instance : Record Kind := ⟨fun k => .string k.name, fun j => (Record.choice? j).bind Kind.ofName?⟩

end ContentStore
