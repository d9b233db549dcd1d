import ContentStore.Ident.Basic
import ContentStore.Json.Printer
import ContentStore.Time.Rfc3339
import ContentStore.Value.Kind

/-!
# Values

A value is one datum of one kind.  Values of one kind are ordered: integers
and instants by size, false before true, and all others by their text.  Values
of different kinds are never compared.
-/

namespace ContentStore

open Time (Instant Rfc3339.writeOffset)

/-- One datum of one kind. -/
inductive Value where
  | text (s : String)
  | textArea (s : String)
  | markdown (s : String)
  | bool (b : Bool)
  | checkbox (b : Bool)
  | integer (n : Int)
  | select (s : String)
  | tag (id : TagId)
  | url (s : String)
  | dateTime (t : Instant)
  | asset (id : AssetId)
  | reference (id : ItemId)
  | group (id : InstanceId)
  deriving DecidableEq, Repr

namespace Value

/-- The kind of a value. -/
def kind : Value → Kind
  | text _ => .text
  | textArea _ => .textArea
  | markdown _ => .markdown
  | bool _ => .bool
  | checkbox _ => .checkbox
  | integer _ => .integer
  | select _ => .select
  | tag _ => .tag
  | url _ => .url
  | dateTime _ => .dateTime
  | asset _ => .asset
  | reference _ => .reference
  | group _ => .group

/-- The item a reference names. -/
def reference? : Value → Option ItemId
  | reference id => some id
  | _ => none

/-- The instance a group value names. -/
def group? : Value → Option InstanceId
  | group id => some id
  | _ => none

theorem kind_of_group? {v : Value} {i : InstanceId} (h : v.group? = some i) : v.kind = .group := by
  unfold group? at h
  split at h
  · rfl
  · cases h

/-- The asset a value names. -/
def asset? : Value → Option AssetId
  | asset id => some id
  | _ => none

/-- The text of the kinds that are texts or ids. -/
def text? : Value → Option String
  | text s | textArea s | markdown s | select s | url s => some s
  | tag id => some id.text
  | asset id => some id.text
  | reference id => some id.text
  | group id => some id.text
  | _ => none

def integer? : Value → Option Int
  | integer n => some n
  | _ => none

def bool? : Value → Option Bool
  | bool b | checkbox b => some b
  | _ => none

def dateTime? : Value → Option Instant
  | dateTime t => some t
  | _ => none

/-- An empty text counts as no value.  Ids, numbers and the like are never
empty. -/
def isEmpty : Value → Bool
  | text s | textArea s | markdown s | select s | url s => s == ""
  | _ => false

/-- The value as plain JSON, without its kind. -/
def render : Value → Json
  | text s | textArea s | markdown s | select s | url s => .string s
  | tag id => .string id.text
  | asset id => .string id.text
  | reference id => .string id.text
  | group id => .string id.text
  | bool b | checkbox b => .bool b
  | integer n => Json.ofInt n
  | dateTime t => .string (Rfc3339.writeOffset t)

/-- The value as a text, for searching. -/
def toText (v : Value) : String :=
  match v.render with
  | .string s => s
  | j => j.compact

/-- Order of integers. -/
def compareInts (a b : Int) : Ordering := if a < b then .lt else if b < a then .gt else .eq

/-- False comes before true. -/
def compareBools : Bool → Bool → Ordering
  | false, true => .lt
  | true, false => .gt
  | _, _ => .eq

/-- Order of two values of one kind; none for different kinds. -/
def compare : Value → Value → Option Ordering
  | integer a, integer b => some (compareInts a b)
  | dateTime a, dateTime b => some (a.compare b)
  | a, b =>
    if a.kind ≠ b.kind then none
    else match a.bool?, b.bool? with
      | some x, some y => some (compareBools x y)
      | _, _ => match a.text?, b.text? with
        | some x, some y => some (Text.compare x y)
        | _, _ => none

end Value

instance : Record Value where
  toJson v :=
    let content : Json := match v with
      | .dateTime t => toJson t
      | v => v.render
    .object [("kind", .string v.kind.name), ("value", content)]
  ofJson? j := do
    let (name, content) ← Record.adjacent? "kind" "value" j
    match ← Kind.ofName? name with
    | .text => return .text (← ofJson? content)
    | .textArea => return .textArea (← ofJson? content)
    | .markdown => return .markdown (← ofJson? content)
    | .bool => return .bool (← ofJson? content)
    | .checkbox => return .checkbox (← ofJson? content)
    | .integer => return .integer (← ofJson? content)
    | .select => return .select (← ofJson? content)
    | .tag => return .tag (← ofJson? content)
    | .url => return .url (← ofJson? content)
    | .dateTime => return .dateTime (← ofJson? content)
    | .asset => return .asset (← ofJson? content)
    | .reference => return .reference (← ofJson? content)
    | .group => return .group (← ofJson? content)

end ContentStore
