import ContentStore.Value.Coerce

/-!
# Lists of values

A field always holds a list of values of its kind, in order; a field that
takes a single value holds a list of at most one.
-/

namespace ContentStore

/-- The values held by one field. -/
structure Values where
  kind : Kind
  elements : List Value
  deriving DecidableEq, Repr

namespace Values

/-- No values of a kind. -/
def empty (kind : Kind) : Values := ⟨kind, []⟩

/-- One value on its own. -/
def single (v : Value) : Values := ⟨v.kind, [v]⟩

/-- The values raw input stands for: none for null, one for each element of an
array that is not null, and otherwise a single one. -/
def coerce (kind : Kind) (raw : Json) : Except ValueDefect Values :=
  match raw with
  | .null => .ok (empty kind)
  | .array xs => do
    let vs ← (xs.filter fun x => !x.isNull).mapM (Value.coerce kind)
    return ⟨kind, vs⟩
  | raw => do
    let v ← Value.coerce kind raw
    return ⟨kind, [v]⟩

def first? (vs : Values) : Option Value := vs.elements.head?

def size (vs : Values) : Nat := vs.elements.length

/-- Nothing but empty values. -/
def isEmpty (vs : Values) : Bool := vs.elements.all Value.isEmpty

/-- The items referred to. -/
def references (vs : Values) : List ItemId := vs.elements.filterMap Value.reference?

/-- The group instances listed. -/
def groups (vs : Values) : List InstanceId := vs.elements.filterMap Value.group?

/-- The values as plain JSON: an array of all, or the first alone. -/
def render (vs : Values) (multiple : Bool) : Json :=
  if multiple then .array (vs.elements.map Value.render)
  else match vs.first? with
    | some v => v.render
    | none => .null

end Values

instance : Record Values where
  toJson vs := .object [("kind", toJson vs.kind), ("values", toJson vs.elements)]
  ofJson? j := do
    let ms ← Record.members? ["kind", "values"] j
    let kind ← ms.required "kind"
    let elements ← ms.withDefault "values" []
    return ⟨kind, elements⟩

end ContentStore
