import ContentStore.Query.ConditionRecord
import ContentStore.Sorting
import ContentStore.Text.LowerCase

/-!
# Queries

A query picks the versions of one model that hold a keyword and pass a filter,
and puts them in order.  Equal ones, and all when there is no sort, stand in
the order of their item ids, so the result does not depend on the order of the
candidates.
-/

namespace ContentStore

open Time (Instant)

namespace Query

/-- Direction of a sort. -/
inductive Direction where
  | ascending | descending
  deriving DecidableEq, Repr

/-- What a result is sorted by. -/
structure SortKey where
  field : Selector
  direction : Direction
  deriving DecidableEq, Repr

end Query

/-- A search over the versions of one model that a ref names. -/
structure Query where
  project : ProjectId
  model : ModelId
  schema : Option SchemaId
  keyword : Option String
  reference : Ref
  filter : Option Query.Condition
  sort : Option Query.SortKey

namespace Query

/-- All items of a model. -/
def ofModel (project : ProjectId) (model : ModelId) : Query :=
  ⟨project, model, none, none, .latest, none, none⟩

/-- The package whose item schema is the one being searched. -/
def searched (q : Query) (p : Package) : Except Error Package :=
  match q.schema with
  | none => .ok p
  | some id =>
    if id = p.schema.id then .ok p
    else match p.metadataSchema with
      | some m =>
        if m.id = id then .ok { p with schema := m, metadataSchema := none }
        else .error (.misuse (.schemaNotOfModel id q.model.text))
      | none => .error (.misuse (.schemaNotOfModel id q.model.text))

/-- The query fits the package: its model and project are the package's, and
its selectors name fields of the schema being searched. -/
def check (q : Query) (p : Package) : Except Error Unit := do
  if p.model.id ≠ q.model then throw (.misuse (.otherModel p.model.id q.model))
  if p.model.project ≠ q.project then throw (.misuse (.otherProject q.model q.project))
  let p ← q.searched p
  match q.filter with
  | some c => c.check p
  | none => pure ()
  match q.sort with
  | some s => s.field.check p
  | none => pure ()

/-- Some top-level value holds the keyword, which is in lower case. -/
def holdsKeyword (keyword : String) (c : Candidate) : Bool :=
  (c.version.item.fields.filter fun f => f.group.isNone).any fun f =>
    f.value.elements.any fun v => Text.contains (Text.lowerCase v.toText) keyword

/-- The keyword in lower case, unless it is blank. -/
def searchedKeyword? (q : Query) : Option String :=
  ((q.keyword.map Text.trim).filter fun k => k != "").map Text.lowerCase

/-- The candidate is one that the query asks for. -/
def selects (q : Query) (now : Instant) (c : Candidate) : Bool :=
  c.version.item.model == q.model &&
  q.schema.all (fun s => c.version.item.schema == s) &&
  q.searchedKeyword?.all (fun k => holdsKeyword k c) &&
  q.filter.all fun f => f.holds now c

/-- The value a selector sorts by. -/
def sortValue? (s : Selector) (c : Candidate) : Option Value :=
  (s.read? c).bind List.head?

/-- Order of sort values: a missing one comes first. -/
def compareValues : Option Value → Option Value → Ordering
  | some a, some b => (a.compare b).getD .eq
  | none, some _ => .lt
  | some _, none => .gt
  | none, none => .eq

/-- Order of candidates: by the sort, then by item id. -/
def compare (sort : Option SortKey) (a b : Candidate) : Ordering :=
  match sort with
  | none => a.id.compare b.id
  | some s =>
    let o := compareValues (sortValue? s.field a) (sortValue? s.field b)
    let o := match s.direction with
      | .ascending => o
      | .descending => o.swap
    o.then (a.id.compare b.id)

/-- The candidates the query asks for, in its order. -/
def select (q : Query) (now : Instant) (candidates : List Candidate) : List Candidate :=
  sortBy (fun a b => compare q.sort a b == .lt) (candidates.filter (q.selects now))

/-- The last colon splits the text. -/
def splitLast (cs : List Char) : Option (List Char × List Char) :=
  let after := cs.reverse.takeWhile (· != ':')
  if after.length = cs.length then none
  else some (cs.take (cs.length - after.length - 1), after.reverse)

/-- Reads `<selector>` with `:asc` or `:desc` after it or neither.  The
selector is the name of a property or the id of a field. -/
def parseSort (raw : String) : Except Error SortKey :=
  let (name, direction) : String × Direction :=
    match splitLast raw.toList with
    | some (name, ['a', 's', 'c']) => (String.ofList name, .ascending)
    | some (name, ['d', 'e', 's', 'c']) => (String.ofList name, .descending)
    | _ => (raw, .ascending)
  match (SelectorKind.ofName? name).filter fun k => !k.readsField with
  | some k => .ok ⟨.property k, direction⟩
  | none => match Id.parse? name with
    | some id => .ok ⟨.ofField id, direction⟩
    | none => .error (.misuse .emptySort)

end Query

instance : Record Query.Direction where
  toJson
    | .ascending => .string "asc"
    | .descending => .string "desc"
  ofJson? j := do
    match ← Record.choice? j with
    | "asc" => return .ascending
    | "desc" => return .descending
    | _ => none

instance : Record Query.SortKey where
  toJson s := .object [("field", toJson s.field), ("direction", toJson s.direction)]
  ofJson? j := do
    let ms ← Record.members? ["field", "direction"] j
    return ⟨← ms.required "field", ← ms.withDefault "direction" .ascending⟩

instance : Record Query where
  toJson q := .object [("project", toJson q.project), ("model", toJson q.model),
    ("schema", toJson q.schema), ("keyword", toJson q.keyword),
    ("reference", toJson q.reference), ("filter", toJson q.filter), ("sort", toJson q.sort)]
  ofJson? j := do
    let ms ← Record.members? ["project", "model", "schema", "keyword", "reference", "filter",
      "sort"] j
    return {
      project := ← ms.required "project"
      model := ← ms.required "model"
      schema := ← ms.optional "schema"
      keyword := ← ms.optional "keyword"
      reference := ← ms.withDefault "reference" .latest
      filter := ← ms.optional "filter"
      sort := ← ms.optional "sort" }

end ContentStore
