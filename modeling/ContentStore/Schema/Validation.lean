import ContentStore.Error
import ContentStore.Schema.Field

/-!
# Values against their field

A field accepts values of its kind, at most one unless it is multiple, at
least one that is not empty if it is required, and only elements within the
limits of its type.  Empty elements are not held against those limits.
Preparing raw input reads it, puts the default in the place of nothing, and
checks the result.
-/

namespace ContentStore

namespace FieldType

/-- A text within a limit of its length in characters. -/
def checkLength (limit : Option Nat) (s : String) : Except ValueDefect Unit :=
  match limit with
  | some n => if n < s.length then .error (.tooLong n s.length) else .ok ()
  | none => .ok ()

/-- A value of the type's kind within the type's limits. -/
def checkElement : FieldType → Value → Except ValueDefect Unit
  | text max, .text s => checkLength max s
  | textArea max, .textArea s => checkLength max s
  | markdown max, .markdown s => checkLength max s
  | integer low high, .integer n =>
    if low.any (fun l => decide (n < l)) || high.any (fun h => decide (h < n)) then
      .error (.outOfRange n low high)
    else .ok ()
  | select options, .select s =>
    if options.contains s then .ok () else .error (.notAnOption s)
  | tag tags, .tag id =>
    if tags.any fun t => t.id == id then .ok () else .error (.notAnOption id.text)
  | _, _ => .ok ()

end FieldType

namespace Field

/-- The values may stand in the field. -/
def check (f : Field) (vs : Values) : Except ValueDefect Unit := do
  if vs.kind ≠ f.kind then throw (.wrongKind f.kind vs.kind)
  match vs.elements.find? fun v => v.kind != f.kind with
  | some v => throw (.wrongKind f.kind v.kind)
  | none => pure ()
  if !f.multiple ∧ 1 < vs.size then throw (.notSingle f.kind vs.size)
  if f.required ∧ vs.isEmpty then throw .missing
  (vs.elements.filter fun v => !v.isEmpty).forM f.type.checkElement

/-- The values raw input stands for, the default in the place of nothing. -/
def prepare (f : Field) (raw : Json) : Except Error Values := do
  let given ← liftValue f.key (Values.coerce f.kind raw)
  let vs := if given.isEmpty then f.default.getD given else given
  liftValue f.key (f.check vs)
  return vs

/-- The default may stand in the field.  It may be empty in a required one. -/
def checkDefault (f : Field) : Except Error Unit :=
  match f.default with
  | some vs => liftValue f.key ({ f with required := false }.check vs)
  | none => .ok ()

end Field

end ContentStore
