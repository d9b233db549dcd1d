import ContentStore.Error
import ContentStore.Item.Basic
import ContentStore.Schema.Package

/-!
# Unique fields

No two items of one model hold the same values in a unique field.  A write is
checked field by field against an index of the stored values; values that do
not change and empty values are not looked up.  The lookups are part of the
answer.
-/

namespace ContentStore.Uniqueness

/-- A question to the index: which item of the model other than `exclude` holds
these values in the field? -/
structure Lookup where
  model : ModelId
  field : FieldId
  value : Values
  exclude : ItemId
  deriving DecidableEq, Repr

/-- The item holds the same values in the same slot. -/
def unchanged (old : Option Item) (f : ItemField) : Bool :=
  (old.bind fun o => valueAt? o.fields f.slot).any fun o => o.value == f.value

/-- The lookups made for the values about to be written to `item`, and the
first value that another item holds already. -/
def check (index : Lookup → Option ItemId) (p : Package) (item : ItemId) (old : Option Item) :
    List ItemField → List Lookup × Except Error Unit
  | [] => ([], .ok ())
  | f :: fs =>
    if unchanged old f then check index p item old fs
    else match p.field? f.field with
      | none => ([], .error (.misuse (.unknownField f.field.text)))
      | some d =>
        if !d.unique || f.value.isEmpty then check index p item old fs
        else
          let q : Lookup := ⟨p.model.id, f.field, f.value, item⟩
          match index q with
          | some _ => ([q], .error (.duplicateValue d.key))
          | none =>
            let (qs, r) := check index p item old fs
            (q :: qs, r)

end ContentStore.Uniqueness
