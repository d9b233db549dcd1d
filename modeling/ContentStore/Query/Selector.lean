import ContentStore.Error
import ContentStore.Schema.Package
import ContentStore.Version.History

/-!
# Selectors

What a condition or a sort reads from an item: a property of the item itself,
or the values of a field of the item or of its metadata item.
-/

namespace ContentStore.Query

/-- What kind of thing a selector reads. -/
inductive SelectorKind where
  | id | creationDate | modificationDate | status | creationUser | modificationUser
  | field | metaField
  deriving DecidableEq, Repr

namespace SelectorKind

def name : SelectorKind → String
  | id => "id"
  | creationDate => "creation_date"
  | modificationDate => "modification_date"
  | status => "status"
  | creationUser => "creation_user"
  | modificationUser => "modification_user"
  | field => "field"
  | metaField => "meta_field"

def all : List SelectorKind :=
  [id, creationDate, modificationDate, status, creationUser, modificationUser, field, metaField]

/-- The kind of that name. -/
def ofName? (name : String) : Option SelectorKind := all.find? fun k => k.name == name

/-- The selector needs the id of a field. -/
def readsField : SelectorKind → Bool
  | field | metaField => true
  | _ => false

end SelectorKind

/-- What is read.  The id is needed for the two kinds that read a field. -/
structure Selector where
  kind : SelectorKind
  field : Option FieldId
  deriving DecidableEq, Repr

/-- A version to be searched, with what properties need that the version alone
does not tell. -/
structure Candidate where
  version : Version
  status : Status
  metadata : Option Item
  deriving DecidableEq, Repr

namespace Candidate

def id (c : Candidate) : ItemId := c.version.item.id

end Candidate

namespace Selector

/-- The values of a field of the item. -/
def ofField (id : FieldId) : Selector := ⟨.field, some id⟩

/-- The values of a field of the metadata item. -/
def ofMeta (id : FieldId) : Selector := ⟨.metaField, some id⟩

/-- A property of the item. -/
def property (kind : SelectorKind) : Selector := ⟨kind, none⟩

/-- The selector names a field of the package's item schema, or of its
metadata schema. -/
def check (s : Selector) (p : Package) : Except Error Unit :=
  if !s.kind.readsField then .ok ()
  else match s.field with
    | none => .error (.misuse .selectorWithoutField)
    | some id =>
      let known : Bool := match s.kind with
        | .field => (p.schema.field? id).isSome
        | _ => p.metadataSchema.any fun m => (m.field? id).isSome
      if known then .ok () else .error (.misuse (.unknownQueryField id))

/-- The values read from a candidate; none when the field is absent. -/
def read? (s : Selector) (c : Candidate) : Option (List Value) :=
  let item := c.version.item
  match s.kind with
  | .id => some [.text item.id.text]
  | .creationDate => some [.dateTime item.createdAt]
  | .modificationDate => some [.dateTime c.version.timestamp]
  | .status => some [.text c.status.name]
  | .creationUser => some [.text item.createdBy.idText]
  | .modificationUser => some [.text item.lastEditor.idText]
  | .field => (s.field.bind item.field?).map fun f => f.value.elements
  | .metaField =>
    (s.field.bind fun id => c.metadata.bind fun m => m.field? id).map fun f => f.value.elements

end Selector

instance : Record SelectorKind :=
  ⟨fun k => .string k.name, fun j => (Record.choice? j).bind SelectorKind.ofName?⟩

instance : Record Selector where
  toJson s := Record.object [Record.put "type" s.kind, Record.putSome "field" s.field]
  ofJson? j := do
    let ms ← Record.members? ["type", "field"] j
    return ⟨← ms.required "type", ← ms.optional "field"⟩

end ContentStore.Query
