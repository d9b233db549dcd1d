import ContentStore.Json.Record
import ContentStore.Text.Blank
import ContentStore.Text.Order

/-!
# Ids and keys

Everything that is stored has an id, a text without meaning of its own.  The
kind of thing is part of the id's type, so that the id of a field never stands
where that of an item is expected.  Ids that come from outside are taken as
they are.  Keys are the names people give to fields, groups and models.
-/

namespace ContentStore

/-- The kinds of things that have ids. -/
inductive IdKind where
  | project | workspace | model | schema | field | group | item | groupInstance
  | thread | user | integration | asset | tag
  deriving DecidableEq, Repr

/-- The id of a thing of one kind. -/
structure Id (kind : IdKind) where
  text : String
  deriving DecidableEq, Repr, Inhabited

abbrev ProjectId := Id .project
abbrev WorkspaceId := Id .workspace
abbrev ModelId := Id .model
abbrev SchemaId := Id .schema
abbrev FieldId := Id .field
abbrev GroupId := Id .group

/-- Id of a stored item, the same for all of its versions. -/
abbrev ItemId := Id .item

/-- Id of one instance of a group inside an item. -/
abbrev InstanceId := Id .groupInstance

abbrev ThreadId := Id .thread
abbrev UserId := Id .user
abbrev IntegrationId := Id .integration
abbrev AssetId := Id .asset
abbrev TagId := Id .tag

namespace Id

variable {kind : IdKind}

/-- An id from a text with blanks around it; an empty text is no id. -/
def parse? (raw : String) : Option (Id kind) :=
  let t := Text.trim raw
  if t = "" then none else some ⟨t⟩

/-- Order of ids by their text. -/
def compare (a b : Id kind) : Ordering := Text.compare a.text b.text

instance : Std.TransCmp (@Id.compare kind) where
  eq_swap := (Text.compare_swap _ _).symm
  isLE_trans := fun hab hbc => @Std.TransCmp.isLE_trans String Text.compare _ _ _ _ hab hbc

theorem compare_eq_iff {a b : Id kind} : a.compare b = .eq ↔ a = b := by
  cases a
  cases b
  rw [compare, Text.compare_eq_iff, Id.mk.injEq]

/-- Digits of fresh ids, in the order of their code points. -/
def alphabet : List Char := "0123456789abcdefghjkmnpqrstvwxyz".toList

/-- The digits of a number to the base 32, first digit first, in front of
`after`. -/
def digits : Nat → Nat → List Char → List Char
  | 0, _, after => after
  | fuel + 1, n, after =>
    let after := alphabet.getD (n % 32) '0' :: after
    if n / 32 = 0 then after else digits fuel (n / 32) after

/-- The fresh id with a serial number: at least 26 digits, so that ids sort in
the order in which they were made. -/
def ofSerial (n : Nat) : Id kind :=
  let ds := digits (n + 1) n []
  ⟨String.ofList (List.replicate (26 - ds.length) '0' ++ ds)⟩

end Id

instance {kind : IdKind} : Record (Id kind) :=
  ⟨fun id => .string id.text, fun j => j.asString?.map Id.mk⟩

/-- The characters of keys. -/
def isKeyChar (c : Char) : Bool := c.isAlphanum || c == '_' || c == '-'

/-- Keys have 1 to 32 ASCII letters, digits, hyphens and underscores.  The key
`id` is reserved for the id of the item. -/
def isValidKey (key : String) : Bool :=
  let cs := key.toList
  key != "id" && !cs.isEmpty && decide (cs.length ≤ 32) && cs.all isKeyChar

end ContentStore
