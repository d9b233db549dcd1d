import ContentStore.Error
import ContentStore.Item.Basic
import ContentStore.Schema.Basic

/-!
# Two-way references

A two-way reference is an exclusive edge between two items: each end holds the
other in its field.  When one end is written, the other ends follow: the former
partner lets go, the new partner's former partner lets go of it, and the new
partner points back.  `repairs` computes these edits, in the order in which the
items are touched first; each item is to be saved once.  One-way references
are left as they are.
-/

namespace ContentStore.Pairing

/-- Edited items that are not saved yet, in the order of their first edit. -/
abbrev Edits := List (ItemId × Item)

variable (latest : ItemId → Option Item)

/-- An item with the edits so far. -/
def current (edits : Edits) (id : ItemId) : Option Item :=
  (edits.lookup id).or (latest id)

/-- Records an edited item. -/
def record (edits : Edits) (id : ItemId) (it : Item) : Edits :=
  if (edits.lookup id).isSome then updateFirst (fun e => e.1 == id) (fun _ => (id, it)) edits
  else edits ++ [(id, it)]

/-- Empties the field of an item if it holds `expected`. -/
def clearIf (edits : Edits) (id : ItemId) (field : FieldId) (expected : ItemId) : Edits :=
  match current latest edits id with
  | none => edits
  | some it =>
    if it.reference? field = some expected then
      match it.clear? field with
      | some it => record edits id it
      | none => edits
    else edits

/-- A single reference as the value of a field. -/
def referenceValue (field : Field) (target : ItemId) : ItemField :=
  ⟨field.id, field.key, .single (.reference target), none⟩

/-- Lets the field of an item hold `target`. -/
def point (edits : Edits) (id : ItemId) (field : Field) (target : ItemId) : Edits :=
  match current latest edits id with
  | none => edits
  | some it =>
    if it.reference? field.id = some target then edits
    else record edits id (it.update [referenceValue field target])

/-- Lets go of the former partner `b`. -/
def leave (edits : Edits) (item : ItemId) (corresponding : FieldId) (b : Option ItemId) : Edits :=
  match b with
  | some b => if b = item then edits else clearIf latest edits b corresponding item
  | none => edits

/-- Joins the new partner `b`, whose former partner lets go of it. -/
def join (targetSchema : Field → Option Schema) (edits : Edits) (item : ItemId) (field : Field)
    (corresponding : FieldId) (b : ItemId) : Except Error Edits :=
  let edits := match (current latest edits b).bind fun it => it.reference? corresponding with
    | some c => if c = item then edits else clearIf latest edits c field.id b
    | none => edits
  match (targetSchema field).bind fun s => s.field? corresponding with
  | some mirror => .ok (point latest edits b mirror item)
  | none => .error (.schema (.fieldNotFound corresponding))

/-- The edits for one field of a written item. -/
def repairField (targetSchema : Field → Option Schema) (item : Item) (old : Option Item)
    (edits : Edits) (field : Field) : Except Error Edits :=
  match field.corresponding? with
  | none => .ok edits
  | some corresponding =>
    let before := old.bind fun o => o.reference? field.id
    let after := item.reference? field.id
    if before = after then .ok edits
    else
      let edits := leave latest edits item.id corresponding before
      match after with
      | none => .ok edits
      | some b =>
        if b = item.id then .ok edits
        else join latest targetSchema edits item.id field corresponding b

/-- The edits to other items after `item` was written over `old`, field after
field.  `targetSchema` is the schema a reference field points into. -/
def repairs (schema : Schema) (targetSchema : Field → Option Schema) (item : Item)
    (old : Option Item) : Except Error (List Item) :=
  (schema.referenceFields.foldlM (repairField latest targetSchema item old) []).map fun edits =>
    edits.map Prod.snd

/-- The edits to the partners of an item that is about to be removed. -/
def detachments (schema : Schema) (item : Item) : List Item :=
  (schema.referenceFields.foldl (fun edits field =>
    match field.corresponding? with
    | some corresponding =>
      leave latest edits item.id corresponding (item.reference? field.id)
    | none => edits) []).map Prod.snd

/-- The item holds something in a field paired with `corresponding`. -/
def isReferenced (schema : Schema) (item : Item) (corresponding : FieldId) : Bool :=
  (schema.referenceFields.filter fun f => f.corresponding? == some corresponding).any fun f =>
    (item.field? f.id).any fun v => !v.value.isEmpty

end ContentStore.Pairing
