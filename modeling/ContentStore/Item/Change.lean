import ContentStore.Item.Basic

/-!
# Changes

What an update changed, slot by slot.  A value that is empty counts as absent,
so a change is an addition, a removal, or the replacement of one present value
by another.
-/

namespace ContentStore

/-- How the value of a slot changed. -/
inductive ChangeKind where
  | add | update | delete
  deriving DecidableEq, Repr

namespace ChangeKind

def name : ChangeKind → String
  | add => "add"
  | update => "update"
  | delete => "delete"

end ChangeKind

/-- The change of the value in one slot. -/
structure Change where
  kind : ChangeKind
  field : FieldId
  group : Option InstanceId
  previous : Option Values
  current : Option Values
  deriving DecidableEq, Repr

namespace Change

/-- The change in words. -/
def describe (c : Change) : String :=
  match c.kind with
  | .add => "Add value to field '" ++ c.field.text ++ "'"
  | .update => "Update value of field '" ++ c.field.text ++ "'"
  | .delete => "Delete value of field '" ++ c.field.text ++ "'"

/-- The value in a slot, unless it is empty. -/
def present? (fields : List ItemField) (slot : Slot) : Option Values :=
  ((valueAt? fields slot).map ItemField.value).filter fun vs => !vs.isEmpty

/-- The change of a slot from one present value to another. -/
def ofSlot? (slot : Slot) (before after : Option Values) : Option Change :=
  match before, after with
  | none, some _ => some ⟨.add, slot.field, slot.owner, before, after⟩
  | some _, none => some ⟨.delete, slot.field, slot.owner, before, after⟩
  | some b, some a => if a = b then none else some ⟨.update, slot.field, slot.owner, before, after⟩
  | none, none => none

/-- The changes from `old` to `new`: those of the slots of `new` in its order,
then those of the slots that only `old` has. -/
def between (new old : List ItemField) : List Change :=
  (new.filterMap fun n =>
    ofSlot? n.slot (present? old n.slot) (some n.value |>.filter fun vs => !vs.isEmpty)) ++
  (old.filter fun o => !(valueAt? new o.slot).isSome).filterMap fun o =>
    ofSlot? o.slot (some o.value |>.filter fun vs => !vs.isEmpty) none

/-- The written form of a change. -/
def toJson (c : Change) : Json :=
  Record.object [some ("kind", .string c.kind.name), Record.put "field" c.field,
    Record.putSome "group" c.group, Record.put "previous" c.previous,
    Record.put "current" c.current]

end Change

end ContentStore
