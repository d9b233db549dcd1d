import ContentStore.Json.Record

/-!
# Documents

A declaration can be written in more than one language.  What reading it needs
to ask of a written value is collected here; JSON answers directly.
-/

namespace ContentStore

/-- A written value of some language. -/
class Document (δ : Type) where
  /-- Stands for a value that is not given. -/
  isAbsent : δ → Bool
  text? : δ → Option String
  bool? : δ → Option Bool
  /-- A whole number of 64 bits. -/
  int? : δ → Option Int
  /-- A count of 64 bits. -/
  nat? : δ → Option Nat
  /-- The name of a choice without content. -/
  choice? : δ → Option String
  elements? : δ → Option (List δ)
  /-- The members of a record that knows the given names, each at most
  once. -/
  members? : List String → δ → Option (List (String × δ))
  /-- The value as JSON. -/
  json? : δ → Option Json

namespace Document

variable {δ : Type} [Document δ]

/-- A member that has to be there. -/
def required {α : Type} (read : δ → Option α) (ms : List (String × δ)) (name : String) :
    Option α :=
  (ms.lookup name).bind read

/-- A member with a value of its own when it is missing. -/
def withDefault {α : Type} (read : δ → Option α) (value : α) (ms : List (String × δ))
    (name : String) : Option α :=
  match ms.lookup name with
  | none => some value
  | some d => read d

/-- A member that may be missing or absent. -/
def optional {α : Type} (read : δ → Option α) (ms : List (String × δ)) (name : String) :
    Option (Option α) :=
  match ms.lookup name with
  | none => some none
  | some d => if isAbsent d then some none else (read d).map some

/-- A list of values. -/
def list {α : Type} (read : δ → Option α) (d : δ) : Option (List α) :=
  (elements? d).bind fun ds => ds.mapM read

end Document

instance : Document Json where
  isAbsent := Json.isNull
  text? := Json.asString?
  bool? := Json.asBool?
  int? := Json.asInt64?
  nat? := Json.asNat64?
  choice? := Record.choice?
  elements? := Json.asArray?
  members? names j := (Record.members? names j).map Record.Members.entries
  json? := some

end ContentStore
