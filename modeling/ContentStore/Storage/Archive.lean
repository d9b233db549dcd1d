import ContentStore.Json.Reader
import ContentStore.Storage.Tables

/-!
# Archives

Between two runs of the program the tables rest in a file, as JSON, together
with the serial number that the next fresh id is made from.
-/

namespace ContentStore

instance : Record RefRow where
  toJson r := .array [toJson r.item, toJson r.ref, toJson r.version]
  ofJson? j := do
    let ms ← Record.members? ["item", "ref", "version"] j
    return ⟨← ms.required "item", ← ms.required "ref", ← ms.required "version"⟩

instance : Record Tables where
  toJson t := .object [("schemas", toJson t.schemas), ("models", toJson t.models),
    ("groups", toJson t.groups), ("versions", toJson t.versions), ("refs", toJson t.refs)]
  ofJson? j := do
    let ms ← Record.members? ["schemas", "models", "groups", "versions", "refs"] j
    return ⟨← ms.required "schemas", ← ms.required "models", ← ms.required "groups",
      ← ms.required "versions", ← ms.required "refs"⟩

/-- What is kept between two runs. -/
structure Archive where
  tables : Tables
  supply : Supply
  deriving DecidableEq, Repr

namespace Archive

/-- What the first run begins with. -/
def empty : Archive := ⟨.empty, ⟨0⟩⟩

/-- The text of the file. -/
def write (a : Archive) : String :=
  (Json.object [("next", .ofNat a.supply.next), ("tables", toJson a.tables)]).compact

/-- Reads the text of the file. -/
def read? (text : String) : Option Archive := do
  let ms ← Record.members? ["next", "tables"] (← Json.read? text)
  return ⟨← ms.required "tables", ⟨← ms.required "next"⟩⟩

end Archive

end ContentStore
