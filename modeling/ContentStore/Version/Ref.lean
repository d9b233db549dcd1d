import ContentStore.Ident.Version

/-!
# Refs and status

A ref is a name that moves between the versions of an item: `latest` follows
every write, `public` moves when the item is published.  Where the two stand
decides the status of the item.
-/

namespace ContentStore

/-- A named pointer to a version of an item. -/
inductive Ref where
  | latest | published
  deriving DecidableEq, Repr

namespace Ref

def name : Ref → String
  | latest => "latest"
  | published => "public"

/-- The ref of that name. -/
def ofName? (name : String) : Option Ref :=
  if name = "latest" then some latest else if name = "public" then some published else none

/-- All refs, in the order in which a version lists its own. -/
def all : List Ref := [latest, published]

end Ref

/-- Whether the latest version of an item is published. -/
inductive Status where
  | draft | published | changed
  deriving DecidableEq, Repr

namespace Status

def name : Status → String
  | draft => "draft"
  | published => "public"
  | changed => "changed"

/-- Nothing published is a draft; anything else is published as it is, or
changed since. -/
def derive (latest published? : Option VersionId) : Status :=
  match latest, published? with
  | _, none => draft
  | some l, some p => if l = p then published else changed
  | none, some _ => changed

end Status

instance : Record Ref :=
  ⟨fun r => .string r.name, fun j => (Record.choice? j).bind Ref.ofName?⟩

instance : Record Status where
  toJson s := .string s.name
  ofJson? j := do
    match ← Record.choice? j with
    | "draft" => return .draft
    | "public" => return .published
    | "changed" => return .changed
    | _ => none

end ContentStore
