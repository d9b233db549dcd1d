import ContentStore.Query.Basic

/-!
# Pages

A page is a piece of a result, either at an offset or after the item that
ended the page before.  Its size is limited.
-/

namespace ContentStore.Query

/-- Which piece of a result. -/
inductive Pagination where
  | offset (offset limit : Nat)
  /-- The first so many items after the one of that id. -/
  | cursor (first : Nat) (after : Option ItemId)
  deriving DecidableEq, Repr

/-- Where a page stands in the result. -/
structure PageInfo where
  total : Nat
  startCursor : Option ItemId
  endCursor : Option ItemId
  hasNext : Bool
  hasPrevious : Bool
  deriving DecidableEq, Repr

/-- A piece of a result. -/
structure Page where
  items : List Candidate
  info : PageInfo
  deriving DecidableEq, Repr

namespace Pagination

/-- Start and size of a piece. -/
def range (items : List Candidate) : Pagination → Except Error (Nat × Nat)
  | offset o limit => .ok (o, limit)
  | cursor first none => .ok (0, first)
  | cursor first (some id) =>
    match items.findIdx? fun c => c.id == id with
    | some i => .ok (i + 1, first)
    | none => .error (.misuse (.unknownCursor id))

end Pagination

/-- The piece of a result, of at most `maxSize` items. -/
def paginate (maxSize : Nat) (items : List Candidate) (pagination : Pagination) :
    Except Error Page := do
  let (start, limit) ← pagination.range items
  let page := (items.drop start).take (min limit maxSize)
  return ⟨page, {
    total := items.length
    startCursor := page.head?.map Candidate.id
    endCursor := page.getLast?.map Candidate.id
    hasNext := decide (start + page.length < items.length)
    hasPrevious := decide (0 < start) }⟩

end Query

/-- The written form of the place of a page. -/
def Query.PageInfo.toJson (i : Query.PageInfo) : Json :=
  .object [("total_count", Record.toJson i.total), ("start_cursor", Record.toJson i.startCursor),
    ("end_cursor", Record.toJson i.endCursor), ("has_next_page", Record.toJson i.hasNext),
    ("has_previous_page", Record.toJson i.hasPrevious)]

instance : Record Query.Pagination where
  toJson
    | .offset o limit => .object [("type", .string "offset"), ("offset", toJson o),
        ("limit", toJson limit)]
    | .cursor first after => .object [("type", .string "cursor"), ("first", toJson first),
        ("after", toJson after)]
  ofJson? j := do
    let (type, rest) ← Record.tagged? "type" j
    match type with
    | "offset" =>
      let ms ← Record.members? ["offset", "limit"] rest
      return .offset (← ms.required "offset") (← ms.required "limit")
    | "cursor" =>
      let ms ← Record.members? ["first", "after"] rest
      return .cursor (← ms.required "first") (← ms.optional "after")
    | _ => none

end ContentStore
