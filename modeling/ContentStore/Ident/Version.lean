import ContentStore.Json.Reader
import ContentStore.Json.Printer
import ContentStore.Ident.Basic

/-!
# Version ids

A version is named by a number of 128 bits, written as 32 hexadecimal digits
in five groups.  On reading, the hyphens may be left out and the written form
may stand in braces or after `urn:uuid:`.
-/

namespace ContentStore

/-- Name of one version of an item. -/
structure VersionId where
  number : Nat
  deriving DecidableEq, Repr, Inhabited

namespace VersionId

/-- The number written by hexadecimal digits of either case. -/
def hex? (cs : List Char) : Option Nat :=
  cs.foldl (fun n c => n.bind fun n => (Json.hexValue? c).map (16 * n + ·)) (some 0)

/-- The five groups of the written form: hyphens stand after 8, 12, 16 and 20
digits. -/
def hyphenated? (cs : List Char) : Option Nat :=
  let groups := [cs.take 8, (cs.drop 9).take 4, (cs.drop 14).take 4, (cs.drop 19).take 4,
    cs.drop 24]
  if cs.length = 36 ∧ cs[8]? = some '-' ∧ cs[13]? = some '-' ∧ cs[18]? = some '-' ∧
      cs[23]? = some '-' then
    hex? groups.flatten
  else none

/-- The text before the groups of a name in the `uuid` namespace. -/
def urnHead : List Char := "urn:uuid:".toList

/-- A version id as records hold it. -/
def read? (text : String) : Option VersionId :=
  let cs := text.toList
  let number? :=
    if cs.length = 32 then hex? cs
    else if cs.length = 36 then hyphenated? cs
    else if cs.length = 38 ∧ cs.head? = some '\x7b' ∧ cs.getLast? = some '\x7d' then
      hyphenated? (cs.drop 1).dropLast
    else if cs.length = 45 ∧ urnHead.isPrefixOf cs then hyphenated? (cs.drop urnHead.length)
    else none
  number?.map VersionId.mk

/-- A version id with blanks around it. -/
def parse? (raw : String) : Option VersionId := read? (Text.trim raw)

/-- The hexadecimal digits, at least 32 of them. -/
def hexDigits (v : VersionId) : List Char :=
  let ds := Nat.toDigits 16 v.number
  List.replicate (32 - ds.length) '0' ++ ds

/-- The written form: five groups of lower-case digits. -/
def toText (v : VersionId) : String :=
  let ds := v.hexDigits
  String.ofList (ds.take 8 ++ '-' :: (ds.drop 8).take 4 ++ '-' :: (ds.drop 12).take 4 ++
    '-' :: (ds.drop 16).take 4 ++ '-' :: ds.drop 20)

end VersionId

instance : Record VersionId :=
  ⟨fun v => .string v.toText, fun j => j.asString?.bind VersionId.read?⟩

/-- The serial number of the next fresh id.  It only ever grows, so that no id
is given out twice. -/
structure Supply where
  next : Nat
  deriving DecidableEq, Repr

end ContentStore
