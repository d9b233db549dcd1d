/-!
# Texts inside texts
-/

namespace ContentStore.Text

/-- The text begins with another. -/
def startsWith (s t : String) : Bool := t.toList.isPrefixOf s.toList

/-- The text ends with another. -/
def endsWith (s t : String) : Bool := t.toList.isSuffixOf s.toList

/-- `needle` stands somewhere in the characters. -/
def listContains (needle : List Char) : List Char → Bool
  | [] => needle.isEmpty
  | c :: cs => needle.isPrefixOf (c :: cs) || listContains needle cs

/-- The text holds another, anywhere. -/
def contains (s t : String) : Bool := listContains t.toList s.toList

end ContentStore.Text
