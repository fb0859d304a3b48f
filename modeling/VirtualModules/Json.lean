/-!
# JSON values

A `Json` value as it stands in a document: members keep their order and may repeat, numbers keep
their text. A string whose escapes leave half of a surrogate pair is no text; it is kept as
`none`, so that it can be skipped but not read.
-/

namespace VirtualModules

inductive Json where
  | null
  | boolean (value : Bool)
  | number (text : String)
  | string (value : Option String)
  | array (items : List Json)
  | object (members : List (Option String × Json))
  deriving Inhabited

namespace Json

def text (s : String) : Json := .string (some s)

def ofInt (n : Int) : Json := .number (toString n)

/-- An object with the given members. -/
def record (members : List (String × Json)) : Json :=
  .object (members.map fun m => (some m.1, m.2))

/-- A text, or null for none. -/
def ofOption : Option String → Json
  | some s => text s
  | none => null

end Json

end VirtualModules
