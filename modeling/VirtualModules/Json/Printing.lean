import VirtualModules.Json
import VirtualModules.Bytes

/-!
# Printing JSON

One value per document, each member and item on a line of its own, indented by two blanks per
level; empty brackets stay together. Strings escape the quote, the backslash and the control
characters only.
-/

namespace VirtualModules.Json

/-- The written form of a character inside a string. -/
def escapeChar (c : Char) : List Char :=
  if c = '"' then ['\\', '"']
  else if c = '\\' then ['\\', '\\']
  else if c = '\x08' then ['\\', 'b']
  else if c = '\x0c' then ['\\', 'f']
  else if c = '\n' then ['\\', 'n']
  else if c = '\r' then ['\\', 'r']
  else if c = '\t' then ['\\', 't']
  else if c.toNat < 0x20 then ['\\', 'u'] ++ hexDigits 4 c.toNat
  else [c]

def quoted (s : String) : String :=
  "\"" ++ String.ofList (s.toList.flatMap escapeChar) ++ "\""

def indent (level : Nat) : String := String.ofList (List.replicate (2 * level) ' ')

/-- Lines between brackets, one level deeper than the brackets. -/
def block (level : Nat) (opening closing : String) (lines : List String) : String :=
  if lines.isEmpty then opening ++ closing
  else
    opening ++ "\n" ++ ",\n".intercalate (lines.map (indent (level + 1) ++ ·)) ++ "\n" ++
      indent level ++ closing

/-- The value on lines of its own, nested `level` deep. -/
def render (level : Nat) : Json → String
  | null => "null"
  | boolean b => if b then "true" else "false"
  | number text => text
  | string value => quoted (value.getD "")
  | array items => block level "[" "]" (renderItems (level + 1) items)
  | object members => block level "\x7b" "\x7d" (renderMembers (level + 1) members)
where
  renderItems (level : Nat) : List Json → List String
    | [] => []
    | item :: rest => render level item :: renderItems level rest
  renderMembers (level : Nat) : List (Option String × Json) → List String
    | [] => []
    | (name, value) :: rest =>
      (quoted (name.getD "") ++ ": " ++ render level value) :: renderMembers level rest

/-- The document of a value. -/
def pretty (v : Json) : String := render 0 v

end VirtualModules.Json
