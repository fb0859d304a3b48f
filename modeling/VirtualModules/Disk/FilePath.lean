import VirtualModules.Text.Dots

/-!
# File paths

A `FilePath` is a text whose parts are separated by slashes. Joining keeps the text as it is
written, also blank and dotted parts; only `trim`, `parent?`, `fileName?` and `setExtension` look
through them.
-/

namespace VirtualModules

structure FilePath where
  text : String
  deriving DecidableEq, Repr

namespace FilePath

def isAbsolute (p : FilePath) : Bool := p.text.toList.head? == some '/'

/-- The parts between the slashes, also blank ones. -/
def parts (p : FilePath) : List String := (p.text.toList.splitOn '/').map String.ofList

/-- The path taken from a directory: an absolute path stays as it is, any other one follows the
directory and a slash. -/
def join (base p : FilePath) : FilePath :=
  if p.isAbsolute then p
  else if base.text = "" || base.text.toList.getLast? = some '/' then ⟨base.text ++ p.text⟩
  else ⟨base.text ++ "/" ++ p.text⟩

/-- The path of names below a directory. -/
def below (base : FilePath) : List String → FilePath
  | [] => base
  | names => base.join ⟨"/".intercalate names⟩

/-- A part that names nothing of its own. -/
def isBlankPart (part : String) : Bool := part = "" || part = "."

/-- Drops the blank parts at the end. -/
def dropBlank (parts : List String) : List String := (parts.reverse.dropWhile isBlankPart).reverse

/-- Drops the blank parts at the end of a whole path. A leading dot of a relative path stays,
since it is all there is. -/
def trimEnd (absolute : Bool) (parts : List String) : List String :=
  match parts with
  | [] => []
  | first :: rest =>
    let kept := dropBlank rest
    if kept.isEmpty && !absolute && first = "" then [] else first :: kept

/-- The path of parts that do not end in blank ones. -/
def ofTrimmed : List String → FilePath
  | [] => ⟨""⟩
  | [""] => ⟨"/"⟩
  | kept => ⟨"/".intercalate kept⟩

/-- The path without the blank parts at its end. -/
def trim (p : FilePath) : FilePath := .ofTrimmed (trimEnd p.isAbsolute p.parts)

/-- The path without its last name; a path without names has no parent. -/
def parent? (p : FilePath) : Option FilePath :=
  let absolute := p.isAbsolute
  let named := trimEnd absolute p.parts
  let least := if absolute then 1 else 0
  if named.length ≤ least then none
  else some (.ofTrimmed (trimEnd absolute named.dropLast))

end FilePath

/-- The last name of a list of parts, if it is a name and not a step upward. -/
def fileName? (parts : List String) : Option String :=
  match (FilePath.dropBlank parts).getLast? with
  | some name => if name = ".." then none else some name
  | none => none

/-- What follows the last dot of a file name; a dot at its start does not count. -/
def extension? (name : String) : Option String :=
  match (name.toList.splitOn '.').reverse with
  | last :: [start] => if start = [] then none else some (String.ofList last)
  | last :: _ :: _ => some (String.ofList last)
  | _ => none

/-- A file name without its extension: what stands before its last dot, or all of it if nothing
does. -/
def fileStem (name : String) : String :=
  match (cutLast name.toList).1 with
  | none | some [] => name
  | some before => String.ofList before

/-- A file name with another extension, which may be none. -/
def withExtension (name extension : String) : String :=
  if extension = "" then fileStem name else fileStem name ++ "." ++ extension

/-- Parts with another extension of their last name, and without the blank ones behind it. Parts
without a last name stay as they are. -/
def setExtension (parts : List String) (extension : String) : List String :=
  match fileName? parts with
  | some name => (FilePath.dropBlank parts).dropLast ++ [withExtension name extension]
  | none => parts

end VirtualModules
