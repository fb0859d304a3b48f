import VirtualModules.ImportPath
import VirtualModules.SortedSet
import VirtualModules.Disk.FileTree

/-!
# The stamp of an artifact

An artifact is recognised by two of its lines, `mod = "…"` and `summary = "…"`. `Stamp.scan`
reads a text line by line until it has met both; of several lines of one kind before that, the
last counts. A file counts as an artifact only if its module is known to a resolver
(`storedSummary?`).
-/

namespace VirtualModules

/-! ## Lines -/

/-- A line without the carriage return before its line feed. -/
def dropReturn (line : List Char) : List Char :=
  if line.getLast? = some '\r' then line.dropLast else line

/-- The lines of a text. A line feed ends a line, with a carriage return before it; what follows
the last line feed is a line unless it is empty. -/
def textLines (text : List Char) : List (List Char) :=
  let pieces := text.splitOn '\n'
  let ended := pieces.dropLast.map dropReturn
  match pieces.getLast? with
  | none | some [] => ended
  | some rest => ended ++ [rest]

/-! ## Stamps -/

/-- The value of a line that is exactly a name, an equals sign and a value in quotes, where the
value is not empty and holds no quote. -/
def quotedValue? (name : String) (line : List Char) : Option (List Char) := do
  let rest ← (name.toList ++ [' ', '=', ' ', '"']).isPrefixOf? line
  if rest.getLast? = some '"' then
    let value := rest.dropLast
    if value.isEmpty || value.contains '"' then none else some value
  else none

/-- The module and the summary that an artifact states. -/
structure Stamp where
  module : List Char
  summary : List Char
  deriving DecidableEq

namespace Stamp

/-- Reads on with the last values met so far, up to the line where both are there. -/
def scanFrom (module summary : Option (List Char)) : List (List Char) → Option Stamp
  | [] => none
  | line :: rest =>
    let module := quotedValue? "mod" line <|> module
    let summary := quotedValue? "summary" line <|> summary
    match module, summary with
    | some module, some summary => some ⟨module, summary⟩
    | _, _ => scanFrom module summary rest

/-- The stamp of a text. -/
def scan (text : String) : Option Stamp := scanFrom none none (textLines text.toList)

end Stamp

/-- The summary of a text whose stamp names a module that `known` accepts. -/
def summaryOf? (known : ImportPath → Bool) (text : String) : Option String := do
  let stamp ← Stamp.scan text
  let module ← (ImportPath.ofString (String.ofList stamp.module)).toOption
  if known module then some (String.ofList stamp.summary) else none

/-! ## Artifacts in a tree -/

/-- Decides which modules there are, perhaps by looking into the tree. -/
abbrev Resolver := FileTree → ImportPath → Bool

namespace Resolver

def everything : Resolver := fun _ _ => true

/-- Knows modules by their names alone. -/
def ofNames (known : ImportPath → Bool) : Resolver := fun _ => known

def ofSet (modules : SortedSet ImportPath) : Resolver := ofNames fun m => decide (m ∈ modules)

/-- The names of the file below a root that holds a module: its segments, the last with an
extension. -/
def moduleFile (root : Location) (extension : String) (module : ImportPath) : Location :=
  setExtension (root ++ module.segments) extension

/-- The names of the file below a root that holds a module which is a directory. -/
def packageFile (root : Location) (extension : String) (module : ImportPath) : Location :=
  root ++ module.segments ++ ["__init__." ++ extension]

/-- Finds modules as files below some directories. -/
def ofSearchPaths (roots : List Location) (extension : String) : Resolver := fun t m =>
  roots.any fun root =>
    t.isFile (moduleFile root extension m) || t.isFile (packageFile root extension m)

def either (a b : Resolver) : Resolver := fun t m => a t m || b t m

end Resolver

/-- The summary of the artifact that names lead to. Nothing that is no file, has another
extension, is no text or has no stamp of a known module has one. -/
def storedSummary? (t : FileTree) (resolver : Resolver) (extension : String)
    (names : Location) : Option String := do
  let content ← t.read? names
  if (fileName? names).bind extension? = some extension then
    summaryOf? (resolver t) (← Bytes.toText? content)
  else none

/-- In a file with the right extension the text decides, and which modules are known. -/
theorem storedSummary?_of_text {t : FileTree} {extension text : String} {names : Location}
    (resolver : Resolver) (read : t.read? names = some (.ofText text))
    (named : (fileName? names).bind extension? = some extension) :
    storedSummary? t resolver extension names = summaryOf? (resolver t) text := by
  simp only [storedSummary?, read, named, if_true, Option.bind_eq_bind, Option.bind_some,
    Bytes.toText?_ofText]

end VirtualModules
