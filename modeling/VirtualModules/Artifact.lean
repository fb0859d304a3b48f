import VirtualModules.Facts
import VirtualModules.Report

/-!
# Artifacts

The artifact of a module is the text of its virtual module: a function that bears the marker,
the `mod` and `summary` lines by which the file is recognised later, and for each model with
concrete descendants two aliases, one for the union of the descendants and one for the union of
their querysets. What the text offers is recorded in a report of its own.
-/

namespace VirtualModules

structure Artifact where
  virtualPath : ImportPath
  summary : Option String
  content : String
  report : Report

/-! ## Aliases -/

/-- How the alias of a model's descendants starts. -/
def concreteAliasStart : Identifier :=
  ⟨['C', 'o', 'n', 'c', 'r', 'e', 't', 'e', '_', '_'], by decide⟩

/-- How the alias of a model's querysets starts. -/
def querysetAliasStart : Identifier :=
  ⟨['C', 'o', 'n', 'c', 'r', 'e', 't', 'e', 'Q', 'u', 'e', 'r', 'y', 'S', 'e', 't', '_', '_'],
    by decide⟩

def concreteAlias (model : ImportPath) : Identifier := concreteAliasStart.appendName model.name

def querysetAlias (model : ImportPath) : Identifier := querysetAliasStart.appendName model.name

/-- The union type of some types. -/
def unionType (types : List String) : String := " | ".intercalate types

/-- The type of a descendant's queryset: its own, or the generic one of the descendant. -/
def querysetType (generic : ImportPath) (m : Model) : String :=
  match m.customQueryset with
  | some queryset => queryset.text
  | none => generic.text ++ "[" ++ m.path.text ++ "]"

/-- The two lines that define the aliases of a model. -/
def aliasLines (generic model : ImportPath) (concrete : List Model) : List String :=
  [(concreteAlias model).text ++ " = " ++
      unionType (SortedSet.ofList (concrete.map (·.path.text))).toList,
    (querysetAlias model).text ++ " = " ++
      unionType (SortedSet.ofList (concrete.map (querysetType generic))).toList]

/-- The paths that the aliases of a model use. -/
def aliasImports (generic model : ImportPath) (concrete : List Model) : List ImportPath :=
  model :: concrete.flatMap fun m => [m.path, m.customQueryset.getD generic]

namespace Facts

/-- The models with concrete descendants, each with them. -/
def aliased (f : Facts) : List (ImportPath × List Model) :=
  f.concrete.entries.filter fun e => !e.2.isEmpty

def aliasLines (f : Facts) (generic : ImportPath) : SortedSet String :=
  .ofList (f.aliased.flatMap fun (model, concrete) =>
    VirtualModules.aliasLines generic model concrete)

def imports (f : Facts) (generic : ImportPath) : SortedSet ImportPath :=
  .ofList (f.aliased.flatMap fun (model, concrete) => aliasImports generic model concrete)

/-! ## Text -/

/-- The marker of a module that is not installed. -/
def emptyMarker : String := "empty__"

/-- The line of the function that bears a marker. -/
def markerLine (marker : String) : String := "def interface__" ++ marker ++ "() -> None:"

def moduleLine (module : ImportPath) : String := "mod = \"" ++ module.text ++ "\""

def summaryLine : Option String → String
  | some summary => "summary = \"" ++ summary ++ "\""
  | none => "summary = None"

/-- The lines of every artifact. -/
def headLines (f : Facts) : List String :=
  ["from typing import TYPE_CHECKING",
    "",
    markerLine (f.marker.getD emptyMarker),
    "    return None",
    "",
    moduleLine f.summary.modulePath,
    summaryLine f.summary.text?]

/-- The lines of imports and aliases, if there are any. -/
def aliasBlock (f : Facts) (generic : ImportPath) : List String :=
  match (f.aliasLines generic).toList with
  | [] => []
  | lines =>
    ["", "if TYPE_CHECKING:"] ++
      (f.imports generic).toList.map (fun p => "    import " ++ p.text) ++
      lines.map ("    " ++ ·)

def lines (f : Facts) (generic : ImportPath) : List String := f.headLines ++ f.aliasBlock generic

/-- The text of the artifact, each line ended by a line feed. -/
def content (f : Facts) (generic : ImportPath) : String :=
  String.join ((f.lines generic).map (· ++ "\n"))

/-! ## Report -/

/-- Enters the aliases of one model. -/
def reportAliases (virtualPath : ImportPath) (r : Report) (model : ImportPath)
    (concrete : List Model) : Report :=
  r.registerModel model (virtualPath.child (concreteAlias model))
    (virtualPath.child (querysetAlias model)) concrete

/-- The report of the artifact: its module and the aliases it defines. -/
def report (f : Facts) : Report :=
  f.aliased.foldl (fun r (model, concrete) => reportAliases f.summary.virtualPath r model concrete)
    ((∅ : Report).registerModule f.summary.modulePath f.summary.virtualPath)

end Facts

/-- The artifact of a module's facts. -/
def Artifact.render (generic : ImportPath) (f : Facts) : Artifact where
  virtualPath := f.summary.virtualPath
  summary := f.summary.text?
  content := f.content generic
  report := f.report

end VirtualModules
