import VirtualModules.Model

/-!
# Reports

A `Report` records what the virtual modules offer: for each model its two aliases, for each
module its virtual module, and for each module the modules that its models touch. The relation
between modules is entered in both directions (`relate`).
-/

namespace VirtualModules

/-- A table that gives each path one path. -/
abbrev PathTable := Table ImportPath ImportPath

structure Report where
  /-- For each model, the alias of the union of its concrete descendants. -/
  concreteAliases : PathTable
  /-- For each model, the alias of the union of their querysets. -/
  querysetAliases : PathTable
  /-- For each module, its virtual module. -/
  virtualModules : PathTable
  /-- For each module, the modules that share a touched model with it. -/
  relatedModules : Table ImportPath (SortedSet ImportPath)
  deriving DecidableEq

namespace Report

def empty : Report := ⟨∅, ∅, ∅, ∅⟩

instance : EmptyCollection Report := ⟨empty⟩
instance : Inhabited Report := ⟨empty⟩

/-- Gives a module its virtual module. -/
def registerModule (r : Report) (modulePath virtualPath : ImportPath) : Report :=
  { r with virtualModules := r.virtualModules.insert modulePath virtualPath }

/-- The modules related to one. -/
def relatedTo (r : Report) (module : ImportPath) : SortedSet ImportPath :=
  (r.relatedModules.get? module).getD ∅

/-- Enters `b` among the modules related to `a`. -/
def addRelated (r : Report) (a b : ImportPath) : Report :=
  { r with relatedModules := r.relatedModules.insert a ((r.relatedTo a).insert b) }

/-- Relates two different modules to each other; a module is not related to itself. -/
def relate (r : Report) (a b : ImportPath) : Report :=
  if a = b then r else (r.addRelated b a).addRelated a b

end Report

/-- The paths that a concrete descendant touches: itself, its queryset, the models its fields
relate to and its ancestors. -/
def Model.touched (m : Model) : List ImportPath :=
  m.path :: m.customQueryset.toList ++ m.relatedModels ++ m.ancestors

namespace Report

/-- Relates a model's module to the module of every path its concrete descendants touch. -/
def relateTouched (r : Report) (modulePath : ImportPath) (concrete : List Model) : Report :=
  ((concrete.flatMap Model.touched).filterMap ImportPath.parent?).foldl
    (fun r other => r.relate modulePath other) r

/-- Gives a model its two aliases and relates its module to those its descendants touch. A model
outside any module relates nothing. -/
def registerModel (r : Report) (model concreteAlias querysetAlias : ImportPath)
    (concrete : List Model) : Report :=
  let r := { r with
    concreteAliases := r.concreteAliases.insert model concreteAlias
    querysetAliases := r.querysetAliases.insert model querysetAlias }
  match model.parent? with
  | none => r
  | some modulePath => r.relateTouched modulePath concrete

/-- What a table holds for each of the requested models. -/
def lookup (table : PathTable) (models : List ImportPath) :
    Table ImportPath (Option ImportPath) :=
  Table.ofList (models.map fun m => (m, table.get? m))

end Report

end VirtualModules
