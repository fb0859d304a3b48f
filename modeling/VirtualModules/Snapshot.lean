import VirtualModules.Model

/-!
# Snapshots of the models of a project

A `Snapshot` holds the installed applications, the modules and the models of a project, and
answers which concrete models descend from a model (`concreteModels`). It is built module by
module (`ofModules`); no two modules may define one model path.

An explicit table, where there is one, decides the descendants of the models it lists. All
others are found by their ancestors.
-/

namespace VirtualModules

/-- Why a snapshot could not be built or asked. -/
inductive ModelError where
  | unknown (path : ImportPath)
  | duplicate (model first second : ImportPath)
  | invalidPath (fault : InvalidImportPath)
  | malformed
  deriving DecidableEq

def ModelError.message : ModelError → String
  | .unknown path => "unknown model '" ++ path.text ++ "'"
  | .duplicate model first second =>
    "model '" ++ model.text ++ "' is defined by both '" ++ first.text ++ "' and '" ++
      second.text ++ "'"
  | .invalidPath fault => fault.message
  | .malformed => "failed to parse model snapshot"

/-- For each listed model, the paths of the models that count as its descendants. -/
abbrev DescendantTable := Table ImportPath (List ImportPath)

structure Snapshot where
  installedApps : List String
  modules : Table ImportPath SourceModule
  /-- Every model of every module, by its path. -/
  models : Table ImportPath Model
  /-- The explicit descendants, which override those found by ancestors. -/
  explicit : Option DescendantTable
  deriving DecidableEq

namespace Snapshot

def empty (installedApps : List String) : Snapshot := ⟨installedApps, ∅, ∅, none⟩

/-- Enters a model that `owner` defines; a path that is taken already is refused. -/
def insertModel (owner : ImportPath) (models : Table ImportPath Model) (model : Model) :
    Except ModelError (Table ImportPath Model) :=
  match models.get? model.path with
  | some existing => .error (.duplicate model.path existing.modulePath owner)
  | none => .ok (models.insert model.path model)

/-- Enters a module and its models. -/
def insertModule (s : Snapshot) (m : SourceModule) : Except ModelError Snapshot := do
  let models ← m.models.values.foldlM (insertModel m.path) s.models
  return { s with models, modules := s.modules.insert m.path m }

/-- The snapshot of a list of modules. -/
def ofModules (installedApps : List String) (modules : List SourceModule) :
    Except ModelError Snapshot :=
  modules.foldlM insertModule (empty installedApps)

def withExplicit (s : Snapshot) (table : DescendantTable) : Snapshot :=
  { s with explicit := some table }

def model? (s : Snapshot) (path : ImportPath) : Option Model := s.models.get? path

def module? (s : Snapshot) (path : ImportPath) : Option SourceModule := s.modules.get? path

/-- The modules, in the order of their paths. -/
def moduleList (s : Snapshot) : List SourceModule := s.modules.values

/-- The explicit descendants of a model, if the table lists it. -/
def explicit? (s : Snapshot) (parent : ImportPath) : Option (List ImportPath) :=
  s.explicit.bind (·.get? parent)

/-- The model known at a path. -/
def findModel (s : Snapshot) (path : ImportPath) : Except ModelError Model :=
  match s.model? path with
  | some model => .ok model
  | none => .error (.unknown path)

/-- A concrete model descends from itself and from its ancestors. -/
def descendsFrom (parent : ImportPath) (m : Model) : Bool :=
  !m.isAbstract && (m.path == parent || m.ancestors.contains parent)

/-- The models that descend from a model by their ancestors, in the order of their paths. -/
def derivedDescendants (s : Snapshot) (parent : ImportPath) : List Model :=
  s.models.values.filter (descendsFrom parent)

/-- The concrete models that descend from a known model, in the order of their paths. -/
def concreteModels (s : Snapshot) (parent : ImportPath) : Except ModelError (List Model) := do
  let _ ← s.findModel parent
  match s.explicit? parent with
  | some paths => return (← paths.mapM s.findModel).mergeSort fun a b => a.path ≤ b.path
  | none => return s.derivedDescendants parent

end Snapshot

end VirtualModules
