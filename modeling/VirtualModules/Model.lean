import VirtualModules.ImportPath
import VirtualModules.Table
import VirtualModules.SortedSet

/-!
# Models and the modules that define them

A `Model` is an entity class: its path, its module, whether it is abstract, its custom queryset,
its fields and its ancestors. A `SourceModule` holds the models it defines under their names.
Both are built up by functions that add one fact each.
-/

namespace VirtualModules

/-- One field of a model: its type, and the model at the other end if it is a relation. -/
structure Field where
  fieldType : ImportPath
  relatedModel : Option ImportPath
  deriving DecidableEq

structure Model where
  name : String
  modulePath : ImportPath
  path : ImportPath
  isAbstract : Bool
  /-- The queryset of the default manager, where it is not the generic one. -/
  customQueryset : Option ImportPath
  fields : Table String Field
  /-- The ancestors in resolution order, without the model itself. -/
  ancestors : List ImportPath
  deriving DecidableEq

namespace Model

/-- A concrete model without facts; its path is the module's path and the name. -/
def new (modulePath : ImportPath) (name : String) : Except InvalidImportPath Model :=
  (modulePath.join name).map fun path =>
    { name, modulePath, path, isAbstract := false, customQueryset := none,
      fields := ∅, ancestors := [] }

def withQueryset (m : Model) (queryset : ImportPath) : Model :=
  { m with customQueryset := some queryset }

def withAncestor (m : Model) (ancestor : ImportPath) : Model :=
  { m with ancestors := m.ancestors ++ [ancestor] }

/-- Adds a field, in place of one of the same name. -/
def withField (m : Model) (name : String) (field : Field) : Model :=
  { m with fields := m.fields.insert name field }

/-- The models at the other end of its relations, in the order of the fields' names. -/
def relatedModels (m : Model) : List ImportPath := m.fields.values.filterMap (·.relatedModel)

end Model

/-- A module and the models it defines. -/
structure SourceModule where
  path : ImportPath
  /-- Whether the module belongs to an installed application. -/
  installed : Bool
  models : Table String Model
  deriving DecidableEq

namespace SourceModule

def new (path : ImportPath) (installed : Bool) : SourceModule := ⟨path, installed, ∅⟩

/-- Adds a model under its name, in place of one of the same name. -/
def withModel (m : SourceModule) (model : Model) : SourceModule :=
  { m with models := m.models.insert model.name model }

end SourceModule

end VirtualModules
