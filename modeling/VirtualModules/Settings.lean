import VirtualModules.Disk.FilePath
import VirtualModules.Report.Closure

/-!
# Settings

The `Settings` of a pass: where virtual modules live, how their files are called, which queryset
stands for models without their own, and how dependencies are added.
-/

namespace VirtualModules

/-- What the marker of an artifact follows: its content, or the process that wrote it. -/
inductive MarkerMode where
  | content
  | perProcess
  deriving DecidableEq, Repr

def MarkerMode.label : MarkerMode → String
  | .content => "content"
  | .perProcess => "per-process"

structure Settings where
  /-- The namespace of the virtual modules. -/
  nspace : ImportPath
  /-- The extension of artifact files, without the dot. -/
  extension : String
  markerMode : MarkerMode
  genericQueryset : ImportPath
  priority : Int
  engineNamespaces : List ImportPath
  settingsModule : Option ImportPath
  settingsAccessors : List ImportPath
  /-- The directories in which modules may be found. -/
  searchPaths : List FilePath

namespace Settings

def defaultNamespace : String := "__virtual_deps__"

def defaultGenericQueryset : String := "django.db.models.QuerySet"

/-- The settings where nothing is configured. -/
def default : Except InvalidImportPath Settings := do
  return {
    nspace := ← ImportPath.ofString defaultNamespace
    extension := "py"
    markerMode := .content
    genericQueryset := ← ImportPath.ofString defaultGenericQueryset
    priority := 10
    engineNamespaces := []
    settingsModule := none
    settingsAccessors := []
    searchPaths := [] }

def closureSettings (s : Settings) : ClosureSettings where
  virtualNamespace := s.nspace
  engineNamespaces := s.engineNamespaces
  priority := s.priority
  settingsAccessors := s.settingsAccessors

end Settings

end VirtualModules
