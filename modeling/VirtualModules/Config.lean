import VirtualModules.Settings
import VirtualModules.Disk.FilePath

/-!
# Project configuration

A `Config` holds the texts of a configuration file; `Config.resolve` turns them into settings,
checking each in a fixed order. What is wrong with a configuration is a `ConfigError`. Paths of
directories are taken from the project's root, so resolving depends on the root only in them.
-/

namespace VirtualModules

structure Config where
  name : String
  description : String
  nspace : String
  destination : String
  extension : String
  markerMode : MarkerMode
  genericQueryset : String
  priority : Int
  engineNamespaces : List String
  settingsModule : Option String
  settingsAccessors : List String
  searchPaths : List String
  deriving DecidableEq

/-- A field that names a module or a type. -/
inductive PathField where
  | engineNamespaces
  | settingsAccessors
  | settingsModule
  | nspace
  | genericQueryset
  deriving DecidableEq, Repr

def PathField.label : PathField → String
  | .engineNamespaces => "dependencies.engine_namespaces"
  | .settingsAccessors => "dependencies.settings_accessors"
  | .settingsModule => "dependencies.settings_module"
  | .nspace => "virtual.namespace"
  | .genericQueryset => "virtual.generic_queryset"

inductive ConfigError where
  | malformed
  | missingName
  | badExtension (extension : String)
  | invalidPath (field : PathField) (fault : InvalidImportPath)
  deriving DecidableEq, Repr

def ConfigError.message : ConfigError → String
  | .malformed => "failed to parse configuration"
  | .missingName => "missing required field: project.name"
  | .badExtension extension =>
    "validation error: virtual.extension '" ++ extension ++
      "' must be a non-empty alphanumeric string"
  | .invalidPath field fault => field.label ++ ": " ++ fault.message

/-- A project with typed settings. -/
structure ResolvedConfig where
  name : String
  destination : FilePath
  settings : Settings

namespace Config

/-- An extension is a non-empty run of ASCII letters and digits. -/
def isExtension (s : String) : Bool := !s.toList.isEmpty && s.toList.all Char.isAlphanum

def readPath (field : PathField) (s : String) : Except ConfigError ImportPath :=
  (ImportPath.ofString s).mapError (.invalidPath field)

/-- The settings module; an empty text counts as none. -/
def readSettingsModule : Option String → Except ConfigError (Option ImportPath)
  | none => .ok none
  | some s => if s = "" then .ok none else (readPath .settingsModule s).map some

/-- The settings of a configuration, with directories taken from the project's root. -/
def resolve (c : Config) (root : FilePath) : Except ConfigError ResolvedConfig := do
  if !isExtension c.extension then throw (.badExtension c.extension)
  let engineNamespaces ← c.engineNamespaces.mapM (readPath .engineNamespaces)
  let settingsAccessors ← c.settingsAccessors.mapM (readPath .settingsAccessors)
  let settingsModule ← readSettingsModule c.settingsModule
  let nspace ← readPath .nspace c.nspace
  let genericQueryset ← readPath .genericQueryset c.genericQueryset
  return {
    name := c.name
    destination := root.join ⟨c.destination⟩
    settings := {
      nspace, genericQueryset, engineNamespaces, settingsModule, settingsAccessors
      extension := c.extension
      markerMode := c.markerMode
      priority := c.priority
      searchPaths := c.searchPaths.map fun s => root.join ⟨s⟩ } }

/-- A configuration is valid if the project has a name and everything else resolves. -/
def validate (c : Config) : Except ConfigError Unit := do
  if c.name = "" then throw .missingName
  let _ ← c.resolve ⟨"."⟩

end Config

end VirtualModules
