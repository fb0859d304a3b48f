import VirtualModules.CommandLine.Arguments
import VirtualModules.Config.Document
import VirtualModules.Pass
import VirtualModules.Snapshot.Document

/-!
# Projects

A project is found by its configuration file: the one that was named, or the nearest one in the
working directory and those above it. Paths in the configuration are taken from the directory of
that file.
-/

namespace VirtualModules.CommandLine

/-- The name of configuration files. -/
def configFile : String := "vdep.toml"

/-- Why a file could not be read as a text. -/
inductive ReadFault where
  | inaccessible
  | notText
  deriving DecidableEq, Repr

/-- Why a command failed. -/
inductive CommandError where
  | noProject (start : FilePath)
  | unreadableConfig (path : FilePath) (fault : ReadFault)
  | config (error : ConfigError)
  | noReport (path : FilePath)
  | invalidPath (fault : InvalidImportPath)
  | unreadableSnapshot (path : FilePath) (fault : ReadFault)
  | model (error : ModelError)
  | disk (path : FilePath)
  | conflict (conflict : Conflict)

/-- What is said of a file behind its path; the system's own words are left out. -/
def ReadFault.message : ReadFault → String
  | .inaccessible => ""
  | .notText => ": stream did not contain valid UTF-8"

/-- What is said behind the path of a change of the disk that was refused. Only for a path that no
file can have it is more than the system's own words. -/
def refusal (path : FilePath) : String :=
  if path.text.toList.contains (Char.ofNat 0) then ": file name contained an unexpected NUL byte"
  else ""

def CommandError.message : CommandError → String
  | .noProject start =>
    "could not find " ++ configFile ++ " in " ++ start.text ++ " or any parent directory"
  | .unreadableConfig path fault => "cannot read " ++ path.text ++ fault.message
  | .config error => error.message
  | .noReport path =>
    "no usable report at " ++ path.text ++ "; run `vdep generate` first"
  | .invalidPath fault => fault.message
  | .unreadableSnapshot path fault =>
    "failed to read model snapshot " ++ path.text ++ fault.message
  | .model error => error.message
  | .disk path => "I/O error at " ++ path.text ++ refusal path
  | .conflict c => c.message

/-- Where a path leads from a directory; the empty path leads nowhere. -/
def namesFrom (directory : Location) (path : FilePath) : Option Location :=
  if path.text = "" then none
  else some (if path.isAbsolute then path.parts else directory ++ path.parts)

/-- The absolute path of a location. -/
def absolutePath (location : Location) : FilePath := ⟨"/" ++ "/".intercalate location⟩

/-- The text of the file that a path leads to. -/
def readText (t : FileTree) (directory : Location) (path : FilePath) :
    Except ReadFault String :=
  match (namesFrom directory path).bind t.read? with
  | none => .error .inaccessible
  | some content =>
    match Bytes.toText? content with
    | some text => .ok text
    | none => .error .notText

structure Project where
  /-- The directory that relative paths start from. -/
  directory : Location
  config : ResolvedConfig

namespace Project

/-- The nearest directory with a configuration file, given the working directory in reverse. -/
def nearest? (t : FileTree) : (reversed : Location) → Option Location
  | [] => if (t.find? [configFile]).isSome then some [] else none
  | name :: above =>
    if (t.find? ((name :: above).reverse ++ [configFile])).isSome then
      some (name :: above).reverse
    else nearest? t above

/-- The configuration file: the named one, the one in the named directory, or the nearest. -/
def locateConfig (t : FileTree) (directory : Location) :
    (named : Option String) → Except CommandError FilePath
  | some named =>
    if ((namesFrom directory ⟨named⟩).map t.isDirectory).getD false then
      .ok (FilePath.join ⟨named⟩ ⟨configFile⟩)
    else .ok ⟨named⟩
  | none =>
    match nearest? t directory.reverse with
    | some found => .ok ((absolutePath found).join ⟨configFile⟩)
    | none => .error (.noProject (absolutePath directory))

/-- The directory that paths in a configuration file are taken from. -/
def rootOf (config : FilePath) : FilePath :=
  match config.parent? with
  | some parent => if parent.text = "" then ⟨"."⟩ else parent
  | none => ⟨"."⟩

/-- The project of a working directory. -/
def load (t : FileTree) (directory : Location) (named : Option String) :
    Except CommandError Project := do
  let path ← locateConfig t directory named
  let text ← (readText t directory path).mapError (.unreadableConfig path)
  let config ← (Config.ofText text).mapError .config
  let resolved ← (config.resolve (rootOf path)).mapError .config
  return ⟨directory, resolved⟩

def settings (p : Project) : Settings := p.config.settings

/-- Where the artifacts of the project are. -/
def destination (p : Project) : Location :=
  (namesFrom p.directory p.config.destination).getD p.directory

def searchRoots (p : Project) : List Location :=
  p.settings.searchPaths.filterMap (namesFrom p.directory)

/-- The path of a location at or below the destination. -/
def pathOf (p : Project) (location : Location) : FilePath :=
  Place.pathOf ⟨p.config.destination, p.destination⟩ location

/-- The combined report of the last pass. -/
def loadReport (p : Project) (t : FileTree) : Except CommandError Combined :=
  match VirtualModules.loadReport t p.destination with
  | some combined => .ok combined
  | none => .error (.noReport (p.config.destination.join ⟨reportFile⟩))

end Project

end VirtualModules.CommandLine
