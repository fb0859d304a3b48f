import VirtualModules.Report.Search

/-!
# Additional dependencies of a file

A file that imports a module depends on the virtual modules of everything related to it, however
far (`Report.reachableVirtualModules`). `Report.additionalDeps` adds these to the dependencies the
file has already, together with the settings module where the file reads settings. Files of the
virtual namespace itself and of the engine get none.
-/

namespace VirtualModules

/-- A dependency with its priority and the line it stands in. -/
structure Dep where
  priority : Int
  module : ImportPath
  line : Int
  deriving DecidableEq

/-- A dependency that stands in no line. -/
def Dep.unplaced (priority : Int) (module : ImportPath) : Dep := ⟨priority, module, -1⟩

structure ClosureSettings where
  virtualNamespace : ImportPath
  engineNamespaces : List ImportPath
  priority : Int
  settingsAccessors : List ImportPath

structure DepsRequest where
  file : ImportPath
  imports : List ImportPath
  /-- The dependencies that the file has already. -/
  superDeps : List Dep
  settingsModule : Option ImportPath

/-- The file lies in a namespace whose files get no additional dependencies. -/
def ClosureSettings.excludes (s : ClosureSettings) (file : ImportPath) : Bool :=
  (s.virtualNamespace :: s.engineNamespaces).any file.isWithin

/-- The file imports the settings module or something within a settings accessor. -/
def DepsRequest.readsSettings (q : DepsRequest) (accessors : List ImportPath)
    (settingsModule : ImportPath) : Bool :=
  q.imports.any fun i => i == settingsModule || accessors.any i.isWithin

/-- Adds a dependency on a module that none is on yet. -/
def addDep (priority : Int) (deps : List Dep) (module : ImportPath) : List Dep :=
  if deps.any (·.module == module) then deps else deps ++ [.unplaced priority module]

namespace Report

/-- Where the search starts: the file, all namespaces of what it imports as far as they have a
virtual module, and the modules it depends on already. -/
def seeds (r : Report) (q : DepsRequest) : List ImportPath :=
  q.file :: q.imports.flatMap (fun i => i.prefixes.filter r.virtualModules.contains) ++
    q.superDeps.map (·.module)

/-- The virtual modules of the modules that the search reaches, in the order of their paths. -/
def reachableVirtualModules (r : Report) (q : DepsRequest) : SortedSet ImportPath :=
  ((Search.start (r.seeds q)).run r).found

/-- The dependencies of a file: those it has, the settings module if it reads settings, and the
reachable virtual modules. -/
def additionalDeps (r : Report) (q : DepsRequest) (s : ClosureSettings) : List Dep :=
  if s.excludes q.file then q.superDeps
  else
    let withSettings := match q.settingsModule with
      | some settingsModule =>
        if q.readsSettings s.settingsAccessors settingsModule then
          addDep s.priority q.superDeps settingsModule
        else q.superDeps
      | none => q.superDeps
    (r.reachableVirtualModules q).toList.foldl (addDep s.priority) withSettings

end Report

end VirtualModules
