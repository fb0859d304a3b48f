import VirtualModules.Fingerprint
import VirtualModules.Snapshot

/-!
# Facts of a module

The facts of a module are what its artifact is rendered from: the concrete descendants of its
models, and a summary that names the module, its virtual module and, for an installed module,
the fingerprints of the installed applications and of all significant paths. Nothing is
gathered about a module that is not installed.
-/

namespace VirtualModules

/-! ## Names -/

/-- How the last segment of every virtual module starts. -/
def virtualNameStart : Identifier := ⟨['m', 'o', 'd', '_'], by decide⟩

/-- The virtual module of a module: a name made of the hash of the module's path. -/
def virtualPath (nspace modulePath : ImportPath) : ImportPath :=
  nspace.child (virtualNameStart.appendHash (shortHash (.ofText modulePath.text)))

/-! ## Summaries -/

inductive SummaryState where
  | notInstalled
  | installed (apps significant : Fingerprint)
  deriving DecidableEq, Repr

structure Summary where
  virtualPath : ImportPath
  modulePath : ImportPath
  state : SummaryState
  deriving DecidableEq

/-- The text by which a changed artifact is told; a module that is not installed has none. -/
def Summary.text? (s : Summary) : Option String :=
  match s.state with
  | .notInstalled => none
  | .installed apps significant =>
    some (s.virtualPath.text ++ "::" ++ s.modulePath.text ++ "::installed_apps=" ++ apps.toHex ++
      "::significant=" ++ significant.toHex)

/-- How the marker of an artifact is chosen. -/
inductive MarkerPolicy where
  | content
  | perProcess (token : String)
  deriving DecidableEq, Repr

/-- The marker of an artifact with a summary: the hash of the summary, or the process's token. -/
def MarkerPolicy.marker? (policy : MarkerPolicy) (s : Summary) : Option String :=
  s.text?.map fun text =>
    match policy with
    | .content => String.ofList (hexDigits 16 (shortHash (.ofText text)).toNat)
    | .perProcess token => token

/-- The token of a process that started at a time. -/
def processToken (seconds nanoseconds : Nat) : String :=
  let digits := toString nanoseconds
  toString seconds ++ "_" ++ String.ofList (List.replicate (9 - digits.length) '0') ++ digits

/-! ## Significant paths -/

/-- The concrete descendants of each of some models. -/
abbrev ConcreteTable := Table ImportPath (List Model)

/-- The concrete descendants of every model of a module. -/
def concreteTable (s : Snapshot) (m : SourceModule) : Except ModelError ConcreteTable :=
  m.models.values.foldlM
    (fun table model => return table.insert model.path (← s.concreteModels model.path)) ∅

/-- The models of a module, their querysets and the models they relate to. -/
def relatedPaths (m : SourceModule) : SortedSet ImportPath :=
  .ofList (m.models.values.flatMap fun model =>
    model.path :: model.customQueryset.toList ++ model.relatedModels)

/-- The concrete descendants and their querysets. -/
def descendantPaths (concrete : ConcreteTable) : SortedSet ImportPath :=
  .ofList (concrete.values.flatten.flatMap fun model => model.path :: model.customQueryset.toList)

/-- The paths whose change is to be noticed. -/
def significantPaths (m : SourceModule) (concrete : ConcreteTable) : SortedSet ImportPath :=
  relatedPaths m ∪ descendantPaths concrete

/-- The parts that the fingerprint of a set of paths is made of. -/
def pathParts (paths : SortedSet ImportPath) : List Bytes :=
  paths.toList.map fun p => .ofText p.text

/-! ## Facts -/

structure Facts where
  module : SourceModule
  summary : Summary
  marker : Option String
  relatedPaths : SortedSet ImportPath
  concrete : ConcreteTable

/-- What holds for a whole pass. -/
structure PassContext where
  nspace : ImportPath
  /-- The fingerprint of the installed applications. -/
  apps : Fingerprint
  policy : MarkerPolicy

namespace Facts

/-- The facts of a module that is not installed. -/
def ofUninstalled (c : PassContext) (m : SourceModule) : Facts where
  module := m
  summary := ⟨virtualPath c.nspace m.path, m.path, .notInstalled⟩
  marker := none
  relatedPaths := ∅
  concrete := ∅

/-- The facts of an installed module with the given descendants. -/
def ofConcrete (c : PassContext) (m : SourceModule) (concrete : ConcreteTable) : Facts :=
  let significant := Fingerprint.ofParts (pathParts (significantPaths m concrete))
  let summary := ⟨virtualPath c.nspace m.path, m.path, .installed c.apps significant⟩
  { module := m, summary, marker := c.policy.marker? summary,
    relatedPaths := VirtualModules.relatedPaths m, concrete }

/-- The facts of a module, which fail if a descendant is unknown. -/
def gather (c : PassContext) (s : Snapshot) (m : SourceModule) : Except ModelError Facts :=
  if m.installed then return ofConcrete c m (← concreteTable s m) else .ok (ofUninstalled c m)

end Facts

end VirtualModules
