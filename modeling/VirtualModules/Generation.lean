import VirtualModules.Artifact
import VirtualModules.Report.Merge
import VirtualModules.Settings

/-!
# Generating the artifacts of a snapshot

Every module of a snapshot gives an artifact or fails on its own (`Generator.artifacts`,
`Generator.failures`). The reports of the artifacts are merged into one, whose version changes
with the summaries (`combine`): it is the fingerprint of `versionParts`, which tell a missing
summary from an empty one.
-/

namespace VirtualModules

/-- A module that gave no artifact. -/
structure Failure where
  module : ImportPath
  error : ModelError

/-- What is fixed for all passes of one process: the settings and how markers are chosen. -/
structure Generator where
  settings : Settings
  policy : MarkerPolicy

namespace Generator

/-- The generator of some settings in a process with a token. -/
def ofSettings (settings : Settings) (token : String) : Generator where
  settings
  policy := match settings.markerMode with
    | .content => .content
    | .perProcess => .perProcess token

def context (g : Generator) (s : Snapshot) : PassContext where
  nspace := g.settings.nspace
  apps := .ofTexts s.installedApps
  policy := g.policy

/-- The artifact of one module. -/
def artifact (g : Generator) (s : Snapshot) (m : SourceModule) : Except ModelError Artifact :=
  (Facts.gather (g.context s) s m).map (Artifact.render g.settings.genericQueryset)

/-- The artifacts of the modules that do not fail, in the order of the modules' paths. -/
def artifacts (g : Generator) (s : Snapshot) : List Artifact :=
  s.moduleList.filterMap fun m => (g.artifact s m).toOption

/-- The modules that fail, in the order of their paths. -/
def failures (g : Generator) (s : Snapshot) : List Failure :=
  s.moduleList.filterMap fun m =>
    match g.artifact s m with
    | .ok _ => none
    | .error error => some ⟨m.path, error⟩

end Generator

/-! ## Combined reports -/

/-- The merged report of a pass with its version. -/
structure Combined where
  version : String
  report : Report
  deriving DecidableEq

/-- A virtual module with its summary. -/
abbrev VersionEntry := ImportPath × Option String

/-- The order of version entries: by path, and no summary before any. -/
def VersionEntry.le (a b : VersionEntry) : Bool :=
  if a.1 = b.1 then
    match a.2, b.2 with
    | none, _ => true
    | some _, none => false
    | some s, some t => s ≤ t
  else a.1 ≤ b.1

/-- The three parts that stand for a virtual module in the version. -/
def VersionEntry.parts : VersionEntry → List Bytes
  | (path, some summary) => [.ofText path.text, .ofText "some", .ofText summary]
  | (path, none) => [.ofText path.text, .ofText "none", .ofText ""]

/-- The parts that the version is the fingerprint of. -/
def versionParts (entries : List VersionEntry) : List Bytes :=
  (entries.mergeSort VersionEntry.le).flatMap VersionEntry.parts

/-- The version of a list of artifacts. -/
def version (artifacts : List Artifact) : String :=
  (Fingerprint.ofParts (versionParts (artifacts.map fun a => (a.virtualPath, a.summary)))).toHex

/-- The reports of some artifacts merged in order, or the first conflict. -/
def combine (artifacts : List Artifact) : Except Conflict Combined := do
  let report ← artifacts.foldlM (fun r a => r.merge? a.report) (∅ : Report)
  return ⟨version artifacts, report⟩

end VirtualModules
