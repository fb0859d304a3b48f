import VirtualModules.Install
import VirtualModules.Report.Stored

/-!
# Passes

A pass generates the artifacts of a snapshot, installs them below a destination and stores the
combined report there (`Generator.runPass`). Artifacts are staged in a scratch directory inside
the destination, which goes away however the pass ends; scratch directories that earlier passes
left behind go away first.
-/

namespace VirtualModules

inductive PassError where
  | disk (error : DiskError)
  | conflict (conflict : Conflict)

structure PassOutcome where
  combined : Combined
  install : Outcome
  failures : List Failure

/-! ## Scratch directories -/

/-- How the name of every scratch directory starts. -/
def scratchStart : String := ".vdep-scratch-"

def isScratchName (name : String) : Bool := scratchStart.toList.isPrefixOf name.toList

/-- The first scratch name, counted from zero, that is none of the given names. Of one number more
than there are names, one at least is free. -/
def freshScratchName (names : List String) : String :=
  let candidates := (List.range (names.length + 1)).map fun n => scratchStart ++ toString n
  (candidates.find? (!names.contains ·)).getD scratchStart

/-- The names in the directory that a location leads to. -/
def namesIn (t : FileTree) (directory : Location) : List String :=
  match t.find? directory with
  | some (loc, .directory) => t.children loc
  | _ => []

/-- Removes the scratch directories that were left in a destination. -/
def sweepScratch (destination : Location) : List String → DiskAction DiskError Unit
  | [] => return
  | name :: rest => do
    let names := destination ++ [name]
    if isScratchName name && (← get).isDirectory names then DiskAction.removeTree names
    sweepScratch destination rest

/-- Runs an action with a new scratch directory in a destination, and removes it afterwards. -/
def withScratch {α : Type} (destination : Location)
    (action : Location → DiskAction DiskError α) : DiskAction DiskError α := do
  let scratch := destination ++ [freshScratchName (namesIn (← get) destination)]
  DiskAction.change destination (·.makeDirectory? scratch)
  (action scratch).always fun t => (t.removeTree? scratch).getD t

/-! ## Stored reports -/

/-- The name of the file that holds the combined report. -/
def reportFile : String := "report.bin"

/-- Stores a combined report in a destination. -/
def saveReport (destination : Location) (combined : Combined) : DiskAction DiskError Unit := do
  let target : Location := destination ++ [reportFile]
  DiskAction.makeDirectories target.parent
  DiskAction.write target (Stored.encode combined)

/-- The combined report that a destination holds. -/
def loadReport (t : FileTree) (destination : Location) : Option Combined :=
  (t.read? (destination ++ [reportFile])).bind Stored.decode

/-! ## The pass -/

/-- Stages artifacts one after another. -/
def stageAll (scratch : Location) (staging : Staging) (artifacts : List Artifact) :
    DiskAction DiskError Staging :=
  artifacts.foldlM (fun s a => s.stage scratch a.virtualPath (.ofText a.content) a.summary) staging

/-- Stages artifacts in a scratch directory and installs them from there. -/
def installArtifacts (settings : Settings) (artifacts : List Artifact) (destination : Location)
    (resolver : Resolver) : DiskAction DiskError Outcome :=
  withScratch destination fun scratch => do
    let staging ← stageAll scratch (.new settings.extension) artifacts
    let plan : InstallPlan := ⟨settings.extension, scratch, destination, resolver⟩
    plan.install staging.summaries settings.nspace

/-- The modules of a snapshot, and those that files below some directories hold. -/
def passResolver (extension : String) (s : Snapshot) (searchRoots : List Location) : Resolver :=
  let known := Resolver.ofSet (.ofList s.modules.keys)
  if searchRoots.isEmpty then known else known.either (.ofSearchPaths searchRoots extension)

/-- Installs the artifacts of a snapshot below a destination and stores their report there. -/
def Generator.runPass (g : Generator) (s : Snapshot) (destination : Location)
    (resolver : Resolver) : DiskAction PassError PassOutcome := do
  let artifacts := g.artifacts s
  let install ← DiskAction.mapError .disk do
    DiskAction.makeDirectories destination
    sweepScratch destination (namesIn (← get) destination)
    installArtifacts g.settings artifacts destination resolver
  match combine artifacts with
  | .error conflict => throw (.conflict conflict)
  | .ok combined =>
    DiskAction.mapError .disk (saveReport destination combined)
    return { combined, install, failures := g.failures s }

end VirtualModules
