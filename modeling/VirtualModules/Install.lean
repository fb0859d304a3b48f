import VirtualModules.Artifact.Stamp
import VirtualModules.Disk.Action

/-!
# Installing artifacts

Artifacts are staged below a scratch directory first. Installing moves a staged artifact to its
place only if what is there states another summary, so that a pass without news touches nothing
(`placeOne`). Then whatever lies below the namespace's directory and neither was placed nor reads
as the artifact of a known module is removed (`sweepOne`), and directories that are left empty
with it.

Both parts go through a list one by one, so an install that was cut short is one that went
through the first few of them.
-/

namespace VirtualModules

/-- The names of an artifact's file below the destination. -/
def artifactFile (extension : String) (virtualPath : ImportPath) : Location :=
  setExtension virtualPath.segments extension

/-- The names of a namespace's directory below the destination. -/
def namespaceDirectory (nspace : ImportPath) : Location := nspace.segments

/-! ## Staging -/

/-- The file of a virtual module that does not lie strictly below a root. -/
structure RootEscape where
  virtualPath : ImportPath
  root : Location
  deriving DecidableEq

/-- The artifacts staged so far: the summary of each by the names of its file. -/
structure Staging where
  extension : String
  summaries : Table Location (Option String)

namespace Staging

def new (extension : String) : Staging := ⟨extension, ∅⟩

/-- The names of an artifact's file below a root. The file escapes if one of its names does not lead
on to something below. -/
def locate (s : Staging) (root : Location) (virtualPath : ImportPath) :
    Except RootEscape Location :=
  let file := artifactFile s.extension virtualPath
  if file.all fun name => !FilePath.isBlankPart name && name != ".." then .ok (root ++ file)
  else .error ⟨virtualPath, root⟩

/-- Writes an artifact below the scratch directory; it is an error there if its file escapes. -/
def stage (s : Staging) (scratch : Location) (virtualPath : ImportPath) (content : Bytes)
    (summary : Option String) : DiskAction DiskError Staging :=
  match s.locate scratch virtualPath with
  | .error escape => throw ⟨escape.root⟩
  | .ok target => do
    DiskAction.makeDirectories target.parent
    DiskAction.write target content
    let file := artifactFile s.extension virtualPath
    return { s with summaries := s.summaries.insert file summary }

end Staging

/-! ## Placing -/

/-- What an install did, as locations in ascending order. -/
structure Outcome where
  installed : List Location
  unchanged : List Location
  removed : List Location
  deriving DecidableEq, Repr

def Outcome.isNoop (o : Outcome) : Bool := o.installed.isEmpty && o.removed.isEmpty

/-- What an install works with. -/
structure InstallPlan where
  extension : String
  scratch : Location
  destination : Location
  resolver : Resolver

/-- The name that a file is copied under before it takes its place. -/
def temporaryName (file : Location) : Location :=
  file.parent ++ [file.getLast?.getD "" ++ ".vdep-tmp"]

/-- Moves a file to its place, by way of a copy if it cannot be renamed. -/
def moveFile (source target : Location) : DiskAction DiskError Unit := do
  match (← get).rename? source target with
  | some t => set t
  | none =>
    let temporary := temporaryName target
    DiskAction.change temporary (·.copy? source temporary)
    DiskAction.change target (·.rename? temporary target)

namespace InstallPlan

/-- The summary that is stored at a location. -/
def stored? (p : InstallPlan) (t : FileTree) (names : Location) : Option String :=
  storedSummary? t p.resolver p.extension names

/-- Something is there and states the given summary, or none as given. -/
def upToDate (p : InstallPlan) (t : FileTree) (target : Location) (summary : Option String) :
    Bool := t.present target && p.stored? t target == summary

/-- Puts a staged artifact in its place, whatever is there. -/
def replace (p : InstallPlan) (file : Location) : DiskAction DiskError Unit := do
  let target : Location := p.destination ++ file
  DiskAction.makeDirectories target.parent
  if (← get).isDirectory target then DiskAction.removeTree target
  moveFile (p.scratch ++ file) target

/-- Puts a staged artifact in its place unless what is there is up to date, and tells whether
it did. -/
def placeOne (p : InstallPlan) (file : Location) (summary : Option String) :
    DiskAction DiskError Bool := do
  if p.upToDate (← get) (p.destination ++ file) summary then return false
  else
    p.replace file
    return true

/-- Goes through staged artifacts; the first part of the answer was placed, the second was up to
date. -/
def placeAll (p : InstallPlan) : List (Location × Option String) →
    DiskAction DiskError (List Location × List Location)
  | [] => return ([], [])
  | (file, summary) :: rest => do
    let placed ← p.placeOne file summary
    let (installed, unchanged) ← p.placeAll rest
    let target := p.destination ++ file
    return if placed then (target :: installed, unchanged) else (installed, target :: unchanged)

/-! ## Sweeping -/

/-- Removes one thing below the namespace's directory if it has to go, and tells whether it did:
a directory if it is empty, anything else if it is not the artifact of a known module. It is an
error if a directory is out of reach by now. -/
def sweepOne (p : InstallPlan) (names : Location) : Entry → DiskAction DiskError Bool
  | .directory => do
    let t ← get
    if t.isDirectory names then
      match t.removeDirectory? names with
      | some t' =>
        set t'
        return true
      | none => return false
    else throw ⟨names⟩
  | _ => do
    if (p.stored? (← get) names).isSome then return false
    else
      DiskAction.removeFile names
      return true

/-- What sweeping does about one thing, of which it tells whether it was removed. -/
def sweepItem (p : InstallPlan) (kept : List Location) (names : Location) (entry : Entry) :
    DiskAction DiskError Bool :=
  if names ∈ kept then pure false else p.sweepOne names entry

/-- Goes through things below a directory except those in `kept`, and tells which it removed. -/
def sweepAll (p : InstallPlan) (kept : List Location) (root : Location) :
    List (Location × Entry) → DiskAction DiskError (List Location)
  | [] => return []
  | (names, entry) :: rest => do
    let names := root ++ names
    let gone ← p.sweepItem kept names entry
    let removed ← p.sweepAll kept root rest
    return if gone then names :: removed else removed

/-- A directory that lies directly in the one it was found below. -/
def isTopDirectory (item : Location × Entry) : Bool :=
  item.1.length == 1 && item.2 == .directory

/-- What lies below the namespace's directory, the content of a directory before itself; this is one
of the orders in which a walk may come by it. If the namespace's directory is reached through a link
in its place, the first directory in it is left out, so that this one stays even without content. -/
def sweepList (t : FileTree) (root : Location) : List (Location × Entry) :=
  match t.find? root, t.findLast? root with
  | some (loc, .directory), some (_, .link _) => ((t.below loc).eraseP isTopDirectory).reverse
  | some (loc, .directory), _ => (t.below loc).reverse
  | _, _ => []

/-- Removes what has to go below the namespace's directory, and tells what that was. -/
def sweep (p : InstallPlan) (kept : List Location) (nspace : ImportPath) :
    DiskAction DiskError (List Location) := do
  let root := p.destination ++ namespaceDirectory nspace
  let removed ← p.sweepAll kept root (sweepList (← get) root)
  return removed.mergeSort fun a b => a ≤ b

/-- Places all staged artifacts, then sweeps the namespace's directory. -/
def install (p : InstallPlan) (staged : Table Location (Option String)) (nspace : ImportPath) :
    DiskAction DiskError Outcome := do
  let (installed, unchanged) ← p.placeAll staged.entries
  let removed ← p.sweep (staged.keys.map (p.destination ++ ·)) nspace
  return { installed, unchanged, removed }

end InstallPlan

end VirtualModules
