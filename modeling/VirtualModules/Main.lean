import VirtualModules.CommandLine.Commands

/-!
# The program

Commands are functions on a file tree. The program reads into a tree what a command looks at on
the disk, runs the command, and makes the disk agree with the tree that the command leaves.
-/

namespace VirtualModules.CommandLine

/-! ## Reading the disk -/

/-- Reads a part of the disk into a tree. -/
abbrev Loading := StateT FileTree IO

/-- The path of a location in the terms of the operating system. -/
def onDisk (loc : Location) := System.mkFilePath [(absolutePath loc).text]

/-- What stands at a location; a link is not followed. -/
def kindAt (loc : Location) : IO (Option IO.FS.FileType) := do
  try return some (← (onDisk loc).symlinkMetadata).type
  catch _ => return none

/-- The location that names lead to without links on the way, if something is there. -/
def trueLocation? (names : Location) : IO (Option Location) := do
  try
    let real ← IO.FS.realPath (onDisk names)
    return some ((FilePath.parts ⟨real.toString⟩).filter (!FilePath.isBlankPart ·))
  catch _ => return none

/-- Enters something, with the directories above it. -/
def enter (loc : Location) (entry : Entry) : Loading Unit :=
  modify fun t =>
    let t := t.makeDirectories loc.dropLast
    (t.put? loc entry).getD t

/-- Enters what stands at a location that no link is on the way to; of a directory, all of its
content if asked for. A link that leads nowhere is entered as one to itself. -/
partial def load (deep : Bool) (loc : Location) : Loading Unit := do
  match ← kindAt loc with
  | none => return
  | some .file => enter loc (.file (← IO.FS.readBinFile (onDisk loc)).data.toList)
  | some .other => enter loc (.file [])
  | some .symlink =>
    let target := (← trueLocation? loc).getD loc
    enter loc (.link (absolutePath target))
    if target ≠ loc then load false target
  | some .dir =>
    enter loc .directory
    if deep then
      for child in ← (onDisk loc).readDir do
        load true (loc ++ [child.fileName])

/-- Enters everything on the way of some names, and what they lead to. -/
def loadWay (deep : Bool) (names : Location) : Loading Unit := do
  for n in List.range names.length do
    if let some name := names[n]? then
      if let some parent ← trueLocation? (names.take n) then
        if !FilePath.isBlankPart name && name ≠ ".." then load false (parent ++ [name])
  if let some loc ← trueLocation? names then load deep loc

/-- Enters the file that a path leads to from a directory. -/
def loadPath (directory : Location) (path : FilePath) : Loading Unit :=
  match namesFrom directory path with
  | some names => loadWay false names
  | none => return

/-- Enters the configuration files that may count. -/
def loadConfig (directory : Location) : (named : Option String) → Loading Unit
  | some named => do
    loadPath directory ⟨named⟩
    loadPath directory (FilePath.join ⟨named⟩ ⟨configFile⟩)
  | none => do
    for n in List.range (directory.length + 1) do
      loadWay false (directory.take n ++ [configFile])

/-- Enters the stored report, the artifacts and the scratch directories of a destination. -/
def loadDestination (p : Project) : Loading Unit := do
  loadWay false p.destination
  loadWay false (p.destination ++ [reportFile])
  loadWay true (p.destination ++ namespaceDirectory p.settings.nspace)
  if let some loc ← trueLocation? p.destination then
    if let some .dir ← kindAt loc then
      for child in ← (onDisk loc).readDir do
        if isScratchName child.fileName then load true (loc ++ [child.fileName])

/-- The modules that the artifacts in a tree state. -/
def statedModules (t : FileTree) : List ImportPath :=
  t.entries.values.filterMap fun entry =>
    match entry with
    | .file content => do
      let stamp ← Stamp.scan (← Bytes.toText? content)
      (ImportPath.ofString (String.ofList stamp.module)).toOption
    | _ => none

/-- Enters the files by which the stated modules may be found below the search paths. -/
def loadStated (p : Project) : Loading Unit := do
  for module in statedModules (← get) do
    for root in p.searchRoots do
      loadWay false (Resolver.moduleFile root p.settings.extension module)
      loadWay false (Resolver.packageFile root p.settings.extension module)

/-- Enters what a command of a project looks at. -/
def loadCommand (p : Project) (command : Command) : Loading Unit := do
  loadDestination p
  match command with
  | .generate models _ => loadPath p.directory ⟨models⟩
  | .summary artifact => loadPath p.directory ⟨artifact⟩
  | .deps .. | .aliases .. => pure ()
  loadStated p

/-- The part of the disk that some arguments are about. -/
def readDisk (directory : Location) (arguments : List String) : IO FileTree := do
  match Invocation.ofArguments arguments with
  | .run options command =>
    let ((), t) ← (loadConfig directory options.config).run ∅
    match Project.load t directory options.config with
    | .ok project => return (← (loadCommand project command).run t).2
    | .error _ => return t
  | _ => return ∅

/-! ## Writing the disk -/

/-- Removes from the disk what is gone or of another kind, the content of a directory before
itself. -/
def removeGone (before after : FileTree) : IO Unit := do
  for (loc, entry) in before.entries.entries.reverse do
    match entry, after.entry? loc with
    | .directory, some .directory | .file _, some (.file _) | .link _, some (.link _) => pure ()
    | .directory, _ => IO.FS.removeDir (onDisk loc)
    | _, _ => IO.FS.removeFile (onDisk loc)

/-- Writes what is new to the disk, a directory before its content. Commands make no links. -/
def writeNew (before after : FileTree) : IO Unit := do
  for (loc, entry) in after.entries.entries do
    if before.entry? loc ≠ some entry then
      match entry with
      | .directory => IO.FS.createDir (onDisk loc)
      | .file content => IO.FS.writeBinFile (onDisk loc) ⟨content.toArray⟩
      | .link _ => pure ()

end VirtualModules.CommandLine

open VirtualModules VirtualModules.CommandLine in
/-- Runs the program in the current directory. -/
def main (arguments : List String) : IO UInt32 := do
  let start ← IO.monoNanosNow
  let here := (FilePath.parts ⟨(← IO.currentDir).toString⟩).filter (!FilePath.isBlankPart ·)
  let before ← readDisk here arguments
  let token := processToken (start / 1000000000) (start % 1000000000)
  let (after, console) := CommandLine.run before here arguments token
  removeGone before after
  writeNew before after
  (← IO.getStdout).putStr console.output
  (← IO.getStderr).putStr console.errors
  return UInt32.ofNat console.code
