import VirtualModules.Disk.FileTree

/-!
# Actions on a disk

A `DiskAction` changes a file tree and may fail. What it did before it failed stays done, so a
failing action leaves a tree, too.
-/

namespace VirtualModules

/-- An action on a file tree that may fail with an error and keeps what it did until then. -/
abbrev DiskAction (ε : Type) := EStateM ε FileTree

/-- A change of the disk that was refused, with the place it was about. -/
structure DiskError where
  location : Location
  deriving DecidableEq, Repr

namespace DiskAction

variable {ε ε' α : Type}

/-- A change that is an error at a place if the tree refuses it. -/
def change (location : Location) (f : FileTree → Option FileTree) : DiskAction DiskError Unit :=
  fun t =>
    match f t with
    | some t' => .ok () t'
    | none => .error ⟨location⟩ t

/-- An action with its errors told differently. -/
def mapError (f : ε → ε') (action : DiskAction ε α) : DiskAction ε' α := fun t =>
  match action t with
  | .ok a t' => .ok a t'
  | .error e t' => .error (f e) t'

/-- An action after which the tree is changed once more, however it ended. -/
def always (action : DiskAction ε α) (last : FileTree → FileTree) : DiskAction ε α := fun t =>
  match action t with
  | .ok a t' => .ok a (last t')
  | .error e t' => .error e (last t')

/-- Makes a directory with all directories on the way to it, unless they are there. -/
def makeDirectories (names : Location) : DiskAction DiskError Unit := fun t =>
  let t' := t.makeDirectories names
  if t'.isDirectory names then .ok () t' else .error ⟨names⟩ t'

def write (names : Location) (content : Bytes) : DiskAction DiskError Unit :=
  change names (·.write? names content)

def removeTree (names : Location) : DiskAction DiskError Unit :=
  change names (·.removeTree? names)

def removeFile (names : Location) : DiskAction DiskError Unit :=
  change names (·.removeFile? names)

end DiskAction

end VirtualModules
