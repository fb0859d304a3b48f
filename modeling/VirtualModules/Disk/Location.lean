import VirtualModules.Disk.FilePath

/-!
# Locations

A `Location` is the list of names that lead from the root of a file tree to a place in it, as a
path writes them: there may be blank names, dots and steps upward among them.

* `Location.isUsable` tells which names can be followed at all.
* `Location.parent` and `Location.makeable` say what of a location counts when the directory it
  lies in is made, and when it is made itself.
* `Place.pathOf` turns locations back into the paths they came from.
-/

namespace VirtualModules

/-- The names that lead from the root of a tree to a place in it. -/
abbrev Location := List String

/-! Locations are ordered name by name. -/

instance : LE Location := List.instLE
instance : DecidableLE Location := fun a b => List.decidableLE a b
instance : Std.IsLinearOrder Location := List.instIsLinearOrder
instance : Std.LawfulOrderLT Location := List.instLawfulOrderLTOfAsymmLt

namespace Location

/-! ## Limits -/

/-- The most bytes that a name may have. -/
def maxNameBytes : Nat := 255

/-- The most bytes that all names may have together. -/
def maxBytes : Nat := 4095

/-- The bytes of all names, each with a slash before it. -/
def byteLength : Location → Nat
  | [] => 0
  | name :: rest => 1 + name.utf8ByteSize + byteLength rest

/-- Names that can be followed, wherever they lead: none holds a NUL, and together they are not
too long. -/
def isUsable (loc : Location) : Bool :=
  loc.all (fun name => !name.toList.contains (Char.ofNat 0)) && loc.byteLength ≤ maxBytes

/-! ## Ends of locations -/

/-- The location of the directory that something lies in: without its name and without the blank
names around it. -/
def parent (loc : Location) : Location :=
  FilePath.dropBlank (FilePath.dropBlank loc).dropLast

/-- Drops the empty names at the end, which come from slashes. -/
def dropSlashes (loc : Location) : Location := (loc.reverse.dropWhile (· = "")).reverse

/-- The names to make directories of when a location is to become a directory. Slashes at the end
do not count. A dot at the end asks for a directory that is there already, so that only those
above it are made. -/
def makeable (loc : Location) : Location :=
  let named := loc.dropSlashes
  if named.getLast? = some "." then loc.parent else named

end Location

/-! ## Places -/

/-- A path with the location that it stands for. -/
structure Place where
  path : FilePath
  location : Location
  deriving DecidableEq, Repr

/-- The path of a place itself, of what lies below it, or of what lies below it without the blank
names at its end. -/
def Place.pathOf (p : Place) (loc : Location) : FilePath :=
  match p.location.isPrefixOf? loc with
  | some names => p.path.below names
  | none => p.path.trim.below (loc.drop (FilePath.dropBlank p.location).length)

end VirtualModules
