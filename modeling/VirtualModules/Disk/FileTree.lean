import VirtualModules.Bytes
import VirtualModules.Table
import VirtualModules.Disk.Location

/-!
# File trees

A `FileTree` is a file system as a value: files, links and directories at their locations below
one root. Whatever stands in a tree stands in a directory of it (`FileTree.closed`).

* `put?` enters one thing where a directory can hold it, and `prune` removes a thing with all
  below it; every other change is made of these two.
* `locate` follows names from the root as an operating system does: dots, steps upward, and
  links, of which at most `maxLinks` are followed.
* `makeDirectories` makes a directory with those above it, from the top down and as far as their
  places are vacant.
-/

namespace VirtualModules

/-- What stands at a location. -/
inductive Entry where
  | file (content : Bytes)
  | link (target : FilePath)
  | directory
  deriving DecidableEq

/-- A directory stands at a location; the root is one. -/
def HoldsDirectory (entries : Table Location Entry) (loc : Location) : Prop :=
  loc = [] ∨ entries.get? loc = some .directory

instance (entries : Table Location Entry) (loc : Location) :
    Decidable (HoldsDirectory entries loc) := inferInstanceAs (Decidable (_ ∨ _))

/-- Files, links and directories at their locations below a root. -/
structure FileTree where
  entries : Table Location Entry
  closed : ∀ loc entry, entries.get? loc = some entry →
    loc ≠ [] ∧ HoldsDirectory entries loc.dropLast

namespace FileTree

/-- The tree with nothing below its root. -/
def empty : FileTree := ⟨∅, fun _ _ h => by simp at h⟩

instance : EmptyCollection FileTree := ⟨empty⟩
instance : Inhabited FileTree := ⟨empty⟩

theorem ext_entries {s t : FileTree} (h : s.entries = t.entries) : s = t := by
  cases s; cases t; simp_all

instance : DecidableEq FileTree := fun s t =>
  if h : s.entries = t.entries then .isTrue (ext_entries h) else .isFalse fun e => h (e ▸ rfl)

/-- What stands at a location, taken literally. -/
def entry? (t : FileTree) (loc : Location) : Option Entry :=
  if loc = [] then some .directory else t.entries.get? loc

/-! ## The two basic changes -/

theorem closed_insert (t : FileTree) {loc : Location} (entry : Entry) (nonempty : loc ≠ [])
    (parent : HoldsDirectory t.entries loc.dropLast)
    (notDirectory : t.entries.get? loc ≠ some .directory) :
    ∀ l e, (t.entries.insert loc entry).get? l = some e →
      l ≠ [] ∧ HoldsDirectory (t.entries.insert loc entry) l.dropLast := by
  intro l e h
  have keeps {d : Location} (hd : HoldsDirectory t.entries d) :
      HoldsDirectory (t.entries.insert loc entry) d := by
    rcases hd with rfl | hd
    · exact .inl rfl
    · refine .inr ?_
      rwa [Table.get?_insert_ne]
      rintro rfl
      exact notDirectory hd
  by_cases same : l = loc
  · subst same
    exact ⟨nonempty, keeps parent⟩
  · rw [Table.get?_insert_ne _ same] at h
    obtain ⟨hl, hd⟩ := t.closed l e h
    exact ⟨hl, keeps hd⟩

/-- Enters something at a location: in a directory, and not in place of one. -/
def put? (t : FileTree) (loc : Location) (entry : Entry) : Option FileTree :=
  if h : loc ≠ [] ∧ HoldsDirectory t.entries loc.dropLast ∧
      t.entries.get? loc ≠ some .directory then
    some ⟨t.entries.insert loc entry, t.closed_insert entry h.1 h.2.1 h.2.2⟩
  else none

/-- Removes what stands at a location and everything below it. -/
def prune (t : FileTree) (loc : Location) : FileTree where
  entries := t.entries.filter fun l _ => !loc.isPrefixOf l
  closed l e h := by
    rw [Table.get?_filter, Option.filter_eq_some_iff] at h
    obtain ⟨found, kept⟩ := h
    obtain ⟨nonempty, parent⟩ := t.closed l e found
    refine ⟨nonempty, parent.imp_right fun hd => ?_⟩
    rw [Table.get?_filter, Option.filter_eq_some_iff]
    refine ⟨hd, ?_⟩
    simp only [Bool.not_eq_true', ← Bool.not_eq_true, List.isPrefixOf_iff_prefix] at kept ⊢
    exact fun below => kept (below.trans (List.dropLast_prefix l))

/-! ## Following names -/

/-- How many links are followed on one way. -/
def maxLinks : Nat := 40

/-- Where following names leads. -/
inductive Arrival where
  /-- Something stands there. -/
  | found (loc : Location)
  /-- Nothing stands there, but it is a place in a directory. -/
  | vacant (loc : Location)
  /-- A directory on the way is not there. -/
  | missing
  /-- The way leads through a link: on from a directory by more names. -/
  | link (directory : Location) (names : List String)
  /-- The way leads through something else than a directory, or cannot be followed at all. -/
  | lost
  deriving DecidableEq

/-- Follows names from a directory up to the first link. A link at the very end is followed only
if asked for. -/
def advance (t : FileTree) (followLast : Bool) : (directory : Location) → List String → Arrival
  | here, [] => .found here
  | here, name :: rest =>
    if FilePath.isBlankPart name then t.advance followLast here rest
    else if name = ".." then t.advance followLast here.dropLast rest
    else if name.utf8ByteSize > Location.maxNameBytes then .lost
    else
      match t.entries.get? (here ++ [name]) with
      | none => if rest = [] then .vacant (here ++ [name]) else .missing
      | some (.file _) => if rest = [] then .found (here ++ [name]) else .lost
      | some .directory => t.advance followLast (here ++ [name]) rest
      | some (.link target) =>
        if rest = [] && !followLast then .found (here ++ [name])
        else .link (if target.isAbsolute then [] else here) (target.parts ++ rest)

/-- Follows names from a directory through at most a number of links. -/
def walk (t : FileTree) (followLast : Bool) : (links : Nat) → Location → List String → Arrival
  | 0, here, names =>
    match t.advance followLast here names with
    | .link .. => .lost
    | arrival => arrival
  | links + 1, here, names =>
    match t.advance followLast here names with
    | .link here' names' => t.walk followLast links here' names'
    | arrival => arrival

/-- Where usable names lead from the root. -/
def follow (t : FileTree) (followLast : Bool) (names : Location) : Arrival :=
  if names.isUsable then t.walk followLast maxLinks [] names else .lost

/-- Where names lead from the root, following links to the end. -/
def locate (t : FileTree) (names : Location) : Arrival := t.follow true names

/-- Where names lead from the root, stopping at a link in the last place. -/
def locateLast (t : FileTree) (names : Location) : Arrival := t.follow false names

/-! ## Asking -/

/-- What names lead to, with its true location. -/
def find? (t : FileTree) (names : Location) : Option (Location × Entry) :=
  match t.locate names with
  | .found loc => (t.entry? loc).map (loc, ·)
  | _ => none

/-- What names lead to, with its true location; a link in the last place is found itself. -/
def findLast? (t : FileTree) (names : Location) : Option (Location × Entry) :=
  match t.locateLast names with
  | .found loc => (t.entry? loc).map (loc, ·)
  | _ => none

/-- Something stands there, if only a link that leads nowhere. -/
def present (t : FileTree) (names : Location) : Bool := (t.findLast? names).isSome

def isDirectory (t : FileTree) (names : Location) : Bool :=
  match t.find? names with
  | some (_, .directory) => true
  | _ => false

/-- The content of a file. -/
def read? (t : FileTree) (names : Location) : Option Bytes :=
  match t.find? names with
  | some (_, .file content) => some content
  | _ => none

def isFile (t : FileTree) (names : Location) : Bool := (t.read? names).isSome

/-- What stands below a location, each with the names that lead there from it; a directory comes
before its content. -/
def below (t : FileTree) (loc : Location) : List (Location × Entry) :=
  t.entries.entries.filterMap fun (l, e) =>
    match loc.isPrefixOf? l with
    | some (name :: rest) => some (name :: rest, e)
    | _ => none

/-- The names of what stands in a directory. -/
def children (t : FileTree) (loc : Location) : List String :=
  (t.below loc).filterMap fun (names, _) =>
    match names with
    | [name] => some name
    | _ => none

/-! ## Changing -/

/-- Writes a file, new or in place of the content it has. -/
def write? (t : FileTree) (names : Location) (content : Bytes) : Option FileTree :=
  match t.locate names with
  | .found loc | .vacant loc => t.put? loc (.file content)
  | _ => none

/-- Makes one directory where nothing stands. -/
def makeDirectory? (t : FileTree) (names : Location) : Option FileTree :=
  match t.locateLast names with
  | .vacant loc => t.put? loc .directory
  | _ => none

/-- Makes the directories on a way on from one wherever nothing stands. Once the way ends, nothing
more is made, for whatever lies further on is out of reach. -/
def makeDirectoriesFrom (t : FileTree) (directory : Location) : List String → FileTree
  | [] => t
  | name :: rest =>
    let here := directory ++ [name]
    ((t.makeDirectory? here).getD t).makeDirectoriesFrom here rest

/-- Makes a directory with all directories on the way to it, unless they are there. It was
possible if the names lead to a directory afterwards; if not, the first few may have been made. -/
def makeDirectories (t : FileTree) (names : Location) : FileTree :=
  if names.isUsable then t.makeDirectoriesFrom [] names.makeable else t

/-- Makes a link, which may lead nowhere, but not by an empty path. -/
def makeLink? (t : FileTree) (names : Location) (target : FilePath) : Option FileTree :=
  match t.locateLast names with
  | .vacant loc =>
    if target.text ≠ "" && Location.isUsable target.parts then t.put? loc (.link target) else none
  | _ => none

/-- Removes a file or a link. -/
def removeFile? (t : FileTree) (names : Location) : Option FileTree :=
  match t.findLast? names with
  | some (_, .directory) | none => none
  | some (loc, _) => some (t.prune loc)

/-- Removes a directory with all its content; of a link to a directory, the link. -/
def removeTree? (t : FileTree) (names : Location) : Option FileTree :=
  match t.findLast? names with
  | some (_, .file _) | none => none
  | some (loc, _) => some (t.prune loc)

/-- Removes a directory without content. -/
def removeDirectory? (t : FileTree) (names : Location) : Option FileTree :=
  match t.findLast? names with
  | some (loc, .directory) => if (t.below loc).isEmpty then some (t.prune loc) else none
  | _ => none

/-- Whether something may take the place of what stands at a location: a directory only of an
empty directory, anything else only of what is no directory. -/
def replaceable (t : FileTree) (entry : Entry) (loc : Location) : Bool :=
  match entry, t.entry? loc with
  | _, none => true
  | .directory, some .directory => (t.below loc).isEmpty
  | .directory, some _ => false
  | _, some .directory => false
  | _, some _ => true

/-- Moves what stands at one location, with all below it, to another. -/
def moveTo? (t : FileTree) (source : Location) (entry : Entry) (target : Location) :
    Option FileTree :=
  if source = target then some t
  else if source.isPrefixOf target || !t.replaceable entry target then none
  else
    ((t.prune target).prune source).put? target entry >>= fun moved =>
      (t.below source).foldlM (fun t (names, e) => t.put? (target ++ names) e) moved

/-- Renames a file, a link or a directory, in place of what stands at the target. -/
def rename? (t : FileTree) (source target : Location) : Option FileTree :=
  match t.findLast? source, t.locateLast target with
  | some (loc, entry), .found target | some (loc, entry), .vacant target =>
    t.moveTo? loc entry target
  | _, _ => none

/-- Copies the content of a file. -/
def copy? (t : FileTree) (source target : Location) : Option FileTree :=
  (t.read? source).bind (t.write? target ·)

end FileTree

end VirtualModules
