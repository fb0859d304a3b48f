import Mathlib.Data.List.Induction
import VirtualModules.Disk.FileTree

/-!
# Following names in parts

Following names leads through what their first part leads to (`advance_append`, `walk_append`), so
what lies below a directory can be looked up from there. `Root` says that a destination leads to a
directory, whatever changes below that directory, and that there are no links below it. A
destination that leads to a directory without content is one (`Root.of_empty`), and stays one under
every change below it (`Root.congr`). In a tree without links where all names are plain every
directory is one (`linkFree_of_no_links`).
-/

namespace VirtualModules

namespace FileTree

variable {t t' : FileTree}

/-! ## Directories above -/

theorem HoldsDirectory.dropLast {loc : Location} (h : HoldsDirectory t.entries loc) :
    HoldsDirectory t.entries loc.dropLast := by
  rcases h with rfl | found
  · exact .inl rfl
  · exact (t.closed loc _ found).2

/-- Everything above something is a directory. -/
theorem holdsDirectory_of_get? {loc names : Location} {entry : Entry} (nonempty : names ≠ [])
    (found : t.entries.get? (loc ++ names) = some entry) : HoldsDirectory t.entries loc := by
  induction names using List.reverseRecOn generalizing entry with
  | nil => exact absurd rfl nonempty
  | append_singleton init name ih =>
    have parent := (t.closed _ _ found).2
    rw [← List.append_assoc, List.dropLast_concat] at parent
    by_cases last : init = []
    · simpa [last] using parent
    · rcases parent with none | found_init
      · simp [last] at none
      · exact ih last found_init

/-- Everything on the way to a directory is one. -/
theorem directory_on_way {loc q r : Location}
    (directory : t.entries.get? (loc ++ q) = some .directory) (way : r <+: q) (nonempty : r ≠ []) :
    t.entries.get? (loc ++ r) = some .directory := by
  obtain ⟨rest, rfl⟩ := way
  by_cases last : rest = []
  · simpa [last] using directory
  · rw [← List.append_assoc] at directory
    exact (holdsDirectory_of_get? last directory).resolve_left (by simp [nonempty])

/-! ## Names in two parts -/

/-- The way through `p` and on through more names goes on from where `p` leads. -/
theorem advance_append (followLast : Bool) {here p q : Location}
    (directory : HoldsDirectory t.entries here) (more : q ≠ []) :
    t.advance followLast here (p ++ q) =
      match t.advance true here p with
      | .found loc =>
        if HoldsDirectory t.entries loc then t.advance followLast loc q else .lost
      | .vacant _ | .missing => .missing
      | .link d names => .link d (names ++ q)
      | .lost => .lost := by
  induction p generalizing here with
  | nil => simp [advance, directory]
  | cons name rest ih =>
    have goes_on : rest ++ q ≠ [] := by simp [more]
    rw [List.cons_append, advance, advance]
    by_cases blank : FilePath.isBlankPart name
    · rw [if_pos blank, if_pos blank]
      exact ih directory
    rw [if_neg blank, if_neg blank]
    by_cases up : name = ".."
    · rw [if_pos up, if_pos up]
      exact ih (HoldsDirectory.dropLast directory)
    rw [if_neg up, if_neg up]
    by_cases long : name.utf8ByteSize > Location.maxNameBytes
    · rw [if_pos long, if_pos long]
    rw [if_neg long, if_neg long]
    cases found : t.entries.get? (here ++ [name]) with
    | none => by_cases last : rest = [] <;> simp [last, more]
    | some entry =>
      cases entry with
      | file content =>
        have no_directory : ¬ HoldsDirectory t.entries (here ++ [name]) := by
          rintro (none | holds)
          · simp at none
          · rw [found] at holds
            cases holds
        by_cases last : rest = [] <;> simp [last, more, no_directory]
      | directory => exact ih (.inr found)
      | link target => simp [more]

/-- A link is met in a directory. -/
theorem holdsDirectory_of_link {followLast : Bool} {here names d names' : Location}
    (directory : HoldsDirectory t.entries here)
    (h : t.advance followLast here names = .link d names') : HoldsDirectory t.entries d := by
  induction names generalizing here with
  | nil => cases h
  | cons name rest ih =>
    rw [advance] at h
    split at h
    · exact ih directory h
    split at h
    · exact ih (HoldsDirectory.dropLast directory) h
    split at h
    · cases h
    split at h
    · split at h <;> cases h
    · split at h <;> cases h
    · next found => exact ih (.inr found) h
    · split at h
      · cases h
      · cases h
        split
        · exact .inl rfl
        · exact directory

theorem walk_of_not_link {followLast : Bool} {here names : Location}
    (h : ∀ d names', t.advance followLast here names ≠ .link d names') (links : Nat) :
    t.walk followLast links here names = t.advance followLast here names := by
  cases links with
  | zero =>
    rw [walk]
    split
    · next d names' met => exact absurd met (h d names')
    · rfl
  | succ links =>
    rw [walk]
    split
    · next d names' met => exact absurd met (h d names')
    · rfl

/-- Walking on from `here` leads on from where `p` leads, if that is a directory, and nowhere
otherwise. -/
def Continues (t : FileTree) (followLast : Bool) (links : Nat) (here p q : Location) : Prop :=
  (∃ loc links', t.walk true links here p = .found loc ∧ HoldsDirectory t.entries loc ∧
      t.walk followLast links here (p ++ q) = t.walk followLast links' loc q) ∨
    ((∀ loc, t.walk true links here p = .found loc → ¬ HoldsDirectory t.entries loc) ∧
      (t.walk followLast links here (p ++ q) = .missing ∨
        t.walk followLast links here (p ++ q) = .lost))

theorem continues_of_not_link {followLast : Bool} {here p q : Location}
    (directory : HoldsDirectory t.entries here) (more : q ≠ [])
    (straight : ∀ d names, t.advance true here p ≠ .link d names) (links : Nat) :
    t.Continues followLast links here p q := by
  have whole := advance_append (p := p) followLast directory more
  have first := walk_of_not_link straight links
  cases met : t.advance true here p with
  | found loc =>
    rw [met] at whole first
    by_cases holds : HoldsDirectory t.entries loc
    · simp only [if_pos holds] at whole
      refine .inl ⟨loc, links, first, holds, ?_⟩
      cases links <;> rw [walk, walk, whole]
    · simp only [if_neg holds] at whole
      refine .inr ⟨fun other same => ?_, .inr ?_⟩
      · rw [first] at same
        cases same
        exact holds
      · rw [walk_of_not_link (by simp [whole]), whole]
  | vacant loc =>
    rw [met] at whole first
    refine .inr ⟨fun other same => by simp [first] at same, .inl ?_⟩
    rw [walk_of_not_link (by simp [whole]), whole]
  | missing =>
    rw [met] at whole first
    refine .inr ⟨fun other same => by simp [first] at same, .inl ?_⟩
    rw [walk_of_not_link (by simp [whole]), whole]
  | link d names => exact absurd met (straight d names)
  | lost =>
    rw [met] at whole first
    refine .inr ⟨fun other same => by simp [first] at same, .inr ?_⟩
    rw [walk_of_not_link (by simp [whole]), whole]

theorem walk_append (followLast : Bool) {p q : Location} (more : q ≠ []) (links : Nat)
    {here : Location} (directory : HoldsDirectory t.entries here) :
    t.Continues followLast links here p q := by
  by_cases straight : ∀ d names, t.advance true here p ≠ .link d names
  · exact continues_of_not_link directory more straight links
  · simp only [not_forall, not_not] at straight
    obtain ⟨d, names, met⟩ := straight
    have whole := advance_append (p := p) followLast directory more
    rw [met] at whole
    induction links generalizing here p d names with
    | zero =>
      refine .inr ⟨fun other same => ?_, .inr ?_⟩
      · simp [walk, met] at same
      · rw [walk, whole]
    | succ links ih =>
      -- both ways go on from the directory of the link, with one link less
      have first : t.walk true (links + 1) here p = t.walk true links d names := by rw [walk, met]
      have second : t.walk followLast (links + 1) here (p ++ q) =
          t.walk followLast links d (names ++ q) := by rw [walk, whole]
      have directory_d := holdsDirectory_of_link directory met
      unfold Continues
      rw [first, second]
      by_cases straight' : ∀ d' names', t.advance true d names ≠ .link d' names'
      · exact continues_of_not_link directory_d more straight' links
      · simp only [not_forall, not_not] at straight'
        obtain ⟨d', names', met'⟩ := straight'
        have whole' := advance_append (p := names) followLast directory_d more
        rw [met'] at whole'
        exact ih directory_d d' names' met' whole'

/-! ## Trees that differ below a location -/

/-- Two trees have the same at every location that is not below `loc`. -/
def AgreeOutside (loc : Location) (t t' : FileTree) : Prop :=
  ∀ l, (∀ q, q ≠ [] → l ≠ loc ++ q) → t.entries.get? l = t'.entries.get? l

theorem AgreeOutside.refl (loc : Location) (t : FileTree) : AgreeOutside loc t t := fun _ _ => rfl

theorem AgreeOutside.trans {loc : Location} {t'' : FileTree} (h : AgreeOutside loc t t')
    (h' : AgreeOutside loc t' t'') : AgreeOutside loc t t'' :=
  fun l outside => (h l outside).trans (h' l outside)

theorem AgreeOutside.holdsDirectory {loc : Location} (h : AgreeOutside loc t t')
    (holds : HoldsDirectory t.entries loc) : HoldsDirectory t'.entries loc := by
  have same := h loc fun q nonempty clash => by
    have lengths := congrArg List.length clash
    simp only [List.length_append] at lengths
    exact nonempty (List.length_eq_zero_iff.mp (by omega))
  exact holds.imp_right fun found => same ▸ found

/-! ## Ways that trees share -/

/-- Where two trees both have something it is the same, and unless it is a file, a third tree has
it, too. -/
def ShareWays (u v w : FileTree) : Prop :=
  ∀ l e e', u.entries.get? l = some e → v.entries.get? l = some e' →
    e' = e ∧ ((∀ content, e ≠ .file content) → w.entries.get? l = some e)

/-- The way ends in a directory, or goes on through a link. -/
def LeadsOn (t : FileTree) : Arrival → Prop
  | .found loc => HoldsDirectory t.entries loc
  | .link _ _ => True
  | _ => False

theorem leadsOn_of_walk {followLast : Bool} {links : Nat} {here names loc : Location}
    (found : t.walk followLast links here names = .found loc)
    (directory : HoldsDirectory t.entries loc) : t.LeadsOn (t.advance followLast here names) := by
  by_cases straight : ∀ d names', t.advance followLast here names ≠ .link d names'
  · rw [← walk_of_not_link straight links, found]
    exact directory
  · simp only [not_forall, not_not] at straight
    obtain ⟨d, names', met⟩ := straight
    rw [met]
    trivial

section Shared

variable {u v w : FileTree} (shared : ShareWays u v w)

include shared

theorem advance_shared {followLast : Bool} {here names : Location}
    (on_u : u.LeadsOn (u.advance followLast here names))
    (on_v : v.LeadsOn (v.advance followLast here names)) :
    v.advance followLast here names = u.advance followLast here names ∧
      w.advance followLast here names = u.advance followLast here names := by
  induction names generalizing here with
  | nil => exact ⟨rfl, rfl⟩
  | cons name rest ih =>
    rw [advance] at on_u on_v
    rw [advance, advance, advance]
    split
    · next blank =>
      rw [if_pos blank] at on_u on_v
      exact ih on_u on_v
    next blank =>
    rw [if_neg blank] at on_u on_v
    split
    · next up =>
      rw [if_pos up] at on_u on_v
      exact ih on_u on_v
    next up =>
    rw [if_neg up] at on_u on_v
    split
    · exact ⟨rfl, rfl⟩
    next long =>
    rw [if_neg long] at on_u on_v
    cases found_u : u.entries.get? (here ++ [name]) with
    | none =>
      rw [found_u] at on_u
      by_cases last : rest = [] <;> simp [last, LeadsOn] at on_u
    | some e =>
      cases found_v : v.entries.get? (here ++ [name]) with
      | none =>
        rw [found_v] at on_v
        by_cases last : rest = [] <;> simp [last, LeadsOn] at on_v
      | some e' =>
        obtain ⟨rfl, third⟩ := shared _ _ _ found_u found_v
        cases e' with
        | file content =>
          rw [found_u] at on_u
          by_cases last : rest = [] <;> simp [last, LeadsOn, HoldsDirectory, found_u] at on_u
        | directory =>
          rw [found_u] at on_u
          rw [found_v] at on_v
          rw [third nofun]
          exact ih on_u on_v
        | link target =>
          rw [third nofun]
          exact ⟨rfl, rfl⟩

/-- Two trees lead to the same directory, and so does whatever shares their ways. -/
theorem walk_shared {followLast : Bool} {links : Nat} {here names loc loc' : Location}
    (found_u : u.walk followLast links here names = .found loc)
    (found_v : v.walk followLast links here names = .found loc')
    (directory : HoldsDirectory u.entries loc) (directory' : HoldsDirectory v.entries loc') :
    loc' = loc ∧ w.walk followLast links here names = .found loc := by
  induction links generalizing here names with
  | zero =>
    obtain ⟨same_v, same_w⟩ := advance_shared shared (leadsOn_of_walk found_u directory)
      (leadsOn_of_walk found_v directory')
    rw [walk] at found_u found_v ⊢
    rw [same_v, found_u] at found_v
    rw [same_w, found_u]
    cases found_v
    exact ⟨rfl, rfl⟩
  | succ links ih =>
    obtain ⟨same_v, same_w⟩ := advance_shared shared (leadsOn_of_walk found_u directory)
      (leadsOn_of_walk found_v directory')
    rw [walk] at found_u found_v ⊢
    rw [same_v] at found_v
    rw [same_w]
    cases first : u.advance followLast here names with
    | link d names' =>
      rw [first] at found_u found_v
      exact ih found_u found_v
    | _ =>
      rw [first] at found_u found_v
      rw [found_u] at found_v
      cases found_v
      exact ⟨rfl, found_u⟩

theorem locate_shared {names loc loc' : Location} (found_u : u.locate names = .found loc)
    (found_v : v.locate names = .found loc') (directory : HoldsDirectory u.entries loc)
    (directory' : HoldsDirectory v.entries loc') : loc' = loc ∧ w.locate names = .found loc := by
  unfold locate follow at found_u found_v ⊢
  split at found_u
  · next usable =>
    rw [if_pos usable] at found_v ⊢
    exact walk_shared shared found_u found_v directory directory'
  · cases found_u

end Shared

/-! ## Roots -/

/-- The destination leads to the directory `d`, whatever changes below it, and no link lies
below. -/
structure Root (t : FileTree) (destination d : Location) : Prop where
  directory : HoldsDirectory t.entries d
  leads : ∀ t', AgreeOutside d t t' → t'.locate destination = .found d
  linkFree : ∀ q target, q ≠ [] → t.entries.get? (d ++ q) ≠ some (.link target)

/-- A destination that leads to a directory without content is a root. -/
theorem Root.of_empty {destination d : Location} (directory : HoldsDirectory t.entries d)
    (found : t.locate destination = .found d)
    (empty : ∀ q, q ≠ [] → t.entries.get? (d ++ q) = none) : t.Root destination d where
  directory := directory
  leads t' agree := by
    have shared : ShareWays t t t' := by
      intro l e e' here here'
      refine ⟨Option.some.inj (here'.symm.trans here), fun _ => ?_⟩
      rw [← agree l fun q nonempty same => ?_, here]
      rw [same, empty q nonempty] at here
      cases here
    exact (locate_shared shared found found directory directory).2
  linkFree q target nonempty := by
    rw [empty q nonempty]
    exact nofun

/-- A root stays one if nothing but what is below it changes, and no link comes in. -/
theorem Root.congr {destination d : Location} (root : t.Root destination d)
    (agree : AgreeOutside d t t')
    (linkFree : ∀ q target, q ≠ [] → t'.entries.get? (d ++ q) ≠ some (.link target)) :
    t'.Root destination d where
  directory := agree.holdsDirectory root.directory
  leads t'' agree' := root.leads t'' (agree.trans agree')
  linkFree := linkFree

/-- The tree without what is below a location. -/
def hollow (t : FileTree) (loc : Location) : FileTree where
  entries := t.entries.filter fun l _ => !loc.isPrefixOf l.dropLast
  closed l e h := by
    rw [Table.get?_filter, Option.filter_eq_some_iff] at h
    obtain ⟨found, kept⟩ := h
    obtain ⟨nonempty, parent⟩ := t.closed l e found
    refine ⟨nonempty, parent.imp_right fun holds => ?_⟩
    rw [Table.get?_filter, Option.filter_eq_some_iff]
    refine ⟨holds, ?_⟩
    simp only [Bool.not_eq_true', ← Bool.not_eq_true, List.isPrefixOf_iff_prefix] at kept ⊢
    exact fun below => kept (below.trans (List.dropLast_prefix _))

/-- What is in the hollow tree is in the tree, and not below the location. -/
theorem get?_hollow_eq_some_iff {loc l : Location} {entry : Entry} :
    (t.hollow loc).entries.get? l = some entry ↔
      t.entries.get? l = some entry ∧ ∀ q, q ≠ [] → l ≠ loc ++ q := by
  rw [hollow, Table.get?_filter, Option.filter_eq_some_iff]
  refine and_congr_right fun found => ?_
  rw [Bool.not_eq_true', ← Bool.not_eq_true, List.isPrefixOf_iff_prefix]
  constructor
  · rintro outside q nonempty rfl
    rw [List.dropLast_append_of_ne_nil nonempty] at outside
    exact outside (List.prefix_append loc _)
  · rintro outside ⟨q, whole⟩
    apply outside (q ++ [l.getLast (t.closed l entry found).1]) (by simp)
    rw [← List.append_assoc, whole, List.dropLast_concat_getLast]

theorem agreeOutside_hollow (t : FileTree) (loc : Location) :
    AgreeOutside loc t (t.hollow loc) := by
  intro l outside
  ext entry
  rw [get?_hollow_eq_some_iff]
  exact (and_iff_left outside).symm

/-- A tree in which the destination of a root leads to a directory at all, and a tree that shares
with it the ways to the root, lead there, too. -/
theorem Root.locate_shared {destination d loc : Location} (root : t.Root destination d)
    {v w : FileTree} (found : v.locate destination = .found loc)
    (directory : HoldsDirectory v.entries loc)
    (shared : ShareWays (t.hollow d) v w) : loc = d ∧ w.locate destination = .found d := by
  have agree := agreeOutside_hollow t d
  exact FileTree.locate_shared shared (root.leads _ agree) found
    (agree.holdsDirectory root.directory) directory

/-- A root stays one while directories and links stay, and no link comes in below it. -/
theorem Root.of_ways {destination d : Location} (root : t.Root destination d)
    (ways : ∀ l e, t.entries.get? l = some e → (∀ content, e ≠ .file content) →
      t'.entries.get? l = some e)
    (linkFree : ∀ q target, q ≠ [] → t'.entries.get? (d ++ q) ≠ some (.link target)) :
    t'.Root destination d where
  directory := root.directory.imp_right fun found => ways _ _ found nofun
  leads t'' agree' := by
    have agree := agreeOutside_hollow t d
    refine (root.locate_shared (root.leads _ agree) (agree.holdsDirectory root.directory) ?_).2
    intro l e e' found found'
    refine ⟨Option.some.inj (found'.symm.trans found), fun no_file => ?_⟩
    obtain ⟨here, outside⟩ := get?_hollow_eq_some_iff.mp found
    rw [← agree' l outside]
    exact ways l e here no_file
  linkFree := linkFree

/-- If things are removed and the destination still leads to a directory, it is still the root. -/
theorem Root.of_locate {destination d loc : Location} (root : t.Root destination d)
    (less : ∀ l e, t'.entries.get? l = some e → t.entries.get? l = some e)
    (found : t'.locate destination = .found loc) (directory : HoldsDirectory t'.entries loc) :
    t'.Root destination d := by
  have same {w : FileTree} (agree : AgreeOutside d t' w) :
      loc = d ∧ w.locate destination = .found d := by
    refine root.locate_shared found directory fun l e e' here here' => ?_
    obtain ⟨here, outside⟩ := get?_hollow_eq_some_iff.mp here
    refine ⟨Option.some.inj ((less _ _ here').symm.trans here), fun _ => ?_⟩
    rw [← agree l outside, here', ← here, less _ _ here']
  exact {
    directory := (same (.refl d t')).1 ▸ directory
    leads := fun _ agree => (same agree).2
    linkFree := fun q target nonempty here => root.linkFree q target nonempty (less _ _ here) }

/-! ## Plain names below a root -/

/-- Names that name something each: none is blank and none a step upward. -/
def Plain (q : Location) : Prop := ∀ name ∈ q, FilePath.isBlankPart name = false ∧ name ≠ ".."

instance (q : Location) : Decidable (Plain q) :=
  inferInstanceAs (Decidable (∀ name ∈ q, FilePath.isBlankPart name = false ∧ name ≠ ".."))

/-- The destination leads to the directory `d`, whatever changes below it; and below it there are
only files and directories, of which everyone has a name of its own. -/
structure LinkFree (t : FileTree) (destination d : Location) : Prop
    extends t.Root destination d where
  named : ∀ q entry, t.entries.get? (d ++ q) = some entry → Plain q

/-- A destination stays free of links if plain names get something else than a link. -/
theorem LinkFree.of_changes {destination d : Location} (free : t.LinkFree destination d)
    (changes : ∀ l, t'.entries.get? l = t.entries.get? l ∨
      ∃ q, q ≠ [] ∧ l = d ++ q ∧ (t'.entries.get? l = none ∨
        Plain q ∧ ∀ target, t'.entries.get? l ≠ some (.link target))) :
    t'.LinkFree destination d where
  toRoot := by
    refine free.toRoot.congr (fun l outside => ?_) fun q target nonempty found => ?_
    · rcases changes l with same | ⟨q, nonempty, here, -⟩
      · exact same.symm
      · exact absurd here (outside q nonempty)
    · rcases changes (d ++ q) with same | ⟨-, -, -, gone | ⟨-, no_link⟩⟩
      · rw [same] at found
        exact free.linkFree q target nonempty found
      · rw [gone] at found
        cases found
      · exact no_link target found
  named q entry found := by
    rcases changes (d ++ q) with same | ⟨r, -, here, gone | ⟨plain, -⟩⟩
    · exact free.named q entry (same ▸ found)
    · rw [gone] at found
      cases found
    · rwa [List.append_cancel_left here]

/-- A destination stays free of links while directories and links stay, and below it only plain
names get something else, which is no link. -/
theorem LinkFree.of_ways {destination d : Location} (free : t.LinkFree destination d)
    (ways : ∀ l e, t.entries.get? l = some e → (∀ content, e ≠ .file content) →
      t'.entries.get? l = some e)
    (changes : ∀ q e, t'.entries.get? (d ++ q) = some e → t.entries.get? (d ++ q) = some e ∨
      Plain q ∧ ∀ target, e ≠ .link target) : t'.LinkFree destination d where
  toRoot := by
    refine free.toRoot.of_ways ways fun q target nonempty found => ?_
    rcases changes q _ found with before | ⟨-, no_link⟩
    · exact free.linkFree q target nonempty before
    · exact no_link target rfl
  named q e found := by
    rcases changes q e found with before | ⟨plain, -⟩
    · exact free.named q e before
    · exact plain

/-- The names below a destination are short enough to be followed. -/
def Short (destination q : Location) : Prop :=
  Location.isUsable (destination ++ q) = true ∧
    ∀ name ∈ q, name.utf8ByteSize ≤ Location.maxNameBytes

instance (destination q : Location) : Decidable (Short destination q) :=
  inferInstanceAs (Decidable (_ ∧ ∀ name ∈ q, name.utf8ByteSize ≤ Location.maxNameBytes))

/-- A plain name that is too long is not passed, unless the way ends before it. -/
theorem short_of_advance (t : FileTree) (followLast : Bool) (here : Location) {names : Location}
    {name : String} (mem : name ∈ names)
    (plain : FilePath.isBlankPart name = false ∧ name ≠ "..") :
    name.utf8ByteSize ≤ Location.maxNameBytes ∨
      (∃ d names', t.advance followLast here names = .link d names' ∧ name ∈ names') ∨
      t.advance followLast here names = .missing ∨ t.advance followLast here names = .lost := by
  induction names generalizing here with
  | nil => cases mem
  | cons first rest ih =>
    rw [advance]
    split
    · next blank =>
      refine ih here ((List.mem_cons.mp mem).resolve_left fun same => ?_)
      rw [← same, plain.1] at blank
      cases blank
    split
    · next up => exact ih _ ((List.mem_cons.mp mem).resolve_left fun same => plain.2 (same ▸ up))
    split
    · exact .inr (.inr (.inr rfl))
    next short =>
    rcases List.mem_cons.mp mem with rfl | later
    · exact .inl (Nat.le_of_not_lt short)
    have more : rest ≠ [] := List.ne_nil_of_mem later
    split
    · exact .inr (.inr (.inl (if_neg more)))
    · exact .inr (.inr (.inr (if_neg more)))
    · exact ih _ later
    · refine .inr (.inl ⟨_, _, if_neg ?_, List.mem_append_right _ later⟩)
      simp [more]

/-- Where names lead to a place, the plain ones among them are short. -/
theorem short_of_walk {followLast : Bool} {links : Nat} {here names loc : Location}
    (arrives : t.walk followLast links here names = .found loc ∨
      t.walk followLast links here names = .vacant loc) {name : String} (mem : name ∈ names)
    (plain : FilePath.isBlankPart name = false ∧ name ≠ "..") :
    name.utf8ByteSize ≤ Location.maxNameBytes := by
  induction links generalizing here names with
  | zero =>
    rw [walk] at arrives
    rcases t.short_of_advance followLast here mem plain with short | ⟨d, names', met, -⟩ | met | met
    · exact short
    all_goals simp [met] at arrives
  | succ links ih =>
    rw [walk] at arrives
    rcases t.short_of_advance followLast here mem plain with
      short | ⟨d, names', met, later⟩ | met | met
    · exact short
    · rw [met] at arrives
      exact ih arrives later
    all_goals simp [met] at arrives

theorem short_of_follow {followLast : Bool} {destination q loc : Location}
    (arrives : t.follow followLast (destination ++ q) = .found loc ∨
      t.follow followLast (destination ++ q) = .vacant loc) (plain : Plain q) :
    Short destination q := by
  unfold follow at arrives
  split at arrives
  · next usable =>
    exact ⟨usable, fun name mem =>
      short_of_walk arrives (List.mem_append_right _ mem) (plain name mem)⟩
  · simp at arrives

/-- Names further on are reached only through a directory. -/
theorem directory_of_reached {here rest : Location} {name : String} (last : rest ≠ [])
    (reached : (t.entries.get? (here ++ name :: rest)).isSome ∨
      HoldsDirectory t.entries (here ++ name :: rest).dropLast) :
    t.entries.get? (here ++ [name]) = some .directory := by
  have holds : HoldsDirectory t.entries (here ++ [name]) := by
    rcases reached with there | holds
    · obtain ⟨entry, found⟩ := Option.isSome_iff_exists.mp there
      have whole : t.entries.get? (here ++ [name] ++ rest) = some entry := by
        simpa using found
      exact holdsDirectory_of_get? last whole
    · obtain ⟨init, final, rfl⟩ := List.eq_nil_or_concat rest |>.resolve_left last
      have shape : here ++ name :: init.concat final = (here ++ [name] ++ init) ++ [final] := by
        simp
      rw [shape, List.dropLast_concat] at holds
      by_cases here_last : init = []
      · simpa [here_last] using holds
      · rcases holds with none | found
        · simp at none
        · exact holdsDirectory_of_get? here_last found
  exact holds.resolve_left (by simp)

/-- Where plain names lead is where they stand, unless something is missing on the way or some name
is too long. -/
theorem advance_plain (followLast : Bool) {here q : Location} (plain : Plain q)
    (nonempty : q ≠ []) (directory : HoldsDirectory t.entries here)
    (linkFree : ∀ p target, p ≠ [] → t.entries.get? (here ++ p) ≠ some (.link target)) :
    (t.advance followLast here q = .found (here ++ q) ∧
        (∀ name ∈ q, name.utf8ByteSize ≤ Location.maxNameBytes) ∧
        (t.entries.get? (here ++ q)).isSome) ∨
      (t.advance followLast here q = .vacant (here ++ q) ∧
        (∀ name ∈ q, name.utf8ByteSize ≤ Location.maxNameBytes) ∧
        t.entries.get? (here ++ q) = none ∧ HoldsDirectory t.entries (here ++ q).dropLast) ∨
      ((t.advance followLast here q = .missing ∨ t.advance followLast here q = .lost) ∧
        ¬ ((∀ name ∈ q, name.utf8ByteSize ≤ Location.maxNameBytes) ∧
          ((t.entries.get? (here ++ q)).isSome ∨
            HoldsDirectory t.entries (here ++ q).dropLast))) := by
  induction q generalizing here with
  | nil => exact absurd rfl nonempty
  | cons name rest ih =>
    obtain ⟨not_blank, not_up⟩ := plain name List.mem_cons_self
    rw [advance, if_neg (by simp [not_blank]), if_neg not_up]
    by_cases long : name.utf8ByteSize > Location.maxNameBytes
    · rw [if_pos long]
      refine .inr (.inr ⟨.inr rfl, fun short => ?_⟩)
      have := short.1 name List.mem_cons_self
      omega
    rw [if_neg long]
    by_cases last : rest = []
    · subst last
      have short : ∀ n ∈ [name], n.utf8ByteSize ≤ Location.maxNameBytes := by
        simpa using Nat.le_of_not_lt long
      cases found : t.entries.get? (here ++ [name]) with
      | none =>
        refine .inr (.inl ⟨by simp, short, rfl, ?_⟩)
        simpa using directory
      | some entry =>
        cases entry with
        | file content => exact .inl ⟨by simp, short, rfl⟩
        | directory => exact .inl ⟨by simp [advance], short, rfl⟩
        | link target => exact absurd found (linkFree [name] target (by simp))
    · -- the rest leads somewhere only from a directory of this name
      cases found : t.entries.get? (here ++ [name]) with
      | none =>
        refine .inr (.inr ⟨.inl (by simp [last]), fun reached => ?_⟩)
        rw [directory_of_reached last reached.2] at found
        cases found
      | some entry =>
        cases entry with
        | file content =>
          refine .inr (.inr ⟨.inr (by simp [last]), fun reached => ?_⟩)
          rw [directory_of_reached last reached.2] at found
          cases found
        | directory =>
          have next := ih (fun n mem => plain n (List.mem_cons_of_mem _ mem)) last (.inr found)
            fun p target some => by
              have := linkFree (name :: p) target (by simp)
              simpa using this
          simp only [List.append_assoc, List.cons_append, List.nil_append] at next
          simpa [Nat.le_of_not_lt long] using next
        | link target => exact absurd found (linkFree [name] target (by simp))

/-! ## Destinations in a tree without links -/

/-- A way of directories is followed to its end. -/
theorem advance_directories (followLast : Bool) {here q : Location} (plain : Plain q)
    (short : ∀ name ∈ q, name.utf8ByteSize ≤ Location.maxNameBytes)
    (directories : ∀ r, r ≠ [] → r <+: q → t.entries.get? (here ++ r) = some .directory) :
    t.advance followLast here q = .found (here ++ q) := by
  induction q generalizing here with
  | nil => simp [advance]
  | cons name rest ih =>
    obtain ⟨not_blank, not_up⟩ := plain name List.mem_cons_self
    have bytes := short name List.mem_cons_self
    have first := directories [name] (by simp) (by simp)
    rw [advance, if_neg (by simp [not_blank]), if_neg not_up, if_neg (by omega), first]
    have later : t.advance followLast (here ++ [name]) rest = .found (here ++ [name] ++ rest) := by
      refine ih (fun n mem => plain n (List.mem_cons_of_mem _ mem))
        (fun n mem => short n (List.mem_cons_of_mem _ mem)) fun r nonempty way => ?_
      have further := directories (name :: r) (by simp) (by simpa using way)
      simpa using further
    simpa using later

/-- In a tree without links, where all names are plain, every directory can be a destination. -/
theorem linkFree_of_no_links {destination : Location}
    (no_links : ∀ l target, t.entries.get? l ≠ some (.link target))
    (named : ∀ l entry, t.entries.get? l = some entry → Plain l)
    (short : Short [] destination) (directory : HoldsDirectory t.entries destination) :
    t.LinkFree destination destination where
  directory := directory
  leads t' agree := by
    have on_way : ∀ r, r ≠ [] → r <+: destination →
        t'.entries.get? ([] ++ r) = some .directory := by
      intro r nonempty way
      have here : t.entries.get? ([] ++ r) = some .directory := by
        rcases directory with rfl | found
        · exact absurd (List.prefix_nil.mp way) nonempty
        · exact directory_on_way found way nonempty
      rw [← agree _ fun q more same => ?_, here]
      obtain ⟨rest, whole⟩ := way
      have lengths := congrArg List.length same
      have total := congrArg List.length whole
      have positive := List.length_pos_iff.mpr more
      simp only [List.length_append, List.length_nil] at lengths total
      omega
    have plain : Plain destination := by
      rcases directory with rfl | found
      · simp [Plain]
      · exact named _ _ found
    have found := advance_directories true plain short.2 on_way
    have usable : destination.isUsable = true := short.1
    unfold locate follow
    rw [if_pos usable, walk_of_not_link (by simp [found]), found, List.nil_append]
  linkFree q target nonempty := no_links _ target
  named q entry found := fun name mem => named _ _ found name (List.mem_append_right _ mem)

/-- An entry that is no link, with plain names. -/
def Unlinked : Location × Entry → Prop
  | (_, .link _) => False
  | (loc, _) => Plain loc

instance (item : Location × Entry) : Decidable (Unlinked item) :=
  match item with
  | (_, .link _) => inferInstanceAs (Decidable False)
  | (loc, .file _) | (loc, .directory) => inferInstanceAs (Decidable (Plain loc))

/-- So it is for a tree whose entries are listed. -/
theorem linkFree_of_entries {destination : Location}
    (entries : ∀ item ∈ t.entries.entries, Unlinked item) (short : Short [] destination)
    (directory : HoldsDirectory t.entries destination) :
    t.LinkFree destination destination := by
  refine linkFree_of_no_links (fun l target found => ?_) (fun l entry found => ?_) short directory
  · exact entries _ (Table.get?_eq_some_iff.mp found)
  · have unlinked := entries _ (Table.get?_eq_some_iff.mp found)
    cases entry with
    | link target => exact unlinked.elim
    | _ => exact unlinked

end FileTree

end VirtualModules
