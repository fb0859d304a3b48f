import Mathlib.Data.List.DropRight
import VirtualModules.Proofs.BelowRoot

/-!
# Making directories

Making a directory that is there already changes nothing (`makeDirectories_found`), whether or not
blank names end it (`locate_dropBlank`), and the way to a directory may be made first
(`makeDirectories_makeDirectories`). Whatever the names, directories come in and nothing else, and
only where nothing stood (`get?_makeDirectories`). Below a root these are directories on the way
(`Root.makeDirectories_made`), and it gets to the end unless something else is in the way
(`Root.makeDirectories_exists`).
-/

namespace VirtualModules

/-! ## Parts of names -/

namespace Location

theorem byteLength_append (p q : Location) :
    byteLength (p ++ q) = byteLength p + byteLength q := by
  induction p with
  | nil => simp [byteLength]
  | cons name rest ih =>
    simp only [List.cons_append, byteLength, ih]
    omega

theorem isUsable_of_append {p q : Location} (h : isUsable (p ++ q) = true) : isUsable p = true := by
  simp only [isUsable, List.all_append, byteLength_append, Bool.and_eq_true,
    decide_eq_true_eq] at h ⊢
  exact ⟨h.1.1, by omega⟩

theorem dropBlank_eq (l : Location) :
    FilePath.dropBlank l = l.rdropWhile FilePath.isBlankPart := rfl

theorem dropSlashes_eq (l : Location) :
    l.dropSlashes = l.rdropWhile (fun name => decide (name = "")) := rfl

theorem prefix_of_dropBlank (l : Location) : FilePath.dropBlank l <+: l :=
  List.rdropWhile_prefix _ l

theorem prefix_of_parent (l : Location) : l.parent <+: l :=
  (prefix_of_dropBlank _).trans ((List.dropLast_prefix _).trans (prefix_of_dropBlank l))

theorem prefix_of_makeable (l : Location) : l.makeable <+: l := by
  unfold makeable
  simp only
  split
  · exact prefix_of_parent l
  · exact List.rdropWhile_prefix (· = "") l

theorem parent_append_concat (l init : Location) {name : String}
    (h : FilePath.isBlankPart name = false) :
    (l ++ (init ++ [name])).parent = FilePath.dropBlank (l ++ init) := by
  rw [parent, ← List.append_assoc, dropBlank_eq (l ++ init ++ [name]),
    List.rdropWhile_concat_neg _ _ _ (by simp [h]), List.dropLast_concat]

theorem dropBlank_append_concat (l init : Location) {name : String}
    (h : FilePath.isBlankPart name = false) :
    FilePath.dropBlank (l ++ (init ++ [name])) = l ++ (init ++ [name]) := by
  rw [← List.append_assoc, dropBlank_eq, List.rdropWhile_concat_neg _ _ _ (by simp [h])]

theorem dropBlank_append_plain (l : Location) {q : Location}
    (plain : ∀ name ∈ q, FilePath.isBlankPart name = false) (nonempty : q ≠ []) :
    FilePath.dropBlank (l ++ q) = l ++ q := by
  obtain ⟨init, last, rfl⟩ := List.eq_nil_or_concat q |>.resolve_left nonempty
  rw [List.concat_eq_append]
  exact dropBlank_append_concat l init (plain last (by simp))

/-- The parent of plain names below a location is where they all but the last lead. -/
theorem parent_append_plain (l : Location) {q : Location} {name : String}
    (plain : ∀ n ∈ q ++ [name], FilePath.isBlankPart n = false) (nonempty : q ≠ []) :
    (l ++ (q ++ [name])).parent = l ++ q := by
  rw [parent_append_concat l q (plain name (by simp)),
    dropBlank_append_plain l (fun n mem => plain n (List.mem_append_left _ mem)) nonempty]

/-- Names that end in one that is not blank are made as they are. -/
theorem makeable_append_concat (l init : Location) {name : String}
    (h : FilePath.isBlankPart name = false) :
    (l ++ (init ++ [name])).makeable = l ++ (init ++ [name]) := by
  have not_blank : name ≠ "" ∧ name ≠ "." := by simpa [FilePath.isBlankPart] using h
  have kept : (l ++ init ++ [name]).dropSlashes = l ++ init ++ [name] := by
    rw [dropSlashes_eq, List.rdropWhile_concat_neg _ _ _ (by simp [not_blank.1])]
  rw [← List.append_assoc, makeable, kept]
  simp [not_blank.2]

/-- Slashes and dots at the end are blank. -/
theorem dropBlank_dropSlashes (l : Location) :
    FilePath.dropBlank l.dropSlashes = FilePath.dropBlank l := by
  rw [dropSlashes_eq, dropBlank_eq, dropBlank_eq]
  induction l using List.reverseRecOn with
  | nil => rfl
  | append_singleton init name ih =>
    by_cases slash : name = ""
    · rw [List.rdropWhile_concat_pos _ _ _ (by simp [slash]),
        List.rdropWhile_concat_pos FilePath.isBlankPart _ _ (by simp [slash, FilePath.isBlankPart]),
        ih]
    · rw [List.rdropWhile_concat_neg _ _ _ (by simp [slash])]

/-- Names without blank ones at their end are made as they are. -/
theorem makeable_dropBlank (l : Location) :
    makeable (FilePath.dropBlank l) = FilePath.dropBlank l := by
  rcases List.eq_nil_or_concat (FilePath.dropBlank l) with none | ⟨init, name, split⟩
  · rw [none]
    rfl
  · rw [List.concat_eq_append] at split
    have nonempty : l.rdropWhile FilePath.isBlankPart ≠ [] := by
      rw [← dropBlank_eq, split]
      simp
    have not_blank := List.rdropWhile_last_not _ l nonempty
    simp only [← dropBlank_eq, split, List.getLast_append_singleton] at not_blank
    rw [split]
    exact makeable_append_concat [] init (Bool.eq_false_iff.mpr not_blank)

theorem makeable_prefix_dropBlank (l : Location) : l.makeable <+: FilePath.dropBlank l := by
  unfold makeable
  simp only
  split
  · exact (prefix_of_dropBlank _).trans (List.dropLast_prefix _)
  · next no_dot =>
    rw [← dropBlank_dropSlashes, dropBlank_eq]
    refine (List.rdropWhile_eq_self_iff.mpr fun nonempty blank => ?_).symm ▸ List.prefix_refl _
    have no_slash : ¬ decide (l.dropSlashes.getLast nonempty = "") = true :=
      List.rdropWhile_last_not _ l nonempty
    rw [List.getLast?_eq_some_getLast nonempty, Option.some_inj] at no_dot
    rcases Bool.or_eq_true_iff.mp blank with slash | dot
    · exact no_slash (by simpa using slash)
    · exact no_dot (by simpa using dot)

end Location

namespace FileTree

variable {t t' : FileTree}

/-! ## Ways that are there already -/

theorem advance_followed {here p : Location} :
    (∀ loc, t.advance false here p = .vacant loc → t.advance true here p = .vacant loc) ∧
      ∀ d names, t.advance false here p = .link d names →
        t.advance true here p = .link d names := by
  induction p generalizing here with
  | nil => simp [advance]
  | cons name rest ih =>
    rw [advance, advance]
    split
    · exact ih
    split
    · exact ih
    split
    · simp
    split
    · simp
    · simp
    · exact ih
    · by_cases last : rest = [] <;> simp [last]

theorem walk_vacant {links : Nat} {here p loc : Location}
    (h : t.walk false links here p = .vacant loc) : t.walk true links here p = .vacant loc := by
  induction links generalizing here p with
  | zero =>
    rw [walk] at h ⊢
    split at h
    · cases h
    · rw [advance_followed.1 loc h]
  | succ links ih =>
    rw [walk] at h ⊢
    split at h
    · next d names met =>
      rw [advance_followed.2 d names met]
      exact ih h
    · rw [advance_followed.1 loc h]

/-- On the way to something nothing is vacant. -/
theorem not_vacant_of_found {p q loc l : Location} (found : t.locate (p ++ q) = .found loc) :
    t.locateLast p ≠ .vacant l := by
  intro vacant
  unfold locate follow at found
  split at found
  · next usable =>
    rw [locateLast, follow, if_pos (Location.isUsable_of_append usable)] at vacant
    have vacant := walk_vacant vacant
    by_cases more : q = []
    · rw [more, List.append_nil, vacant] at found
      cases found
    · rcases walk_append (t := t) true (p := p) more maxLinks (.inl rfl) with
        ⟨other, _, first, -⟩ | ⟨-, whole | whole⟩
      · rw [vacant] at first
        cases first
      all_goals
        rw [whole] at found
        cases found
  · cases found

/-- What is reached by more names is reached through a directory. -/
theorem locate_of_follow_append {followLast : Bool} {p q loc : Location}
    (found : t.follow followLast (p ++ q) = .found loc) (more : q ≠ []) :
    ∃ above, t.locate p = .found above ∧ HoldsDirectory t.entries above := by
  unfold follow at found
  split at found
  · next usable =>
    rw [locate, follow, if_pos (Location.isUsable_of_append usable)]
    rcases walk_append (t := t) followLast (p := p) more maxLinks (.inl rfl) with
      ⟨above, _, first, directory, -⟩ | ⟨-, whole | whole⟩
    · exact ⟨above, first, directory⟩
    all_goals
      rw [whole] at found
      cases found
  · cases found

/-- Nothing is reached through a directory that is not there. -/
theorem not_found_of_missing {followLast : Bool} {destination q loc : Location}
    (missing : ¬ t.isDirectory destination = true) (more : q ≠ []) :
    t.follow followLast (destination ++ q) ≠ .found loc := by
  intro found
  obtain ⟨above, there, directory⟩ := locate_of_follow_append found more
  rw [isDirectory, find?_of_holdsDirectory there directory] at missing
  exact missing rfl

theorem makeDirectoriesFrom_append (p q r : Location) :
    t.makeDirectoriesFrom p (q ++ r) =
      (t.makeDirectoriesFrom p q).makeDirectoriesFrom (p ++ q) r := by
  induction q generalizing t p with
  | nil => simp [makeDirectoriesFrom]
  | cons name rest ih =>
    simp only [List.cons_append, makeDirectoriesFrom, ih]
    simp

theorem makeDirectoriesFrom_found {p q r loc : Location}
    (found : t.locate (p ++ q ++ r) = .found loc) : t.makeDirectoriesFrom p q = t := by
  induction q generalizing p with
  | nil => rfl
  | cons name rest ih =>
    have way : t.locate ((p ++ [name]) ++ rest ++ r) = .found loc := by simpa using found
    have there : t.makeDirectory? (p ++ [name]) = none := by
      unfold makeDirectory?
      split
      · next vacant =>
        rw [List.append_assoc] at way
        exact absurd vacant (not_vacant_of_found way)
      · rfl
    simp only [makeDirectoriesFrom, there, Option.getD_none]
    exact ih way

/-- On the way to something that is there nothing is made. -/
theorem makeDirectories_of_found {names q loc : Location}
    (found : t.locate (names ++ q) = .found loc) : t.makeDirectories names = t := by
  unfold makeDirectories
  split
  · obtain ⟨rest, whole⟩ := names.prefix_of_makeable
    exact makeDirectoriesFrom_found (p := []) (q := names.makeable) (r := rest ++ q)
      (by simpa only [List.nil_append, ← List.append_assoc, whole] using found)
  · rfl

/-- What is there already is not made again. -/
theorem makeDirectories_found {names loc : Location} (found : t.locate names = .found loc) :
    t.makeDirectories names = t :=
  makeDirectories_of_found (q := []) (by rwa [List.append_nil])

theorem makeDirectories_of_isDirectory {names : Location} (there : t.isDirectory names = true) :
    t.makeDirectories names = t := by
  obtain ⟨loc, found⟩ := locate_of_isDirectory there
  exact makeDirectories_found found

theorem makeDirectories_of_read? {names q : Location} {content : Bytes}
    (read : t.read? (names ++ q) = some content) : t.makeDirectories names = t := by
  obtain ⟨loc, found⟩ := locate_of_read? read
  exact makeDirectories_of_found found

/-- A destination that leads somewhere is usable. -/
theorem isUsable_of_locate {names loc : Location} (found : t.locate names = .found loc) :
    Location.isUsable names = true := by
  unfold locate follow at found
  split at found
  · assumption
  · cases found

/-- What is made on the way to a directory may be made first. -/
theorem makeDirectories_makeDirectories {destination d names : Location}
    (found : (t.makeDirectories destination).locate destination = .found d)
    (usable : Location.isUsable names = true) (whole : names.makeable = names)
    (way : destination.makeable <+: names) :
    (t.makeDirectories destination).makeDirectories names = t.makeDirectories names := by
  have made : t.makeDirectories destination = t.makeDirectoriesFrom [] destination.makeable := by
    rw [makeDirectories, if_pos (isUsable_of_locate found)]
  obtain ⟨more, rfl⟩ := way
  obtain ⟨rest, split⟩ := destination.prefix_of_makeable
  have there : ∀ t : FileTree, t.locate destination = .found d →
      t.makeDirectoriesFrom [] destination.makeable = t := fun t found =>
    makeDirectoriesFrom_found (p := []) (r := rest) (by rwa [List.nil_append, split])
  have unfolded : ∀ t : FileTree, t.makeDirectories (destination.makeable ++ more) =
      (t.makeDirectoriesFrom [] destination.makeable).makeDirectoriesFrom destination.makeable
        more := by
    intro t
    rw [makeDirectories, if_pos usable, whole, makeDirectoriesFrom_append, List.nil_append]
  rw [unfolded, unfolded, ← made, there _ found]

theorem advance_blank {followLast : Bool} {here q : Location}
    (blank : ∀ name ∈ q, FilePath.isBlankPart name = true) :
    t.advance followLast here q = .found here := by
  induction q with
  | nil => rfl
  | cons name rest ih =>
    rw [advance, if_pos (blank name List.mem_cons_self)]
    exact ih fun n mem => blank n (List.mem_cons_of_mem _ mem)

/-- Blank names at the end of those of a directory do not matter. -/
theorem locate_dropBlank {names loc : Location} (found : t.locate names = .found loc) :
    t.locate (FilePath.dropBlank names) = .found loc := by
  have whole : FilePath.dropBlank names ++ names.rtakeWhile FilePath.isBlankPart = names :=
    List.rdropWhile_append_rtakeWhile
  have blank : ∀ name ∈ names.rtakeWhile FilePath.isBlankPart,
      FilePath.isBlankPart name = true := fun name => List.mem_rtakeWhile_imp
  generalize FilePath.dropBlank names = kept at whole ⊢
  generalize names.rtakeWhile FilePath.isBlankPart = dropped at whole blank
  subst whole
  by_cases more : dropped = []
  · simpa [more] using found
  · unfold locate follow at found ⊢
    split at found
    · next usable =>
      rw [if_pos (Location.isUsable_of_append usable)]
      rcases walk_append (t := t) true (p := kept) more maxLinks (.inl rfl) with
        ⟨other, _, first, -, second⟩ | ⟨-, lost | lost⟩
      · rw [found, walk_of_not_link (by simp [advance_blank blank]), advance_blank blank] at second
        rw [first, second]
      all_goals
        rw [found] at lost
        cases lost
    · cases found

/-! ## Making directories anywhere -/

theorem get?_of_advance_vacant {followLast : Bool} {here names loc : Location}
    (vacant : t.advance followLast here names = .vacant loc) : t.entries.get? loc = none := by
  induction names generalizing here with
  | nil => cases vacant
  | cons name rest ih =>
    rw [advance] at vacant
    split at vacant
    · exact ih vacant
    split at vacant
    · exact ih vacant
    split at vacant
    · cases vacant
    split at vacant
    · next absent =>
      split at vacant
      · cases vacant
        exact absent
      · cases vacant
    · split at vacant <;> cases vacant
    · exact ih vacant
    · split at vacant <;> cases vacant

theorem get?_of_walk_vacant {followLast : Bool} {links : Nat} {here names loc : Location}
    (vacant : t.walk followLast links here names = .vacant loc) : t.entries.get? loc = none := by
  induction links generalizing here names with
  | zero =>
    rw [walk] at vacant
    split at vacant
    · cases vacant
    · exact get?_of_advance_vacant vacant
  | succ links ih =>
    rw [walk] at vacant
    split at vacant
    · exact ih vacant
    · exact get?_of_advance_vacant vacant

theorem get?_makeDirectory? {names : Location} (made : t.makeDirectory? names = some t')
    (l : Location) : t'.entries.get? l = t.entries.get? l ∨
      (t.entries.get? l = none ∧ t'.entries.get? l = some .directory) := by
  unfold makeDirectory? locateLast follow at made
  split at made
  · next loc vacant =>
    split at vacant
    · rw [(put?_ok made).2.2.2]
      split
      · next here => exact .inr ⟨here ▸ get?_of_walk_vacant vacant, rfl⟩
      · exact .inl rfl
    · cases vacant
  · cases made

theorem get?_makeDirectoriesFrom (t : FileTree) (here names l : Location) :
    (t.makeDirectoriesFrom here names).entries.get? l = t.entries.get? l ∨
      (t.entries.get? l = none ∧
        (t.makeDirectoriesFrom here names).entries.get? l = some .directory) := by
  induction names generalizing t here with
  | nil => exact .inl rfl
  | cons name rest ih =>
    rw [makeDirectoriesFrom]
    cases made : t.makeDirectory? (here ++ [name]) with
    | none => exact ih t _
    | some t₁ =>
      rw [Option.getD_some]
      rcases get?_makeDirectory? made l with before | ⟨absent, directory⟩
      · rw [← before]
        exact ih t₁ _
      · rcases ih t₁ (here ++ [name]) with same | ⟨absent', -⟩
        · exact .inr ⟨absent, same.trans directory⟩
        · cases absent'.symm.trans directory

/-- Whatever names they are made by, only directories come in, and where nothing stood. -/
theorem get?_makeDirectories (t : FileTree) (names l : Location) :
    (t.makeDirectories names).entries.get? l = t.entries.get? l ∨
      (t.entries.get? l = none ∧ (t.makeDirectories names).entries.get? l = some .directory) := by
  unfold makeDirectories
  split
  · exact t.get?_makeDirectoriesFrom [] names.makeable l
  · exact .inl rfl

theorem get?_makeDirectories_of_some {names l : Location} {entry : Entry}
    (found : t.entries.get? l = some entry) :
    (t.makeDirectories names).entries.get? l = some entry := by
  rcases t.get?_makeDirectories names l with same | ⟨absent, -⟩
  · rw [same, found]
  · cases absent.symm.trans found

/-- A root stays one wherever directories are made. -/
theorem Root.after_makeDirectories {destination d : Location} (root : t.Root destination d)
    (names : Location) : (t.makeDirectories names).Root destination d := by
  refine root.of_ways (fun l e found _ => get?_makeDirectories_of_some found)
    fun q target nonempty found => ?_
  rcases t.get?_makeDirectories names (d ++ q) with same | ⟨-, made⟩
  · exact root.linkFree q target nonempty (same ▸ found)
  · cases made.symm.trans found

/-! ## Making directories below a root -/

section BelowRoot

variable {destination d : Location}

/-- Making directories entered directories on the way `q` on from `loc`, and nothing else. -/
def MadeOnly (loc q : Location) (t t' : FileTree) : Prop :=
  ∀ l, t'.entries.get? l = t.entries.get? l ∨
    (t.entries.get? l = none ∧ t'.entries.get? l = some .directory ∧
      ∃ r, r ≠ [] ∧ r <+: q ∧ l = loc ++ r)

/-- A way on which there are directories at most. -/
def FreeWay (t : FileTree) (loc q : Location) : Prop :=
  ∀ r, r ≠ [] → r <+: q →
    t.entries.get? (loc ++ r) = none ∨ t.entries.get? (loc ++ r) = some .directory

/-- Making directories leaves everything that is there. -/
theorem MadeOnly.kept {q l : Location} {entry : Entry} (made : MadeOnly d q t t')
    (found : t.entries.get? l = some entry) : t'.entries.get? l = some entry := by
  rcases made l with same | ⟨absent, -⟩
  · rw [same, found]
  · rw [absent] at found
    cases found

theorem MadeOnly.root {q : Location} (made : MadeOnly d q t t') (root : t.Root destination d) :
    t'.Root destination d := by
  apply root.of_changes
  intro l
  rcases made l with same | ⟨-, found, r, nonempty, -, rfl⟩
  · exact .inl same
  · refine .inr ⟨r, nonempty, rfl, fun target => ?_⟩
    rw [found]
    exact nofun

theorem Short.of_append {p q : Location} (h : Short destination (p ++ q)) :
    Short destination p := by
  obtain ⟨usable, short⟩ := h
  rw [← List.append_assoc] at usable
  exact ⟨Location.isUsable_of_append usable,
    fun name mem => short name (List.mem_append_left q mem)⟩

theorem Short.of_cons {q : Location} {name : String} (h : Short destination (name :: q)) :
    Short destination q := by
  obtain ⟨usable, short⟩ := h
  refine ⟨?_, fun n mem => short n (List.mem_cons_of_mem _ mem)⟩
  simp only [Location.isUsable, List.all_append, List.all_cons, Location.byteLength_append,
    Location.byteLength, Bool.and_eq_true, decide_eq_true_eq] at usable ⊢
  exact ⟨⟨usable.1.1, usable.1.2.2⟩, by omega⟩

theorem Plain.of_append {p q : Location} (h : Plain (p ++ q)) : Plain p :=
  fun name mem => h name (List.mem_append_left q mem)

theorem Plain.cons {q : Location} {name : String}
    (first : FilePath.isBlankPart name = false ∧ name ≠ "..") (h : Plain q) :
    Plain (name :: q) := by
  intro n mem
  rcases List.mem_cons.mp mem with rfl | mem
  · exact first
  · exact h n mem

theorem Root.makeDirectoriesFrom_made (root : t.Root destination d) {p q : Location}
    (plain : Plain (p ++ q)) :
    MadeOnly (d ++ p) q t (t.makeDirectoriesFrom (destination ++ p) q) := by
  induction q generalizing t p with
  | nil => exact fun l => .inl rfl
  | cons name rest ih =>
    have plain' : Plain ((p ++ [name]) ++ rest) := by simpa using plain
    have here : destination ++ p ++ [name] = destination ++ (p ++ [name]) := by simp
    simp only [makeDirectoriesFrom, here]
    intro l
    cases made : t.makeDirectory? (destination ++ (p ++ [name])) with
    | none =>
      rcases ih root plain' l with same | ⟨absent, found, r, nonempty, way, rfl⟩
      · exact .inl same
      · exact .inr ⟨absent, found, name :: r, by simp, by simpa using way, by simp⟩
    | some t₁ =>
      obtain ⟨-, absent, spec⟩ := root.makeDirectory?_ok plain'.of_append (by simp) made
      have root₁ : t₁.Root destination d := root.of_entered (by simp) spec nofun
      simp only [Option.getD_some]
      rcases ih root₁ plain' l with same | ⟨absent₁, found, r, nonempty, way, rfl⟩
      · rw [same, spec]
        split
        · next at_l =>
          subst at_l
          exact .inr ⟨absent, rfl, [name], by simp, by simp, by simp⟩
        · exact .inl rfl
      · rw [spec] at absent₁
        split at absent₁
        · cases absent₁
        · exact .inr ⟨absent₁, found, name :: r, by simp, by simpa using way, by simp⟩

theorem MadeOnly.off_way {q r : Location} (made : MadeOnly d q t t') (off : ¬ r <+: q) :
    t'.entries.get? (d ++ r) = t.entries.get? (d ++ r) := by
  rcases made (d ++ r) with same | ⟨-, -, r', -, way, here⟩
  · exact same
  · rw [← List.append_cancel_left here] at way
    exact absurd way off

/-- On a free way all directories can be made. -/
theorem Root.makeDirectoriesFrom_exists (root : t.Root destination d) {p q : Location}
    (plain : Plain (p ++ q)) (short : Short destination (p ++ q))
    (directory : HoldsDirectory t.entries (d ++ p)) (free : t.FreeWay (d ++ p) q) :
    HoldsDirectory (t.makeDirectoriesFrom (destination ++ p) q).entries (d ++ (p ++ q)) := by
  induction q generalizing t p with
  | nil => simpa [makeDirectoriesFrom] using directory
  | cons name rest ih =>
    have plain' : Plain ((p ++ [name]) ++ rest) := by simpa using plain
    have short' : Short destination ((p ++ [name]) ++ rest) := by simpa using short
    have here : destination ++ p ++ [name] = destination ++ (p ++ [name]) := by simp
    have whole : d ++ (p ++ name :: rest) = d ++ ((p ++ [name]) ++ rest) := by simp
    simp only [makeDirectoriesFrom, here, whole]
    have nonempty : p ++ [name] ≠ [] := by simp
    have first := free [name] (by simp) (by simp)
    rw [List.append_assoc] at first
    have rest_free : t.FreeWay (d ++ (p ++ [name])) rest := by
      intro r hr way
      have := free (name :: r) (by simp) (by simpa using way)
      simpa using this
    rcases first with absent | found
    · have parent : HoldsDirectory t.entries (d ++ (p ++ [name])).dropLast := by
        rw [← List.append_assoc, List.dropLast_concat]
        exact directory
      obtain ⟨t₁, made⟩ := root.makeDirectory?_exists plain'.of_append nonempty short'.of_append
        absent parent
      obtain ⟨-, -, spec⟩ := root.makeDirectory?_ok plain'.of_append nonempty made
      have root₁ : t₁.Root destination d := root.of_entered (by simp) spec nofun
      rw [made, Option.getD_some]
      apply ih root₁ plain' short' (.inr (by rw [spec, if_pos rfl]))
      intro r hr way
      rw [spec, if_neg (by simp [hr])]
      exact rest_free r hr way
    · cases made : t.makeDirectory? (destination ++ (p ++ [name])) with
      | none => exact ih root plain' short' (.inr found) rest_free
      | some t₁ =>
        obtain ⟨-, absent, -⟩ := root.makeDirectory?_ok plain'.of_append nonempty made
        rw [found] at absent
        cases absent

/-- Below a root, the directories are made on from the root. -/
theorem Root.makeDirectories_eq (root : t.Root destination d) {q : Location} (plain : Plain q)
    (nonempty : q ≠ []) :
    t.makeDirectories (destination ++ q) =
      if Location.isUsable (destination ++ q) then t.makeDirectoriesFrom destination q else t := by
  obtain ⟨init, name, rfl⟩ := List.eq_nil_or_concat q |>.resolve_left nonempty
  have not_blank := (plain name (by simp)).1
  have way : t.locate ([] ++ destination ++ []) = .found d := by
    simpa using root.leads t (.refl d t)
  rw [List.concat_eq_append, makeDirectories, Location.makeable_append_concat _ _ not_blank,
    makeDirectoriesFrom_append, makeDirectoriesFrom_found way, List.nil_append]

/-- Making directories below a root enters directories on the way, and nothing else. -/
theorem Root.makeDirectories_made (root : t.Root destination d) {q : Location} (plain : Plain q)
    (nonempty : q ≠ []) : MadeOnly d q t (t.makeDirectories (destination ++ q)) := by
  rw [root.makeDirectories_eq plain nonempty]
  split
  · have made := root.makeDirectoriesFrom_made (p := []) (q := q) (by simpa using plain)
    simpa using made
  · exact fun l => .inl rfl

/-- It gets to the end of a free way. -/
theorem Root.makeDirectories_exists (root : t.Root destination d) {q : Location} (plain : Plain q)
    (nonempty : q ≠ []) (short : Short destination q) (free : t.FreeWay d q) :
    (t.makeDirectories (destination ++ q)).isDirectory (destination ++ q) = true := by
  have made := root.makeDirectories_made plain nonempty
  rw [(made.root root).isDirectory_iff plain nonempty]
  refine ⟨short, ?_⟩
  rw [root.makeDirectories_eq plain nonempty, if_pos short.1]
  have holds := root.makeDirectoriesFrom_exists (p := []) (q := q) (by simpa using plain)
    (by simpa using short) (by simpa using root.directory) (by simpa using free)
  simp only [List.append_nil, List.nil_append] at holds
  exact holds.resolve_left (by simp [nonempty])

/-- With a file on the way nothing is made, and the way does not lead to a directory. -/
theorem Root.makeDirectories_blocked (root : t.Root destination d) {q : Location} (plain : Plain q)
    (nonempty : q ≠ []) (blocked : ¬ t.FreeWay d q) :
    t.makeDirectories (destination ++ q) = t ∧ ¬ t.isDirectory (destination ++ q) = true := by
  obtain ⟨r, not_nil, way, content, file⟩ : ∃ r, r ≠ [] ∧ r <+: q ∧ ∃ content,
      t.entries.get? (d ++ r) = some (.file content) := by
    simp only [FreeWay] at blocked
    push Not at blocked
    obtain ⟨r, not_nil, way, some, no_directory⟩ := blocked
    refine ⟨r, not_nil, way, ?_⟩
    cases found : t.entries.get? (d ++ r) with
    | none => exact absurd found some
    | some entry =>
      cases entry with
      | file content => exact ⟨content, rfl⟩
      | directory => exact absurd found no_directory
      | link target => exact absurd found (root.linkFree r target not_nil)
  have made := root.makeDirectories_made plain nonempty
  generalize t.makeDirectories (destination ++ q) = t' at made
  have file' : t'.entries.get? (d ++ r) = some (.file content) := by
    rcases made (d ++ r) with same | ⟨absent, -⟩
    · rw [same, file]
    · rw [absent] at file
      cases file
  constructor
  · refine ext_get? fun l => (made l).resolve_right ?_
    rintro ⟨absent, directory, r', not_nil', way', rfl⟩
    -- what was made lies beyond the file or before it
    rcases List.prefix_or_prefix_of_prefix way way' with ⟨rest, rfl⟩ | ⟨rest, rfl⟩
    · by_cases last : rest = []
      · rw [last, List.append_nil, file'] at directory
        cases directory
      · rw [← List.append_assoc, get?_below_file last file'] at directory
        cases directory
    · have last : rest ≠ [] := by
        rintro rfl
        rw [List.append_nil, absent] at file
        cases file
      rw [← List.append_assoc] at file
      rcases holdsDirectory_of_get? last file with top | holds
      · simp [not_nil'] at top
      · rw [absent] at holds
        cases holds
  · rw [root.isDirectory_iff plain nonempty]
    rintro ⟨-, directory⟩
    rw [directory_on_way directory way not_nil] at file
    cases file

end BelowRoot

end FileTree

end VirtualModules
