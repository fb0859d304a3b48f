import VirtualModules.Proofs.StagedCopies

/-!
# Moving artifacts to their places

Wherever the scratch directory lies, even in the way of a file or below one, replacing a file that
goes through moved the copy of it from the scratch directory (`Moved`, `Ground.replace`): a rename
did it, for what a copy could do a rename can, too (`Ground.of_moveFile`). Nothing else has changed
but directories that were made. So the destination stays free of links and the scratch directory
stays where it is, whichever artifacts are placed (`Ground.placeAll`). A destination that is not
there is made with the first artifact (`of_placeAll_missing`).
-/

namespace VirtualModules

open FileTree

namespace InstallPlan

variable {p : InstallPlan} {d c file : Location} {t t₂ t' : FileTree}

/-- What an install takes for granted: there are no links in the destination or in the scratch
directory. -/
structure Ground (p : InstallPlan) (d c : Location) (t : FileTree) : Prop where
  free : t.LinkFree p.destination d
  scratch : t.Root p.scratch c

/-! ## What keeps the ground -/

/-- Directories were made. -/
theorem Ground.made {init : Location} (ground : p.Ground d c t) (plain : Plain init)
    (made : MadeOnly d init t t') : p.Ground d c t' := by
  have ways : ∀ l e, t.entries.get? l = some e → (∀ content, e ≠ .file content) →
      t'.entries.get? l = some e := fun l e found _ => made.kept found
  refine ⟨ground.free.of_ways ways fun q e found => ?_,
    ground.scratch.of_ways ways fun q target nonempty found => ?_⟩
  · rcases made (d ++ q) with same | ⟨-, directory, r, -, ⟨rest, whole⟩, here⟩
    · exact .inl (same ▸ found)
    · rw [List.append_cancel_left here]
      cases directory.symm.trans found
      exact .inr ⟨(whole ▸ plain).of_append, nofun⟩
  · rcases made (c ++ q) with same | ⟨-, directory, -⟩
    · exact ground.scratch.linkFree q target nonempty (same ▸ found)
    · cases directory.symm.trans found

/-- A file was moved to where no more than a file stood. -/
theorem Ground.renamed {content : Bytes} (ground : p.Ground d c t) (plain : Plain file)
    (source : t.entries.get? (c ++ file) = some (.file content)) (free : t.AtMostFile (d ++ file))
    (spec : ∀ l, t'.entries.get? l =
      if l = d ++ file then some (.file content)
      else if l = c ++ file then none else t.entries.get? l) : p.Ground d c t' := by
  have ways : ∀ l e, t.entries.get? l = some e → (∀ content, e ≠ .file content) →
      t'.entries.get? l = some e := by
    intro l e found no_file
    rw [spec, if_neg, if_neg, found]
    · rintro rfl
      exact no_file content (Option.some.inj (found.symm.trans source))
    · rintro rfl
      rcases free with absent | ⟨old, here⟩
      · cases found.symm.trans absent
      · exact no_file old (Option.some.inj (found.symm.trans here))
  -- whatever stands somewhere stood there before or is the file
  have before : ∀ l e, t'.entries.get? l = some e →
      t.entries.get? l = some e ∨ (l = d ++ file ∧ e = .file content) := by
    intro l e found
    rw [spec] at found
    split at found
    · next here => exact .inr ⟨here, (Option.some.inj found).symm⟩
    split at found
    · cases found
    · exact .inl found
  refine ⟨ground.free.of_ways ways fun q e found => ?_,
    ground.scratch.of_ways ways fun q target nonempty found => ?_⟩
  · rcases before _ e found with same | ⟨here, rfl⟩
    · exact .inl same
    · rw [List.append_cancel_left here]
      exact .inr ⟨plain, nofun⟩
  · rcases before _ _ found with same | ⟨-, clash⟩
    · exact ground.scratch.linkFree q target nonempty same
    · cases clash

/-! ## Moving the copy -/

/-- What is still reached in the scratch directory is where it was. -/
theorem Ground.scratch_of_reached {followLast : Bool} {loc : Location} (ground : p.Ground d c t)
    (freed : Freed (d ++ file) t t') (nonempty : file ≠ [])
    (reached : t'.follow followLast (p.scratch ++ file) = .found loc) :
    t'.Root p.scratch c := by
  obtain ⟨above, found, directory⟩ := locate_of_follow_append reached nonempty
  exact ground.scratch.of_locate freed.less found directory

/-- A file is moved only to where its names lead to a place. -/
theorem short_of_moveFile {destination source : Location} (plain : Plain file)
    (moved : moveFile source (destination ++ file) t = .ok () t') : Short destination file := by
  unfold moveFile at moved
  rw [DiskAction.get_bind] at moved
  cases renamed : t.rename? source (destination ++ file) with
  | some t₁ =>
    obtain ⟨_, _, _, -, target⟩ := of_rename?_eq_some renamed
    exact short_of_follow target plain
  | none =>
    rw [renamed] at moved
    obtain ⟨_, t₁, -, moved⟩ := DiskAction.of_bind_eq_ok moved
    obtain ⟨_, _, _, -, target⟩ := of_rename?_eq_some (DiskAction.of_change_eq_ok moved)
    exact short_of_follow target plain

section MoveFile

variable (ground : p.Ground d c t) (dotted : DottedLast file) (freed : Freed (d ++ file) t t₂)
  (parent : HoldsDirectory t₂.entries (d ++ file).dropLast)

include ground dotted freed parent

/-- A copy that is still reached can be renamed. -/
theorem Ground.rename?_ok (short : Short p.destination file) (scratch₂ : t₂.Root p.scratch c)
    (short_copy : Short p.scratch file) {content : Bytes}
    (source : t₂.entries.get? (c ++ file) = some (.file content)) :
    ∃ t', t₂.rename? (p.scratch ++ file) (p.destination ++ file) = some t' ∧
      p.Ground d c t' ∧ ∀ l, t'.entries.get? l =
        if l = d ++ file then some (.file content)
        else if l = c ++ file then none else t₂.entries.get? l := by
  have plain := dotted.plain
  have nonempty := dotted.nonempty
  have ground₂ : p.Ground d c t₂ := ⟨freed.linkFree ground.free nonempty, scratch₂⟩
  obtain ⟨t', renamed, spec⟩ := ground₂.free.toRoot.rename?_file scratch₂ plain nonempty plain
    nonempty short_copy short source freed.free parent
  exact ⟨t', renamed, ground₂.renamed plain source freed.free spec, spec⟩

/-- Moving a file that goes through is a rename. What a copy could do a rename can, too. -/
theorem Ground.of_moveFile (copy : t.AtMostFile (c ++ file))
    (moved : moveFile (p.scratch ++ file) (p.destination ++ file) t₂ = .ok () t') :
    ∃ content, t₂.entries.get? (c ++ file) = some (.file content) ∧ p.Ground d c t' ∧
      ∀ l, t'.entries.get? l =
        if l = d ++ file then some (.file content)
        else if l = c ++ file then none else t₂.entries.get? l := by
  have plain := dotted.plain
  have nonempty := dotted.nonempty
  have short := short_of_moveFile plain moved
  unfold moveFile at moved
  rw [DiskAction.get_bind] at moved
  cases renamed : t₂.rename? (p.scratch ++ file) (p.destination ++ file) with
  | some t₃ =>
    rw [renamed] at moved
    cases moved
    obtain ⟨loc, entry, _, last, -⟩ := of_rename?_eq_some renamed
    have scratch₂ := ground.scratch_of_reached freed nonempty (locateLast_of_findLast? last)
    obtain ⟨-, short_copy, found⟩ := (scratch₂.findLast?_eq_some_iff plain nonempty).mp last
    obtain ⟨content, rfl⟩ := copy.file_of_some (freed.less _ _ found)
    obtain ⟨t₃, renamed', ground', spec⟩ :=
      ground.rename?_ok dotted freed parent short scratch₂ short_copy found
    cases renamed.symm.trans renamed'
    exact ⟨content, found, ground', spec⟩
  | none =>
    -- the copy was read, so it is in its place and the rename was possible
    rw [renamed] at moved
    obtain ⟨_, t₃, copied, -⟩ := DiskAction.of_bind_eq_ok moved
    obtain ⟨content, read, -⟩ := Option.bind_eq_some_iff.mp (DiskAction.of_change_eq_ok copied)
    obtain ⟨loc, reached⟩ := locate_of_read? read
    have scratch₂ := ground.scratch_of_reached freed nonempty reached
    obtain ⟨short_copy, found⟩ := (scratch₂.read?_eq_some_iff plain nonempty).mp read
    obtain ⟨t₃, renamed', -⟩ :=
      ground.rename?_ok dotted freed parent short scratch₂ short_copy found
    cases renamed.symm.trans renamed'

end MoveFile

/-! ## Replacing a file -/

/-- The copy of a file was moved to its place, and beside it only directories have come in. -/
structure Moved (d c file : Location) (content : Bytes) (t t' : FileTree) : Prop where
  copy : t.entries.get? (c ++ file) = some (.file content)
  target : t'.entries.get? (d ++ file) = some (.file content)
  beside : ¬ d ++ file <+: c
  gone : c ++ file ≠ d ++ file → t'.entries.get? (c ++ file) = none
  others : ∀ l, ¬ d ++ file <+: l → l ≠ c ++ file → t'.entries.get? l = t.entries.get? l ∨
    (t.entries.get? l = none ∧ t'.entries.get? l = some .directory ∧
      ∃ r, r ≠ [] ∧ Undotted r ∧ l = d ++ r)

/-- Before the copy is moved, directories are made on the way to the file, and one in its place
goes. -/
theorem Ground.of_replace (ground : p.Ground d c t) (dotted : DottedLast file)
    (replaced : p.replace file t = .ok () t') :
    ∃ init t₁ t₂, Undotted init ∧ MadeOnly d init t t₁ ∧ p.Ground d c t₁ ∧
      Freed (d ++ file) t₁ t₂ ∧ HoldsDirectory t₂.entries (d ++ file).dropLast ∧
      moveFile (p.scratch ++ file) (p.destination ++ file) t₂ = .ok () t' := by
  have plain := dotted.plain
  obtain ⟨init, name, split, undotted, -⟩ := dotted.split
  have plain_split := split ▸ plain
  have above : (d ++ file).dropLast = d ++ init := by
    rw [split, ← List.append_assoc, List.dropLast_concat]
  have outside : ¬ d ++ file <+: d ++ init := by
    rw [split, ← List.append_assoc]
    exact not_prefix_concat _ name
  rw [replace_eq] at replaced
  obtain ⟨_, t₁, made, replaced⟩ := DiskAction.of_bind_eq_ok replaced
  rw [DiskAction.get_bind] at replaced
  obtain ⟨_, t₂, cleared, moved⟩ := DiskAction.of_bind_eq_ok replaced
  rw [split] at made
  obtain ⟨entered, parent⟩ := ground.free.toRoot.of_makeParent plain_split made
  have ground₁ := ground.made plain_split.of_append entered
  have short := short_of_moveFile plain moved
  obtain ⟨t₂, cleared', freed⟩ := removeTree_target ground₁.free.toRoot plain dotted.nonempty short
  cases cleared.symm.trans cleared'
  refine ⟨init, t₁, t₂, undotted, entered, ground₁, freed, ?_, moved⟩
  rw [above]
  exact parent.imp_right fun found => (freed.others _ outside).trans found

/-- Replacing a file that goes through moves the copy of it. -/
theorem Ground.replace (ground : p.Ground d c t) (dotted : DottedLast file)
    (copy : t.AtMostFile (c ++ file)) (replaced : p.replace file t = .ok () t') :
    p.Ground d c t' ∧ Short p.destination file ∧ ∃ content, Moved d c file content t t' := by
  have nonempty := dotted.nonempty
  obtain ⟨init, t₁, t₂, undotted, entered, ground₁, freed, parent, moved⟩ :=
    ground.of_replace dotted replaced
  -- no directory that was made is in the place of the copy
  have copy₁ : t₁.entries.get? (c ++ file) = t.entries.get? (c ++ file) := by
    rcases entered (c ++ file) with same | ⟨-, -, r, not_nil, way, here⟩
    · exact same
    · exact absurd here (dotted.ne_undotted not_nil (undotted.of_prefix way) c d)
  obtain ⟨content, source, ground', spec⟩ := ground₁.of_moveFile dotted freed parent
    (by rwa [AtMostFile, copy₁]) moved
  refine ⟨ground', short_of_moveFile dotted.plain moved, content, ?_, ?_, fun below => ?_,
    fun differ => ?_, fun l outside not_copy => ?_⟩
  · rw [← copy₁, freed.less _ _ source]
  · rw [spec, if_pos rfl]
  · obtain ⟨rest, rfl⟩ := below
    rw [List.append_assoc,
      freed.free.get?_below (by simp [nonempty]) (by simp [nonempty])] at source
    cases source
  · rw [spec, if_neg differ, if_pos rfl]
  · have not_file : l ≠ d ++ file := by
      rintro rfl
      exact outside (List.prefix_refl _)
    rw [spec, if_neg not_file, if_neg not_copy, freed.others l outside]
    rcases entered l with same | ⟨absent, directory, r, not_nil, way, here⟩
    · exact .inl same
    · exact .inr ⟨absent, directory, r, not_nil, undotted.of_prefix way, here⟩

/-- The copies of other files stay, unless one lay in the place of the file. -/
theorem Moved.copies {other : Location} {content : Bytes} (moved : Moved d c file content t t')
    (dotted : DottedLast file) (dotted' : DottedLast other) (differ : other ≠ file) :
    c ++ other = d ++ file ∨ t'.entries.get? (c ++ other) = t.entries.get? (c ++ other) := by
  by_cases below : d ++ file <+: c ++ other
  · rcases dotted.prefix_cases dotted' below with above | same
    · exact absurd above moved.beside
    · exact .inl same.symm
  · rcases moved.others _ below (by simpa using differ) with
      same | ⟨-, -, r, not_nil, undotted, here⟩
    · exact .inr same
    · exact absurd here (dotted'.ne_undotted not_nil undotted c d)

/-! ## Placing several artifacts -/

section PlaceAll

variable {e : Location × Option String} {items : List (Location × Option String)}
  {r : List Location × List Location}

theorem of_placeOne_ok {summary : Option String} {placed : Bool}
    (one : p.placeOne file summary t = .ok placed t') :
    (p.upToDate t (p.destination ++ file) summary = true ∧ placed = false ∧ t' = t) ∨
      (p.upToDate t (p.destination ++ file) summary = false ∧ placed = true ∧
        p.replace file t = .ok () t') := by
  simp only [placeOne] at one
  rw [DiskAction.get_bind] at one
  cases fresh : p.upToDate t (p.destination ++ file) summary with
  | true =>
    rw [fresh] at one
    cases one
    exact .inl ⟨rfl, rfl, rfl⟩
  | false =>
    rw [fresh, if_neg Bool.false_ne_true] at one
    obtain ⟨_, t₁, replaced, one⟩ := DiskAction.of_bind_eq_ok one
    cases one
    exact .inr ⟨rfl, rfl, replaced⟩

theorem of_placeAll_cons_ok (all : p.placeAll (e :: items) t = .ok r t') :
    ∃ placed t₁ r₁, p.placeOne e.1 e.2 t = .ok placed t₁ ∧ p.placeAll items t₁ = .ok r₁ t' ∧
      r = if placed then ((p.destination ++ e.1) :: r₁.1, r₁.2)
        else (r₁.1, (p.destination ++ e.1) :: r₁.2) := by
  rw [placeAll] at all
  obtain ⟨placed, t₁, one, all⟩ := DiskAction.of_bind_eq_ok all
  obtain ⟨r₁, t₂, rest, all⟩ := DiskAction.of_bind_eq_ok all
  cases all
  exact ⟨placed, t₁, r₁, one, rest, rfl⟩

/-- Once a file was moved, the copies of others are files still, if they are there. -/
theorem Moved.copies_kept {content : Bytes} (moved : Moved d c e.1 content t t')
    (dotted : ∀ e' ∈ e :: items, DottedLast e'.1)
    (copies : ∀ e' ∈ items, t.AtMostFile (c ++ e'.1)) :
    ∀ e' ∈ items, t'.AtMostFile (c ++ e'.1) := by
  obtain ⟨dotted_e, dotted_rest⟩ := List.forall_mem_cons.mp dotted
  intro e' mem
  by_cases again : e'.1 = e.1
  · rw [again]
    by_cases same : c ++ e.1 = d ++ e.1
    · exact .inr ⟨content, same ▸ moved.target⟩
    · exact .inl (moved.gone same)
  · rcases moved.copies dotted_e (dotted_rest e' mem) again with same | same
    · exact .inr ⟨content, same ▸ moved.target⟩
    · rw [AtMostFile, same]
      exact copies e' mem

/-- Placing keeps the ground, whichever artifacts are placed. -/
theorem Ground.placeAll (ground : p.Ground d c t) (dotted : ∀ e ∈ items, DottedLast e.1)
    (copies : ∀ e ∈ items, t.AtMostFile (c ++ e.1)) (all : p.placeAll items t = .ok r t') :
    p.Ground d c t' := by
  induction items generalizing t r with
  | nil =>
    cases all
    exact ground
  | cons e rest ih =>
    obtain ⟨dotted_e, dotted_rest⟩ := List.forall_mem_cons.mp dotted
    obtain ⟨copy, copies_rest⟩ := List.forall_mem_cons.mp copies
    obtain ⟨placed, t₁, r₁, one, later, -⟩ := of_placeAll_cons_ok all
    rcases of_placeOne_ok one with ⟨-, -, rfl⟩ | ⟨-, -, replaced⟩
    · exact ih ground dotted_rest copies_rest later
    · obtain ⟨ground₁, -, content, moved⟩ := ground.replace dotted_e copy replaced
      exact ih ground₁ dotted_rest (moved.copies_kept dotted copies_rest) later

/-! ## A destination that is not there yet -/

theorem upToDate_of_absent {names : Location} {summary : Option String}
    (absent : t.present names = false) : p.upToDate t names summary = false := by
  rw [upToDate, absent, Bool.false_and]

/-- The destination may be made before a file in it is replaced. -/
theorem replace_after_made (root : (t.makeDirectories p.destination).Root p.destination d)
    (dotted : DottedLast file) (replaced : p.replace file t = .ok () t') :
    p.replace file (t.makeDirectories p.destination) = .ok () t' := by
  have plain := dotted.plain
  obtain ⟨init, name, split, -⟩ := dotted.split
  rw [replace_eq, split] at replaced ⊢
  rw [split] at plain
  obtain ⟨_, t₁, made, replaced⟩ := DiskAction.of_bind_eq_ok replaced
  rw [DiskAction.bind_of_ok (root.makeParent_after plain made)]
  exact replaced

section Missing

variable (missing : ¬ t.isDirectory p.destination = true)

include missing

theorem upToDate_of_missing (nonempty : file ≠ []) (summary : Option String) :
    p.upToDate t (p.destination ++ file) summary = false := by
  have absent : t.findLast? (p.destination ++ file) = none := by
    rw [Option.eq_none_iff_forall_ne_some]
    intro (loc, entry) found
    exact not_found_of_missing missing nonempty (locateLast_of_findLast? found)
  apply upToDate_of_absent
  rw [present, absent, Option.isSome_none]

/-- Placing the first artifact makes the destination and replaces the file in it. -/
theorem of_placeAll_missing (ground : p.Ground d c (t.makeDirectories p.destination))
    (dotted : DottedLast e.1) (copy : (t.makeDirectories p.destination).AtMostFile (c ++ e.1))
    (all : p.placeAll (e :: items) t = .ok r t') :
    ∃ t₁ r₁ content, p.Ground d c t₁ ∧ Short p.destination e.1 ∧
      Moved d c e.1 content (t.makeDirectories p.destination) t₁ ∧
      p.placeAll items t₁ = .ok r₁ t' ∧ r = ((p.destination ++ e.1) :: r₁.1, r₁.2) := by
  obtain ⟨placed, t₁, r₁, one, later, listing⟩ := of_placeAll_cons_ok all
  rcases of_placeOne_ok one with ⟨current, -⟩ | ⟨-, rfl, replaced⟩
  · cases current.symm.trans (upToDate_of_missing missing dotted.nonempty e.2)
  · have replaced := replace_after_made ground.free.toRoot dotted replaced
    obtain ⟨ground₁, short, content, moved⟩ := ground.replace dotted copy replaced
    exact ⟨t₁, r₁, content, ground₁, short, moved, later, listing⟩

end Missing

/-- After artifacts were placed the destination is there and free of links, unless there were none
and it was not there before. -/
theorem linkFree_placed (free : (t.makeDirectories p.destination).LinkFree p.destination d)
    (scratch : items ≠ [] → t.Root p.scratch c) (dotted : ∀ e ∈ items, DottedLast e.1)
    (copies : ∀ e ∈ items, ∃ content, t.entries.get? (c ++ e.1) = some (.file content))
    (all : p.placeAll items t = .ok r t') : t'.LinkFree p.destination d ∨
      (items = [] ∧ t' = t ∧ ¬ t.isDirectory p.destination = true) := by
  cases items with
  | nil =>
    cases all
    by_cases there : t.isDirectory p.destination = true
    · rw [makeDirectories_of_isDirectory there] at free
      exact .inl free
    · exact .inr ⟨rfl, rfl, there⟩
  | cons e rest =>
    refine .inl ?_
    have scratch := scratch (List.cons_ne_nil e rest)
    by_cases there : t.isDirectory p.destination = true
    · rw [makeDirectories_of_isDirectory there] at free
      have ground : p.Ground d c t := ⟨free, scratch⟩
      exact (ground.placeAll dotted (fun e' mem => .inr (copies e' mem)) all).free
    · obtain ⟨dotted_e, dotted_rest⟩ := List.forall_mem_cons.mp dotted
      have copies_made : ∀ e' ∈ e :: rest,
          (t.makeDirectories p.destination).AtMostFile (c ++ e'.1) := by
        intro e' mem
        obtain ⟨content, found⟩ := copies e' mem
        exact .inr ⟨content, get?_makeDirectories_of_some found⟩
      obtain ⟨copy, copies_rest⟩ := List.forall_mem_cons.mp copies_made
      have ground : p.Ground d c (t.makeDirectories p.destination) :=
        ⟨free, scratch.after_makeDirectories _⟩
      obtain ⟨t₁, r₁, content, ground₁, -, moved, later, -⟩ :=
        of_placeAll_missing there ground dotted_e copy all
      exact (ground₁.placeAll dotted_rest (moved.copies_kept dotted copies_rest) later).free

end PlaceAll

end InstallPlan

end VirtualModules
