import Mathlib.Data.List.Infix
import VirtualModules.Disk.Action
import VirtualModules.Proofs.Following

/-!
# Asking and changing below a root

Below a root, plain names lead to what stands there literally, as long as they are short enough
(`Root.find?_eq_some_iff`). So the answers of a tree and the changes of it are those of its entries:
each change below a root enters or removes one location (`Root.write?_ok`, `Root.makeDirectory?_ok`,
`Root.rename?_file`).
-/

namespace VirtualModules

namespace FileTree

variable {t t' : FileTree}

/-! ## The two basic changes -/

theorem ext_get? (same : ∀ loc, t.entries.get? loc = t'.entries.get? loc) : t = t' :=
  ext_entries (Table.ext_get? same)

theorem put?_ok {loc : Location} {entry : Entry} (h : t.put? loc entry = some t') :
    loc ≠ [] ∧ HoldsDirectory t.entries loc.dropLast ∧ t.entries.get? loc ≠ some .directory ∧
      ∀ l, t'.entries.get? l = if l = loc then some entry else t.entries.get? l := by
  unfold put? at h
  split at h
  · next possible =>
    cases h
    refine ⟨possible.1, possible.2.1, possible.2.2, fun l => ?_⟩
    split
    · next here =>
      subst here
      exact Table.get?_insert_self _ _ _
    · next elsewhere => exact Table.get?_insert_ne _ elsewhere _
  · cases h

theorem put?_exists {loc : Location} (entry : Entry) (nonempty : loc ≠ [])
    (parent : HoldsDirectory t.entries loc.dropLast)
    (free : t.entries.get? loc ≠ some .directory) : ∃ t', t.put? loc entry = some t' := by
  unfold put?
  rw [dif_pos ⟨nonempty, parent, free⟩]
  exact ⟨_, rfl⟩

theorem get?_prune (t : FileTree) (loc l : Location) :
    (t.prune loc).entries.get? l = if loc <+: l then none else t.entries.get? l := by
  rw [prune, Table.get?_filter]
  cases found : t.entries.get? l with
  | none => simp
  | some entry =>
    by_cases below : loc <+: l
    · simp [below]
    · simp [below, Option.filter]

/-! ## Where answers come from -/

theorem locate_of_find? {names loc : Location} {entry : Entry}
    (found : t.find? names = some (loc, entry)) : t.locate names = .found loc := by
  unfold find? at found
  split at found
  · next met =>
    obtain ⟨e, -, here⟩ := Option.map_eq_some_iff.mp found
    cases here
    exact met
  · cases found

theorem locateLast_of_findLast? {names loc : Location} {entry : Entry}
    (found : t.findLast? names = some (loc, entry)) : t.locateLast names = .found loc := by
  unfold findLast? at found
  split at found
  · next met =>
    obtain ⟨e, -, here⟩ := Option.map_eq_some_iff.mp found
    cases here
    exact met
  · cases found

theorem locate_of_read? {names : Location} {content : Bytes}
    (read : t.read? names = some content) : ∃ loc, t.locate names = .found loc := by
  unfold read? at read
  split at read
  · next found => exact ⟨_, locate_of_find? found⟩
  · cases read

theorem locate_of_isDirectory {names : Location} (there : t.isDirectory names = true) :
    ∃ loc, t.locate names = .found loc := by
  unfold isDirectory at there
  cases found : t.find? names with
  | none =>
    rw [found] at there
    cases there
  | some place => exact ⟨_, locate_of_find? found⟩

theorem find?_of_holdsDirectory {names loc : Location} (found : t.locate names = .found loc)
    (directory : HoldsDirectory t.entries loc) : t.find? names = some (loc, .directory) := by
  rw [find?, found]
  rcases directory with rfl | here
  · rfl
  · have nonempty : loc ≠ [] := (t.closed loc _ here).1
    simp [nonempty, here, entry?]

/-- Renaming needs a source and a place for the target. -/
theorem of_rename?_eq_some {source target : Location}
    (renamed : t.rename? source target = some t') :
    ∃ loc entry place, t.findLast? source = some (loc, entry) ∧
      (t.locateLast target = .found place ∨ t.locateLast target = .vacant place) := by
  unfold rename? at renamed
  split at renamed
  · next last found => exact ⟨_, _, _, last, .inl found⟩
  · next last vacant => exact ⟨_, _, _, last, .inr vacant⟩
  · cases renamed

/-! ## Following below a root -/

namespace Root

variable {destination d : Location} (root : t.Root destination d)

include root

theorem find?_self : t.find? destination = some (d, .directory) :=
  find?_of_holdsDirectory (root.leads t (.refl d t)) root.directory

theorem isDirectory_self : t.isDirectory destination = true := by
  rw [isDirectory, root.find?_self]

theorem follow_below {followLast : Bool} {q : Location} (plain : Plain q) (nonempty : q ≠ []) :
    t.follow followLast (destination ++ q) =
      if Location.isUsable (destination ++ q) then t.advance followLast d q else .lost := by
  unfold follow
  split
  · have here := root.leads t (.refl d t)
    have straight : ∀ d' names, t.advance followLast d q ≠ .link d' names := by
      intro d' names met
      rcases advance_plain followLast plain nonempty root.directory
        root.linkFree with ⟨h, -⟩ | ⟨h, -⟩ | ⟨h | h, -⟩
      all_goals
        rw [h] at met
        cases met
    unfold locate follow at here
    split at here
    · rcases walk_append followLast nonempty maxLinks (.inl rfl) with
        ⟨loc, links, found, -, whole⟩ | ⟨h, -⟩
      · rw [here] at found
        cases found
        rw [whole, walk_of_not_link straight]
      · exact absurd root.directory (h d here)
    · cases here
  · rfl

theorem follow_found {followLast : Bool} {q : Location} (plain : Plain q) (nonempty : q ≠ [])
    (short : Short destination q) {entry : Entry} (found : t.entries.get? (d ++ q) = some entry) :
    t.follow followLast (destination ++ q) = .found (d ++ q) := by
  rw [root.follow_below plain nonempty, if_pos short.1]
  rcases advance_plain followLast plain nonempty root.directory root.linkFree with
    ⟨h, -⟩ | ⟨-, -, none, -⟩ | ⟨-, h⟩
  · exact h
  · rw [found] at none
    cases none
  · exact absurd ⟨short.2, .inl (by rw [found]; rfl)⟩ h

theorem follow_vacant {followLast : Bool} {q : Location} (plain : Plain q) (nonempty : q ≠ [])
    (short : Short destination q) (none : t.entries.get? (d ++ q) = none)
    (parent : HoldsDirectory t.entries (d ++ q).dropLast) :
    t.follow followLast (destination ++ q) = .vacant (d ++ q) := by
  rw [root.follow_below plain nonempty, if_pos short.1]
  rcases advance_plain followLast plain nonempty root.directory root.linkFree with
    ⟨-, -, some⟩ | ⟨h, -⟩ | ⟨-, h⟩
  · rw [none] at some
    cases some
  · exact h
  · exact absurd ⟨short.2, .inr parent⟩ h

theorem of_follow_found {followLast : Bool} {q loc : Location} (plain : Plain q)
    (nonempty : q ≠ []) (h : t.follow followLast (destination ++ q) = .found loc) :
    loc = d ++ q ∧ Short destination q ∧ (t.entries.get? (d ++ q)).isSome := by
  rw [root.follow_below plain nonempty] at h
  split at h
  · next usable =>
    rcases advance_plain followLast plain nonempty root.directory root.linkFree with
      ⟨met, short, some⟩ | ⟨met, -⟩ | ⟨met | met, -⟩
    · rw [met] at h
      cases h
      exact ⟨rfl, ⟨usable, short⟩, some⟩
    all_goals
      rw [met] at h
      cases h
  · cases h

theorem of_follow_vacant {followLast : Bool} {q loc : Location} (plain : Plain q)
    (nonempty : q ≠ []) (h : t.follow followLast (destination ++ q) = .vacant loc) :
    loc = d ++ q ∧ Short destination q ∧ t.entries.get? (d ++ q) = none ∧
      HoldsDirectory t.entries (d ++ q).dropLast := by
  rw [root.follow_below plain nonempty] at h
  split at h
  · next usable =>
    rcases advance_plain followLast plain nonempty root.directory root.linkFree with
      ⟨met, -⟩ | ⟨met, short, none, parent⟩ | ⟨met | met, -⟩
    · rw [met] at h
      cases h
    · rw [met] at h
      cases h
      exact ⟨rfl, ⟨usable, short⟩, none, parent⟩
    all_goals
      rw [met] at h
      cases h
  · cases h

/-! ## Asking below a root -/

theorem find?_eq_some_iff {q loc : Location} (plain : Plain q) (nonempty : q ≠ [])
    {entry : Entry} :
    t.find? (destination ++ q) = some (loc, entry) ↔
      loc = d ++ q ∧ Short destination q ∧ t.entries.get? (d ++ q) = some entry := by
  have not_root : d ++ q ≠ [] := by simp [nonempty]
  unfold find? locate
  constructor
  · intro h
    split at h
    · next met =>
      obtain ⟨rfl, short, -⟩ := root.of_follow_found plain nonempty met
      simp only [if_neg not_root, entry?, Option.map_eq_some_iff, Prod.mk.injEq] at h
      obtain ⟨_, found, rfl, rfl⟩ := h
      exact ⟨rfl, short, found⟩
    · cases h
  · rintro ⟨rfl, short, found⟩
    rw [root.follow_found plain nonempty short found]
    simp [nonempty, found, entry?]

theorem findLast?_eq_some_iff {q loc : Location} (plain : Plain q) (nonempty : q ≠ [])
    {entry : Entry} :
    t.findLast? (destination ++ q) = some (loc, entry) ↔
      loc = d ++ q ∧ Short destination q ∧ t.entries.get? (d ++ q) = some entry := by
  have not_root : d ++ q ≠ [] := by simp [nonempty]
  unfold findLast? locateLast
  constructor
  · intro h
    split at h
    · next met =>
      obtain ⟨rfl, short, -⟩ := root.of_follow_found plain nonempty met
      simp only [if_neg not_root, entry?, Option.map_eq_some_iff, Prod.mk.injEq] at h
      obtain ⟨_, found, rfl, rfl⟩ := h
      exact ⟨rfl, short, found⟩
    · cases h
  · rintro ⟨rfl, short, found⟩
    rw [root.follow_found plain nonempty short found]
    simp [nonempty, found, entry?]

theorem isDirectory_iff {q : Location} (plain : Plain q) (nonempty : q ≠ []) :
    t.isDirectory (destination ++ q) = true ↔
      Short destination q ∧ t.entries.get? (d ++ q) = some .directory := by
  unfold isDirectory
  constructor
  · intro h
    split at h
    · next found => exact ((root.find?_eq_some_iff plain nonempty).mp found).2
    · cases h
  · rintro ⟨short, found⟩
    rw [(root.find?_eq_some_iff plain nonempty).mpr ⟨rfl, short, found⟩]

theorem read?_eq_some_iff {q : Location} (plain : Plain q) (nonempty : q ≠ [])
    {content : Bytes} :
    t.read? (destination ++ q) = some content ↔
      Short destination q ∧ t.entries.get? (d ++ q) = some (.file content) := by
  unfold read?
  constructor
  · intro h
    split at h
    · next found =>
      cases h
      exact ((root.find?_eq_some_iff plain nonempty).mp found).2
    · cases h
  · rintro ⟨short, found⟩
    rw [(root.find?_eq_some_iff plain nonempty).mpr ⟨rfl, short, found⟩]

theorem present_iff {q : Location} (plain : Plain q) (nonempty : q ≠ []) :
    t.present (destination ++ q) = true ↔
      Short destination q ∧ (t.entries.get? (d ++ q)).isSome := by
  rw [present, Option.isSome_iff_exists, Option.isSome_iff_exists]
  constructor
  · rintro ⟨⟨loc, entry⟩, found⟩
    obtain ⟨-, short, here⟩ := (root.findLast?_eq_some_iff plain nonempty).mp found
    exact ⟨short, entry, here⟩
  · rintro ⟨short, entry, here⟩
    exact ⟨_, (root.findLast?_eq_some_iff plain nonempty).mpr ⟨rfl, short, here⟩⟩

/-! What a place below is told to be depends only on what stands there. -/

section Congr

variable {t₁ : FileTree} (root₁ : t₁.Root destination d) {q : Location} (plain : Plain q)
  (nonempty : q ≠ []) (same : t.entries.get? (d ++ q) = t₁.entries.get? (d ++ q))

include root₁ plain nonempty same

theorem present_congr : t.present (destination ++ q) = t₁.present (destination ++ q) := by
  rw [Bool.eq_iff_iff, root.present_iff plain nonempty, root₁.present_iff plain nonempty, same]

theorem read?_congr : t.read? (destination ++ q) = t₁.read? (destination ++ q) := by
  ext content
  rw [root.read?_eq_some_iff plain nonempty, root₁.read?_eq_some_iff plain nonempty, same]

end Congr

/-! ## Single changes below a root -/

/-- A root stays one if entries below it change, but not to links. -/
theorem of_changes
    (changes : ∀ l, t'.entries.get? l = t.entries.get? l ∨
      ∃ q, q ≠ [] ∧ l = d ++ q ∧ ∀ target, t'.entries.get? l ≠ some (.link target)) :
    t'.Root destination d := by
  refine root.congr (fun l outside => ?_) fun q target nonempty found => ?_
  · rcases changes l with same | ⟨q, nonempty, here, -⟩
    · exact same.symm
    · exact absurd here (outside q nonempty)
  · rcases changes (d ++ q) with same | ⟨-, -, -, no_link⟩
    · rw [same] at found
      exact root.linkFree q target nonempty found
    · exact no_link target found

theorem of_entered {q : Location} (nonempty : q ≠ []) {entry : Entry}
    (spec : ∀ l, t'.entries.get? l = if l = d ++ q then some entry else t.entries.get? l)
    (no_link : ∀ target, entry ≠ .link target) :
    t'.Root destination d := by
  apply root.of_changes
  intro l
  rw [spec]
  split
  · next here =>
    exact .inr ⟨q, nonempty, here, fun target same => no_link target (by simpa using same)⟩
  · exact .inl rfl

theorem pruned {q : Location} (nonempty : q ≠ []) : (t.prune (d ++ q)).Root destination d := by
  apply root.of_changes
  intro l
  rw [get?_prune]
  split
  · next below =>
    obtain ⟨rest, rfl⟩ := below
    exact .inr ⟨q ++ rest, by simp [nonempty], by simp, fun target => nofun⟩
  · exact .inl rfl

theorem makeDirectory?_ok {q : Location} (plain : Plain q) (nonempty : q ≠ [])
    (h : t.makeDirectory? (destination ++ q) = some t') :
    Short destination q ∧ t.entries.get? (d ++ q) = none ∧
      ∀ l, t'.entries.get? l = if l = d ++ q then some .directory else t.entries.get? l := by
  unfold makeDirectory? locateLast at h
  split at h
  · next met =>
    obtain ⟨rfl, short, none, -⟩ := root.of_follow_vacant plain nonempty met
    exact ⟨short, none, (put?_ok h).2.2.2⟩
  · cases h

theorem makeDirectory?_exists {q : Location} (plain : Plain q) (nonempty : q ≠ [])
    (short : Short destination q) (none : t.entries.get? (d ++ q) = none)
    (parent : HoldsDirectory t.entries (d ++ q).dropLast) :
    ∃ t', t.makeDirectory? (destination ++ q) = some t' := by
  unfold makeDirectory? locateLast
  rw [root.follow_vacant plain nonempty short none parent]
  exact put?_exists _ (by simp [nonempty]) parent (by rw [none]; exact nofun)

theorem write?_ok {q : Location} {content : Bytes} (plain : Plain q) (nonempty : q ≠ [])
    (h : t.write? (destination ++ q) content = some t') :
    Short destination q ∧ t.entries.get? (d ++ q) ≠ some .directory ∧
      ∀ l, t'.entries.get? l = if l = d ++ q then some (.file content) else t.entries.get? l := by
  unfold write? locate at h
  split at h
  · next met =>
    obtain ⟨rfl, short, -⟩ := root.of_follow_found plain nonempty met
    exact ⟨short, (put?_ok h).2.2.1, (put?_ok h).2.2.2⟩
  · next met =>
    obtain ⟨rfl, short, -⟩ := root.of_follow_vacant plain nonempty met
    exact ⟨short, (put?_ok h).2.2.1, (put?_ok h).2.2.2⟩
  · cases h

theorem write?_exists {q : Location} (content : Bytes) (plain : Plain q) (nonempty : q ≠ [])
    (short : Short destination q) (free : t.entries.get? (d ++ q) ≠ some .directory)
    (parent : HoldsDirectory t.entries (d ++ q).dropLast) :
    ∃ t', t.write? (destination ++ q) content = some t' := by
  obtain ⟨t', put⟩ := put?_exists (.file content) (by simp [nonempty]) parent free
  refine ⟨t', ?_⟩
  unfold write? locate
  cases found : t.entries.get? (d ++ q) with
  | none =>
    rw [root.follow_vacant plain nonempty short found parent]
    exact put
  | some entry =>
    rw [root.follow_found plain nonempty short found]
    exact put

theorem removeTree?_directory {q : Location} (plain : Plain q) (nonempty : q ≠ [])
    (short : Short destination q) (found : t.entries.get? (d ++ q) = some .directory) :
    t.removeTree? (destination ++ q) = some (t.prune (d ++ q)) := by
  unfold removeTree?
  rw [(root.findLast?_eq_some_iff plain nonempty).mpr ⟨rfl, short, found⟩]

theorem removeFile?_file {q : Location} {content : Bytes} (plain : Plain q) (nonempty : q ≠ [])
    (short : Short destination q) (found : t.entries.get? (d ++ q) = some (.file content)) :
    t.removeFile? (destination ++ q) = some (t.prune (d ++ q)) := by
  unfold removeFile?
  rw [(root.findLast?_eq_some_iff plain nonempty).mpr ⟨rfl, short, found⟩]

end Root

theorem LinkFree.of_entered {destination d q : Location} (free : t.LinkFree destination d)
    (plain : Plain q) (nonempty : q ≠ []) {entry : Entry}
    (spec : ∀ l, t'.entries.get? l = if l = d ++ q then some entry else t.entries.get? l)
    (no_link : ∀ target, entry ≠ .link target) : t'.LinkFree destination d := by
  apply free.of_changes
  intro l
  rw [spec]
  split
  · next here =>
    refine .inr ⟨q, nonempty, here, .inr ⟨plain, fun target same => ?_⟩⟩
    exact no_link target (by simpa using same)
  · exact .inl rfl

theorem LinkFree.pruned {destination d q : Location} (free : t.LinkFree destination d)
    (nonempty : q ≠ []) : (t.prune (d ++ q)).LinkFree destination d := by
  apply free.of_changes
  intro l
  rw [get?_prune]
  split
  · next below =>
    obtain ⟨rest, rfl⟩ := below
    exact .inr ⟨q ++ rest, by simp [nonempty], by simp, .inl rfl⟩
  · exact .inl rfl

/-! ## Files have nothing below them -/

theorem mem_below_iff {loc names : Location} {entry : Entry} :
    (names, entry) ∈ t.below loc ↔
      names ≠ [] ∧ t.entries.get? (loc ++ names) = some entry := by
  simp only [below, List.mem_filterMap, Prod.exists, Table.get?_eq_some_iff]
  constructor
  · rintro ⟨l, e, mem, h⟩
    split at h
    · next name rest rest_eq =>
      cases h
      have whole := List.isPrefixOf?_eq_some_iff_append_eq.mp rest_eq
      rw [← whole] at mem
      exact ⟨by simp, mem⟩
    · cases h
  · rintro ⟨nonempty, mem⟩
    obtain ⟨name, rest, rfl⟩ := List.exists_cons_of_ne_nil nonempty
    refine ⟨_, _, mem, ?_⟩
    rw [List.isPrefixOf?_eq_some_iff_append_eq.mpr rfl]

theorem get?_below_file {loc names : Location} {content : Bytes} (nonempty : names ≠ [])
    (file : t.entries.get? loc = some (.file content)) :
    t.entries.get? (loc ++ names) = none := by
  cases found : t.entries.get? (loc ++ names) with
  | none => rfl
  | some entry =>
    rcases holdsDirectory_of_get? nonempty found with rfl | holds
    · exact absurd rfl (t.closed _ _ file).1
    · rw [file] at holds
      cases holds

theorem get?_below_none {loc names : Location} (nonempty : loc ≠ [])
    (absent : t.entries.get? loc = none) : t.entries.get? (loc ++ names) = none := by
  by_cases more : names = []
  · rwa [more, List.append_nil]
  · cases found : t.entries.get? (loc ++ names) with
    | none => rfl
    | some entry =>
      rcases holdsDirectory_of_get? more found with rfl | holds
      · exact absurd rfl nonempty
      · rw [absent] at holds
        cases holds

/-- A file stands there, or nothing. -/
def AtMostFile (t : FileTree) (loc : Location) : Prop :=
  t.entries.get? loc = none ∨ ∃ content, t.entries.get? loc = some (.file content)

theorem AtMostFile.file_of_some {loc : Location} {entry : Entry} (free : t.AtMostFile loc)
    (found : t.entries.get? loc = some entry) : ∃ content, entry = .file content := by
  rcases free with absent | ⟨content, file⟩
  · cases found.symm.trans absent
  · exact ⟨content, Option.some.inj (found.symm.trans file)⟩

theorem AtMostFile.get?_below {loc names : Location} (free : t.AtMostFile loc)
    (not_root : loc ≠ []) (nonempty : names ≠ []) : t.entries.get? (loc ++ names) = none := by
  rcases free with absent | ⟨content, file⟩
  · exact get?_below_none not_root absent
  · exact get?_below_file nonempty file

theorem get?_prune_atMostFile {loc : Location} (nonempty : loc ≠ []) (free : t.AtMostFile loc)
    (l : Location) :
    (t.prune loc).entries.get? l = if l = loc then none else t.entries.get? l := by
  rw [get?_prune]
  by_cases here : l = loc
  · subst here
    simp
  · rw [if_neg here]
    split
    · next below =>
      obtain ⟨names, rfl⟩ := below
      have more : names ≠ [] := by
        rintro rfl
        simp at here
      exact (free.get?_below nonempty more).symm
    · rfl

/-- Removing a file removes nothing else. -/
theorem get?_prune_file {loc : Location} {content : Bytes}
    (file : t.entries.get? loc = some (.file content)) (l : Location) :
    (t.prune loc).entries.get? l = if l = loc then none else t.entries.get? l :=
  get?_prune_atMostFile (t.closed _ _ file).1 (.inr ⟨content, file⟩) l

/-! ## Moving a file -/

/-- Nothing stands in a directory below a file. -/
theorem not_prefix_of_file {source target : Location} {content : Bytes}
    (file : t.entries.get? source = some (.file content)) (differ : source ≠ target)
    (parent : HoldsDirectory t.entries target.dropLast) : ¬ source <+: target := by
  rintro ⟨names, rfl⟩
  have nonempty : names ≠ [] := by
    rintro rfl
    simp at differ
  have not_root : source ≠ [] := (t.closed _ _ file).1
  rw [List.dropLast_append_of_ne_nil nonempty] at parent
  rcases parent with none | holds
  · simp [not_root] at none
  · by_cases last : names.dropLast = []
    · rw [last, List.append_nil, file] at holds
      cases holds
    · rw [get?_below_file last file] at holds
      cases holds

theorem below_file {loc : Location} {content : Bytes}
    (file : t.entries.get? loc = some (.file content)) : t.below loc = [] := by
  refine List.eq_nil_iff_forall_not_mem.mpr fun (names, entry) mem => ?_
  obtain ⟨nonempty, found⟩ := mem_below_iff.mp mem
  rw [get?_below_file nonempty file] at found
  cases found

/-- A file is moved to where a file or nothing stands in a directory. -/
theorem moveTo?_file {source target : Location} {content : Bytes}
    (file : t.entries.get? source = some (.file content)) (nonempty : target ≠ [])
    (free : t.AtMostFile target)
    (parent : HoldsDirectory t.entries target.dropLast) :
    ∃ t', t.moveTo? source (.file content) target = some t' ∧
      ∀ l, t'.entries.get? l =
        if l = target then some (.file content)
        else if l = source then none else t.entries.get? l := by
  by_cases differ : source = target
  · subst differ
    refine ⟨t, by simp [moveTo?], fun l => ?_⟩
    split
    · next here => rw [here, file]
    · rfl
  have apart := not_prefix_of_file file differ parent
  have replaceable : t.replaceable (.file content) target = true := by
    unfold replaceable entry?
    rw [if_neg nonempty]
    rcases free with found | ⟨old, found⟩
    · rw [found]
    · rw [found]
  have kept : (t.prune target).entries.get? source = some (.file content) := by
    rw [get?_prune_atMostFile nonempty free, if_neg differ, file]
  have pruned : ∀ l, ((t.prune target).prune source).entries.get? l =
      if l = source ∨ l = target then none else t.entries.get? l := by
    intro l
    rw [get?_prune_file kept, get?_prune_atMostFile nonempty free]
    grind
  have parent' : HoldsDirectory ((t.prune target).prune source).entries target.dropLast := by
    apply parent.imp_right
    intro found
    rw [pruned, if_neg, found]
    rintro (here | here)
    · exact apart (here ▸ List.dropLast_prefix target)
    · have lengths := congrArg List.length here
      have positive := List.length_pos_iff.mpr nonempty
      simp only [List.length_dropLast] at lengths
      omega
  obtain ⟨t', put⟩ := put?_exists (.file content) nonempty parent' (by simp [pruned])
  refine ⟨t', ?_, fun l => ?_⟩
  · simp [moveTo?, differ, apart, replaceable, put, below_file file]
  · rw [(put?_ok put).2.2.2, pruned]
    grind

/-- A file from below a root can be renamed, below the same or another one, to where a file or
nothing stands in a directory. -/
theorem Root.rename?_file {destination d scratch c : Location} (root : t.Root destination d)
    (source_root : t.Root scratch c) {p q : Location} {content : Bytes} (plain_p : Plain p)
    (nonempty_p : p ≠ []) (plain_q : Plain q) (nonempty_q : q ≠ []) (short_p : Short scratch p)
    (short_q : Short destination q)
    (source : t.entries.get? (c ++ p) = some (.file content))
    (target : t.AtMostFile (d ++ q))
    (parent : HoldsDirectory t.entries (d ++ q).dropLast) :
    ∃ t', t.rename? (scratch ++ p) (destination ++ q) = some t' ∧
      ∀ l, t'.entries.get? l =
        if l = d ++ q then some (.file content)
        else if l = c ++ p then none else t.entries.get? l := by
  obtain ⟨t', moved, spec⟩ := moveTo?_file source (by simp [nonempty_q]) target parent
  refine ⟨t', ?_, spec⟩
  unfold rename? locateLast
  rw [(source_root.findLast?_eq_some_iff plain_p nonempty_p).mpr ⟨rfl, short_p, source⟩]
  rcases target with absent | ⟨old, found⟩
  · rw [root.follow_vacant plain_q nonempty_q short_q absent parent]
    exact moved
  · rw [root.follow_found plain_q nonempty_q short_q found]
    exact moved

end FileTree

end VirtualModules
