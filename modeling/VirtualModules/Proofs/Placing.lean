import VirtualModules.Proofs.ScratchDirectories

/-!
# Placing staged artifacts

Placing one artifact finds it up to date and changes nothing, or moves it to its file whatever is
there and makes the directories above, or stops at a file that is in the way of these
(`Ready.placeOne_cases`). Placing several goes on like that. Where it comes to an end every
artifact is `Settled`, whether it was installed or left unchanged, and nothing else has changed
(`Ready.placeAll_ends`).
-/

namespace VirtualModules

open FileTree

namespace InstallPlan

section Placing

variable {p : InstallPlan} {t t' : FileTree} {d : Location} {scratch : String}
  {nspace : ImportPath}

/-- A staged artifact that can be moved: it lies in the scratch directory, and its names are short
enough. -/
structure Placeable (p : InstallPlan) (d : Location) (scratch : String) (nspace : ImportPath)
    (t : FileTree) (file : Location) : Prop where
  direct : ∃ name, file = nspace.segments ++ [name]
  plain : Plain (scratch :: file)
  short : Short p.destination (scratch :: file)
  staged : ∃ content, t.entries.get? (d ++ scratch :: file) = some (.file content)

/-- What holds while artifacts are placed. -/
structure Ready (p : InstallPlan) (d : Location) (scratch : String) (nspace : ImportPath)
    (t : FileTree) (items : List (Location × Option String)) : Prop where
  free : t.LinkFree p.destination d
  scratch_eq : p.scratch = p.destination ++ [scratch]
  dot : '.' ∈ scratch.toList
  directory : t.entries.get? (d ++ [scratch]) = some .directory
  placeable : ∀ e ∈ items, p.Placeable d scratch nspace t e.1
  distinct : (items.map (·.1)).Nodup

/-! ## Names of files and of staged files -/

theorem Placeable.plain_file {file : Location} (h : p.Placeable d scratch nspace t file) :
    Plain file := fun n mem => h.plain n (List.mem_cons_of_mem _ mem)

theorem Placeable.nonempty {file : Location} (h : p.Placeable d scratch nspace t file) :
    file ≠ [] := by
  obtain ⟨name, rfl⟩ := h.direct
  simp

/-- Files and staged files lie at different depths. -/
theorem Placeable.ne_staged {file file' : Location} (h : p.Placeable d scratch nspace t file)
    (h' : p.Placeable d scratch nspace t file') : file ≠ scratch :: file' := by
  obtain ⟨name, rfl⟩ := h.direct
  obtain ⟨name', rfl⟩ := h'.direct
  intro same
  have := congrArg List.length same
  simp only [List.length_cons, List.length_append, List.length_nil] at this
  omega

/-- Of two files none lies below the other. -/
theorem Placeable.not_prefix {file file' : Location} (h : p.Placeable d scratch nspace t file)
    (h' : p.Placeable d scratch nspace t file') (differ : file' ≠ file) : ¬ file <+: file' := by
  obtain ⟨name, rfl⟩ := h.direct
  obtain ⟨name', rfl⟩ := h'.direct
  exact fun below => differ (below.eq_of_length (by simp)).symm

theorem Placeable.off_way {file : Location} (h : p.Placeable d scratch nspace t file) :
    ¬ file <+: nspace.segments ∧ ¬ scratch :: file <+: nspace.segments := by
  obtain ⟨name, rfl⟩ := h.direct
  refine ⟨not_prefix_concat _ name, fun way => ?_⟩
  have := way.length_le
  simp only [List.length_cons, List.length_append, List.length_nil] at this
  omega

theorem Placeable.beside {file : Location} (h : p.Placeable d scratch nspace t file)
    (dot : '.' ∈ scratch.toList) : ¬ [scratch] <+: file := by
  obtain ⟨name, rfl⟩ := h.direct
  exact head_ne_of_dot dot [name]

/-- No staged file lies below a file. -/
theorem Placeable.not_prefix_staged {file : Location} (h : p.Placeable d scratch nspace t file)
    (dot : '.' ∈ scratch.toList) (file' : Location) : ¬ file <+: scratch :: file' := by
  intro below
  obtain ⟨first, rest, first_eq⟩ := List.exists_cons_of_ne_nil h.nonempty
  rw [first_eq] at below
  obtain ⟨rfl, -⟩ := List.cons_prefix_cons.mp below
  exact h.beside dot (first_eq ▸ ⟨rest, rfl⟩)

theorem Ready.sublist {items items' : List (Location × Option String)}
    (ready : p.Ready d scratch nspace t items) (sub : items'.Sublist items) :
    p.Ready d scratch nspace t items' :=
  { ready with
    placeable := fun e mem => ready.placeable e (sub.subset mem)
    distinct := ready.distinct.sublist (sub.map _) }

theorem Ready.tail {e : Location × Option String} {items : List (Location × Option String)}
    (ready : p.Ready d scratch nspace t (e :: items)) : p.Ready d scratch nspace t items :=
  ready.sublist (List.sublist_cons_self e items)

theorem Ready.fresh {e : Location × Option String} {items : List (Location × Option String)}
    (ready : p.Ready d scratch nspace t (e :: items)) : ∀ e' ∈ items, e'.1 ≠ e.1 := by
  intro e' mem same
  exact (List.nodup_cons.mp ready.distinct).1 (List.mem_map.mpr ⟨e', mem, same⟩)

/-! ## Replacing one file -/

/-- A staged file was moved to its place, and the directories above are there. -/
structure Replaced (d : Location) (scratch : String) (nspace : ImportPath) (file : Location)
    (content : Bytes) (t t' : FileTree) : Prop where
  moved : t'.entries.get? (d ++ file) = some (.file content)
  staged : t'.entries.get? (d ++ scratch :: file) = none
  way : ∀ r, r ≠ [] → r <+: nspace.segments → t'.entries.get? (d ++ r) = some .directory
  others : ∀ l, ¬ d ++ file <+: l → l ≠ d ++ scratch :: file →
    (∀ r, r ≠ [] → r <+: nspace.segments → l ≠ d ++ r) → t'.entries.get? l = t.entries.get? l

theorem Replaced.linkFree {destination file : Location} {content : Bytes}
    (replaced : Replaced d scratch nspace file content t t') (free : t.LinkFree destination d)
    (plain : Plain file) (nonempty : file ≠ []) : t'.LinkFree destination d := by
  apply free.of_changes
  intro l
  by_cases below : d ++ file <+: l
  · obtain ⟨rest, rfl⟩ := below
    rw [List.append_assoc]
    refine .inr ⟨file ++ rest, by simp [nonempty], rfl, ?_⟩
    by_cases more : rest = []
    · subst more
      rw [List.append_nil, replaced.moved]
      exact .inr ⟨plain, fun target => nofun⟩
    · rw [← List.append_assoc]
      exact .inl (get?_below_file more replaced.moved)
  by_cases staged : l = d ++ scratch :: file
  · exact .inr ⟨_, by simp, staged, .inl (staged ▸ replaced.staged)⟩
  by_cases on_way : ∃ r, r ≠ [] ∧ r <+: nspace.segments ∧ l = d ++ r
  · obtain ⟨r, not_nil, way, rfl⟩ := on_way
    obtain ⟨rest, whole⟩ := way
    refine .inr ⟨r, not_nil, rfl, .inr ⟨(whole ▸ plain_segments nspace).of_append, ?_⟩⟩
    rw [replaced.way r not_nil ⟨rest, whole⟩]
    exact fun target => nofun
  · refine .inl (replaced.others l below staged fun r not_nil way here => ?_)
    exact on_way ⟨r, not_nil, way, here⟩

/-- No more than a file is left at a location, and what is not there or below is as it was. -/
structure Freed (loc : Location) (t t' : FileTree) : Prop where
  free : t'.AtMostFile loc
  less : ∀ l e, t'.entries.get? l = some e → t.entries.get? l = some e
  others : ∀ l, ¬ loc <+: l → t'.entries.get? l = t.entries.get? l

theorem Freed.root {destination q : Location} (freed : Freed (d ++ q) t t')
    (root : t.Root destination d) (nonempty : q ≠ []) : t'.Root destination d := by
  apply root.of_changes
  intro l
  by_cases below : d ++ q <+: l
  · obtain ⟨rest, rfl⟩ := below
    refine .inr ⟨q ++ rest, by simp [nonempty], by simp, fun target found => ?_⟩
    have before := freed.less _ _ found
    rw [List.append_assoc] at before
    exact root.linkFree _ target (by simp [nonempty]) before
  · exact .inl (freed.others l below)

theorem Freed.linkFree {destination q : Location} (freed : Freed (d ++ q) t t')
    (free : t.LinkFree destination d) (nonempty : q ≠ []) : t'.LinkFree destination d where
  toRoot := freed.root free.toRoot nonempty
  named q e found := free.named q e (freed.less _ _ found)

/-- A directory in the way is removed, with all below it. -/
theorem removeTree_target {q : Location} (root : t.Root p.destination d)
    (plain : Plain q) (nonempty : q ≠ []) (short : Short p.destination q) :
    ∃ t', ((if t.isDirectory (p.destination ++ q) then DiskAction.removeTree (p.destination ++ q)
        else pure () : DiskAction DiskError Unit) t) = .ok () t' ∧ Freed (d ++ q) t t' := by
  by_cases directory : t.isDirectory (p.destination ++ q) = true
  · have removed := root.removeTree?_directory plain nonempty short
      ((root.isDirectory_iff plain nonempty).mp directory).2
    refine ⟨t.prune (d ++ q), ?_, .inl ?_, fun l e found => ?_, fun l outside => ?_⟩
    · rw [if_pos directory]
      exact DiskAction.change_of_some removed
    · rw [get?_prune, if_pos (List.prefix_refl _)]
    · rw [get?_prune] at found
      split at found
      · cases found
      · exact found
    · rw [get?_prune, if_neg outside]
  · refine ⟨t, by rw [if_neg directory]; rfl, ?_, fun l e found => found, fun l _ => rfl⟩
    cases found : t.entries.get? (d ++ q) with
    | none => exact .inl found
    | some entry =>
      cases entry with
      | file content => exact .inr ⟨content, found⟩
      | directory =>
        exact absurd ((root.isDirectory_iff plain nonempty).mpr ⟨short, found⟩) directory
      | link target => exact absurd found (root.linkFree q target nonempty)

section Replace

variable {items : List (Location × Option String)} {file : Location}
  (ready : p.Ready d scratch nspace t items) (placeable : p.Placeable d scratch nspace t file)

theorem replace_eq (p : InstallPlan) (file : Location) :
    p.replace file = (do
      DiskAction.makeDirectories (p.destination ++ file).parent
      let t ← get
      (if t.isDirectory (p.destination ++ file) then DiskAction.removeTree (p.destination ++ file)
        else pure () : DiskAction DiskError Unit)
      moveFile (p.scratch ++ file) (p.destination ++ file)) := by
  unfold replace
  refine bind_congr fun _ => bind_congr fun t => ?_
  split <;> rfl

include placeable in
theorem Placeable.parent_eq :
    (p.destination ++ file).parent = p.destination ++ nspace.segments := by
  have plain := placeable.plain_file
  obtain ⟨name, rfl⟩ := placeable.direct
  exact Location.parent_append_plain _ (fun n mem => (plain n mem).1) nspace.segments_ne_nil

include ready placeable in
theorem Ready.replace_ok (way : t.FreeWay d nspace.segments) {content : Bytes}
    (staged : t.entries.get? (d ++ scratch :: file) = some (.file content)) :
    ∃ t', p.replace file t = .ok () t' ∧ Replaced d scratch nspace file content t t' := by
  have parent := placeable.parent_eq
  have plain := placeable.plain_file
  have short := placeable.short.of_cons
  have off_way := placeable.off_way
  have differ := (placeable.ne_staged placeable).symm
  have nonempty := placeable.nonempty
  have apart : ¬ d ++ file <+: d ++ scratch :: file := by
    rw [List.prefix_append_right_inj]
    intro below
    obtain ⟨first, rest, rfl⟩ := List.exists_cons_of_ne_nil nonempty
    obtain ⟨rfl, -⟩ := List.cons_prefix_cons.mp below
    exact placeable.beside ready.dot ⟨rest, rfl⟩
  obtain ⟨name, direct⟩ := placeable.direct
  -- the directory of the namespace is made
  obtain ⟨t₁, made_ok, made, root₁, directory⟩ := ready.free.toRoot.makeDirectories_ok
    (direct ▸ plain).of_append nspace.segments_ne_nil (direct ▸ short).of_append way
  -- a directory in the way goes
  obtain ⟨t₂, cleared, freed⟩ := removeTree_target root₁ plain nonempty short
  have root₂ := freed.root root₁ nonempty
  have kept := freed.others
  have on_way : ∀ r, r ≠ [] → r <+: nspace.segments → ¬ d ++ file <+: d ++ r := by
    intro r _ way below
    rw [List.prefix_append_right_inj] at below
    exact off_way.1 (below.trans way)
  have source : t₂.entries.get? (d ++ scratch :: file) = some (.file content) := by
    rw [kept _ apart, made.off_way off_way.2, staged]
  have parent_there : HoldsDirectory t₂.entries (d ++ file).dropLast := by
    rw [direct, ← List.append_assoc, List.dropLast_concat]
    refine .inr ?_
    rw [kept _ (on_way _ nspace.segments_ne_nil (List.prefix_refl _)), directory]
  -- and the file is renamed
  obtain ⟨t', renamed, spec⟩ := root₂.rename?_file root₂ placeable.plain (by simp) plain nonempty
    placeable.short short source freed.free parent_there
  refine ⟨t', ?_, ?_, ?_, ?_, fun l outside not_staged off => ?_⟩
  · rw [replace_eq, parent, DiskAction.bind_of_ok made_ok, DiskAction.get_bind,
      DiskAction.bind_of_ok cleared, ready.scratch_eq, scratch_append]
    simp only [moveFile]
    rw [DiskAction.get_bind, renamed]
    rfl
  · rw [spec, if_pos rfl]
  · rw [spec, if_neg (by simp [differ]), if_pos rfl]
  · intro r not_nil way
    have not_file : r ≠ file := fun same => off_way.1 (same ▸ way)
    have not_staged : r ≠ scratch :: file := fun same => off_way.2 (same ▸ way)
    rw [spec, if_neg (by simpa using not_file), if_neg (by simpa using not_staged),
      kept _ (on_way r not_nil way), directory_on_way directory way not_nil]
  · have not_file : l ≠ d ++ file := by
      rintro rfl
      exact outside (List.prefix_refl _)
    rw [spec, if_neg not_file, if_neg not_staged, kept l outside]
    refine (made l).resolve_right ?_
    rintro ⟨-, -, r, not_nil, way, here⟩
    exact off r not_nil way here

include ready placeable in
theorem Ready.replace_error (blocked : ¬ t.FreeWay d nspace.segments) :
    p.replace file t = .error ⟨p.destination ++ nspace.segments⟩ t := by
  have plain := placeable.plain_file
  have parent := placeable.parent_eq
  obtain ⟨name, direct⟩ := placeable.direct
  obtain ⟨same, no_directory⟩ := ready.free.toRoot.makeDirectories_blocked (direct ▸ plain).of_append
    nspace.segments_ne_nil blocked
  have refused : DiskAction.makeDirectories (p.destination ++ nspace.segments) t =
      .error ⟨p.destination ++ nspace.segments⟩ t := by
    rw [DiskAction.makeDirectories_of_not_isDirectory (by rwa [same]), same]
  rw [replace_eq, parent, DiskAction.bind_of_error refused]

end Replace

/-! ## Placing one artifact -/

section One

variable {e : Location × Option String} {items : List (Location × Option String)}

/-- An artifact is up to date, or it is moved to its place, or a file is in the way of the
directories above. -/
theorem Ready.placeOne_cases (ready : p.Ready d scratch nspace t (e :: items)) :
    (p.upToDate t (p.destination ++ e.1) e.2 = true ∧ p.placeOne e.1 e.2 t = .ok false t) ∨
      (p.upToDate t (p.destination ++ e.1) e.2 = false ∧ t.FreeWay d nspace.segments ∧
        ∃ content t', t.entries.get? (d ++ scratch :: e.1) = some (.file content) ∧
          p.placeOne e.1 e.2 t = .ok true t' ∧ Replaced d scratch nspace e.1 content t t') ∨
      (p.upToDate t (p.destination ++ e.1) e.2 = false ∧ ¬ t.FreeWay d nspace.segments ∧
        p.placeOne e.1 e.2 t = .error ⟨p.destination ++ nspace.segments⟩ t) := by
  have here := ready.placeable e List.mem_cons_self
  simp only [placeOne]
  rw [DiskAction.get_bind]
  cases fresh : p.upToDate t (p.destination ++ e.1) e.2 with
  | true => exact .inl ⟨rfl, rfl⟩
  | false =>
    rw [if_neg Bool.false_ne_true]
    by_cases way : t.FreeWay d nspace.segments
    · obtain ⟨content, staged⟩ := here.staged
      obtain ⟨t', replaced_ok, replaced⟩ := ready.replace_ok here way staged
      refine .inr (.inl ⟨rfl, way, content, t', staged, ?_, replaced⟩)
      rw [DiskAction.bind_of_ok replaced_ok]
      rfl
    · refine .inr (.inr ⟨rfl, way, ?_⟩)
      rw [DiskAction.bind_of_error (ready.replace_error here way)]

variable (ready : p.Ready d scratch nspace t (e :: items)) {content : Bytes}
  (replaced : Replaced d scratch nspace e.1 content t t')

include replaced in
/-- Beside the file and its staged copy, only directories on the way may have come in. -/
theorem Replaced.kept {q : Location} (outside : ¬ e.1 <+: q) (not_staged : q ≠ scratch :: e.1)
    (off : ¬ q <+: nspace.segments) : t'.entries.get? (d ++ q) = t.entries.get? (d ++ q) := by
  refine replaced.others _ ?_ (by simpa using not_staged) fun r _ way here => ?_
  · rwa [List.prefix_append_right_inj]
  · rw [List.append_cancel_left here] at off
    exact off way

include ready replaced

theorem Ready.replaced_others : ∀ e' ∈ items,
    t'.entries.get? (d ++ e'.1) = t.entries.get? (d ++ e'.1) ∧
      t'.entries.get? (d ++ scratch :: e'.1) = t.entries.get? (d ++ scratch :: e'.1) := by
  intro e' mem
  have here := ready.placeable e List.mem_cons_self
  have there := ready.placeable e' (List.mem_cons_of_mem _ mem)
  have differ := ready.fresh e' mem
  constructor
  · exact replaced.kept (here.not_prefix there differ) (there.ne_staged here)
      there.off_way.1
  · exact replaced.kept (here.not_prefix_staged ready.dot _) (by simpa using differ)
      there.off_way.2

theorem Ready.after : p.Ready d scratch nspace t' items where
  free := replaced.linkFree ready.free (ready.placeable e List.mem_cons_self).plain_file
    (ready.placeable e List.mem_cons_self).nonempty
  scratch_eq := ready.scratch_eq
  dot := ready.dot
  directory := by
    have here := ready.placeable e List.mem_cons_self
    have outside : ¬ e.1 <+: [scratch] := fun below => by
      obtain ⟨name, direct⟩ := here.direct
      have lengths := below.length_le
      have positive := List.length_pos_iff.mpr nspace.segments_ne_nil
      simp only [direct, List.length_append, List.length_singleton] at lengths
      omega
    have off : ¬ [scratch] <+: nspace.segments := by simpa using head_ne_of_dot ready.dot []
    rw [replaced.kept outside (by simpa using here.nonempty.symm) off,
      ready.directory]
  placeable e' mem := by
    have there := ready.placeable e' (List.mem_cons_of_mem _ mem)
    have kept := ready.replaced_others replaced e' mem
    exact ⟨there.direct, there.plain, there.short, by rw [kept.2]; exact there.staged⟩
  distinct := (List.nodup_cons.mp ready.distinct).2

end One

/-! ## Placing several -/

/-- A staged artifact was settled on the way from `t` to `t'`: it was installed since what stood
there was out of date, or what stood there was up to date and stayed. -/
def Settled (p : InstallPlan) (d : Location) (scratch : String) (t t' : FileTree)
    (installed : List Location) (e : Location × Option String) : Prop :=
  ∃ u : FileTree, u.Root p.destination d ∧
    u.entries.get? (d ++ e.1) = t.entries.get? (d ++ e.1) ∧
    ((p.upToDate u (p.destination ++ e.1) e.2 = false ∧ p.destination ++ e.1 ∈ installed ∧
        t'.entries.get? (d ++ e.1) = t.entries.get? (d ++ scratch :: e.1)) ∨
      (p.upToDate u (p.destination ++ e.1) e.2 = true ∧ p.destination ++ e.1 ∉ installed ∧
        t'.entries.get? (d ++ e.1) = t.entries.get? (d ++ e.1)))

/-- What placing some staged artifacts did. -/
structure Placed (p : InstallPlan) (d : Location) (scratch : String) (nspace : ImportPath)
    (t t' : FileTree) (items : List (Location × Option String)) (installed : List Location) :
    Prop where
  free : t'.LinkFree p.destination d
  directory : t'.entries.get? (d ++ [scratch]) = some .directory
  settled : ∀ e ∈ items, p.Settled d scratch t t' installed e
  installed_mem : ∀ l ∈ installed, ∃ e ∈ items, l = p.destination ++ e.1
  others : ∀ l, (∀ e ∈ items, ¬ d ++ e.1 <+: l ∧ l ≠ d ++ scratch :: e.1) →
    t'.entries.get? l = t.entries.get? l ∨
      (t.entries.get? l = none ∧ t'.entries.get? l = some .directory ∧
        ∃ r, r ≠ [] ∧ r <+: nspace.segments ∧ l = d ++ r)

section All

variable {e : Location × Option String} {items : List (Location × Option String)}
  {installed : List Location}

/-- Away from the files and the staged files, only directories on the way may have come in. -/
theorem Placed.elsewhere (placed : p.Placed d scratch nspace t t' items installed) {q : Location}
    (off : ∀ e ∈ items, ¬ e.1 <+: q ∧ q ≠ scratch :: e.1) :
    t'.entries.get? (d ++ q) = t.entries.get? (d ++ q) ∨
      (t'.entries.get? (d ++ q) = some .directory ∧ q <+: nspace.segments) := by
  have off' : ∀ e ∈ items, ¬ d ++ e.1 <+: d ++ q ∧ d ++ q ≠ d ++ scratch :: e.1 := by
    intro e mem
    obtain ⟨not_file, not_staged⟩ := off e mem
    exact ⟨by rwa [List.prefix_append_right_inj], by simpa using not_staged⟩
  rcases placed.others (d ++ q) off' with same | ⟨-, directory, r, -, way, here⟩
  · exact .inl same
  · rw [← List.append_cancel_left here] at way
    exact .inr ⟨directory, way⟩

/-- What else is staged stays so. -/
theorem Placed.staged_kept (placed : p.Placed d scratch nspace t t' items installed)
    (ready : p.Ready d scratch nspace t items) {u : FileTree} {file : Location}
    (other : p.Placeable d scratch nspace u file) (differ : ∀ e ∈ items, e.1 ≠ file) :
    t'.entries.get? (d ++ scratch :: file) = t.entries.get? (d ++ scratch :: file) := by
  have off : ∀ e ∈ items, ¬ e.1 <+: scratch :: file ∧ scratch :: file ≠ scratch :: e.1 := by
    intro e mem
    exact ⟨(ready.placeable e mem).not_prefix_staged ready.dot file,
      by simpa using (differ e mem).symm⟩
  rcases placed.elsewhere off with same | ⟨-, way⟩
  · exact same
  · exact absurd way other.off_way.2

/-- Settling the rest changes nothing about the first artifact. -/
theorem Placed.kept_first {t₀ : FileTree} (placed : p.Placed d scratch nspace t t' items installed)
    (ready : p.Ready d scratch nspace t₀ (e :: items)) :
    t'.entries.get? (d ++ e.1) = t.entries.get? (d ++ e.1) := by
  have here := ready.placeable e List.mem_cons_self
  have off : ∀ k ∈ items, ¬ k.1 <+: e.1 ∧ e.1 ≠ scratch :: k.1 := by
    intro k mem
    have there := ready.placeable k (List.mem_cons_of_mem _ mem)
    exact ⟨there.not_prefix here (ready.fresh k mem).symm, here.ne_staged there⟩
  rcases placed.elsewhere off with same | ⟨-, way⟩
  · exact same
  · exact absurd way here.off_way.1

theorem Placed.cons_installed {t'' : FileTree} {content : Bytes}
    (ready : p.Ready d scratch nspace t (e :: items)) (free : t.FreeWay d nspace.segments)
    (replaced : Replaced d scratch nspace e.1 content t t')
    (placed : p.Placed d scratch nspace t' t'' items installed)
    (staged : t.entries.get? (d ++ scratch :: e.1) = some (.file content))
    (old : p.upToDate t (p.destination ++ e.1) e.2 = false) :
    p.Placed d scratch nspace t t'' (e :: items) ((p.destination ++ e.1) :: installed) where
  free := placed.free
  directory := placed.directory
  settled e' mem := by
    rcases List.mem_cons.mp mem with rfl | mem
    · refine ⟨t, ready.free.toRoot, rfl, .inl ⟨old, List.mem_cons_self, ?_⟩⟩
      rw [placed.kept_first ready, replaced.moved, staged]
    · obtain ⟨same, same_staged⟩ := ready.replaced_others replaced e' mem
      obtain ⟨u, root_u, same_u, ended⟩ := placed.settled e' mem
      refine ⟨u, root_u, same_u.trans same, ?_⟩
      rcases ended with ⟨stale, installed, ended⟩ | ⟨fresh, not_installed, ended⟩
      · exact .inl ⟨stale, List.mem_cons_of_mem _ installed, ended.trans same_staged⟩
      · refine .inr ⟨fresh, fun listed => ?_, ended.trans same⟩
        rcases List.mem_cons.mp listed with clash | listed
        · exact ready.fresh e' mem (List.append_cancel_left clash)
        · exact not_installed listed
  installed_mem l listed := by
    rcases List.mem_cons.mp listed with rfl | listed
    · exact ⟨e, List.mem_cons_self, rfl⟩
    · obtain ⟨e', mem, here⟩ := placed.installed_mem l listed
      exact ⟨e', List.mem_cons_of_mem _ mem, here⟩
  others l off := by
    obtain ⟨outside, not_staged⟩ := off e List.mem_cons_self
    have later := placed.others l fun e' mem => off e' (List.mem_cons_of_mem _ mem)
    by_cases on_way : ∃ r, r ≠ [] ∧ r <+: nspace.segments ∧ l = d ++ r
    · obtain ⟨r, nonempty, way, rfl⟩ := on_way
      have there := replaced.way r nonempty way
      have still : t''.entries.get? (d ++ r) = some .directory := by
        rcases later with same | ⟨-, found, -⟩
        · rw [same, there]
        · exact found
      rcases free r nonempty way with absent | directory
      · exact .inr ⟨absent, still, r, nonempty, way, rfl⟩
      · exact .inl (still.trans directory.symm)
    · have unchanged := replaced.others l outside not_staged fun r nonempty way here =>
        on_way ⟨r, nonempty, way, here⟩
      rw [unchanged] at later
      exact later

theorem Placed.cons_unchanged (ready : p.Ready d scratch nspace t (e :: items))
    (placed : p.Placed d scratch nspace t t' items installed)
    (fresh : p.upToDate t (p.destination ++ e.1) e.2 = true) :
    p.Placed d scratch nspace t t' (e :: items) installed where
  free := placed.free
  directory := placed.directory
  settled e' mem := by
    rcases List.mem_cons.mp mem with rfl | mem
    · refine ⟨t, ready.free.toRoot, rfl, .inr ⟨fresh, fun listed => ?_, ?_⟩⟩
      · obtain ⟨k, hk, clash⟩ := placed.installed_mem _ listed
        exact ready.fresh k hk (List.append_cancel_left clash).symm
      · exact placed.kept_first ready
    · exact placed.settled e' mem
  installed_mem l listed := by
    obtain ⟨e', mem, here⟩ := placed.installed_mem l listed
    exact ⟨e', List.mem_cons_of_mem _ mem, here⟩
  others l off := placed.others l fun e' mem => off e' (List.mem_cons_of_mem _ mem)

theorem placeAll_cons_of_ok {placed : Bool} {r : List Location × List Location} {t₁ : FileTree}
    (one : p.placeOne e.1 e.2 t = .ok placed t₁) (all : p.placeAll items t₁ = .ok r t') :
    p.placeAll (e :: items) t =
      .ok (if placed then ((p.destination ++ e.1) :: r.1, r.2)
        else (r.1, (p.destination ++ e.1) :: r.2)) t' := by
  rw [placeAll, DiskAction.bind_of_ok one, DiskAction.bind_of_ok all]
  rfl

theorem placeAll_cons_of_error {placed : Bool} {error : DiskError} {t₁ : FileTree}
    (one : p.placeOne e.1 e.2 t = .ok placed t₁) (all : p.placeAll items t₁ = .error error t') :
    p.placeAll (e :: items) t = .error error t' := by
  rw [placeAll, DiskAction.bind_of_ok one, DiskAction.bind_of_error all]

/-- Placing comes to an end and settles every artifact, or a file is in the way of the namespace's
directory. -/
theorem Ready.placeAll_ends (ready : p.Ready d scratch nspace t items) :
    (∃ r t', p.placeAll items t = .ok r t' ∧ p.Placed d scratch nspace t t' items r.1) ∨
      (¬ t.FreeWay d nspace.segments ∧ ∃ error t', p.placeAll items t = .error error t') := by
  induction items generalizing t with
  | nil =>
    exact .inl ⟨([], []), t, rfl, ready.free, ready.directory, by simp, by simp,
      fun l _ => .inl rfl⟩
  | cons e rest ih =>
    rcases ready.placeOne_cases with ⟨fresh, one⟩ |
      ⟨old, free, content, t₁, staged, one, replaced⟩ | ⟨-, blocked, one⟩
    · rcases ih ready.tail with ⟨r, t', all, placed⟩ | ⟨blocked, error, t', all⟩
      · exact .inl ⟨_, t', placeAll_cons_of_ok one all, placed.cons_unchanged ready fresh⟩
      · exact .inr ⟨blocked, error, t', placeAll_cons_of_error one all⟩
    · have free₁ : t₁.FreeWay d nspace.segments := fun r nonempty way =>
        .inr (replaced.way r nonempty way)
      rcases ih (ready.after replaced) with ⟨r, t', all, placed⟩ | ⟨blocked, -⟩
      · exact .inl ⟨_, t', placeAll_cons_of_ok one all,
          placed.cons_installed ready free replaced staged old⟩
      · exact absurd free₁ blocked
    · refine .inr ⟨blocked, ⟨p.destination ++ nspace.segments⟩, t, ?_⟩
      rw [placeAll]
      exact DiskAction.bind_of_error one

end All

end Placing

end InstallPlan

end VirtualModules
