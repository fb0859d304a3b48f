import VirtualModules.Proofs.Stages

/-!
# Tidy destinations

A destination is `Tidy` if below it stand only the directories of the namespace, files directly in
the namespace, and the stored report; `TidyBeside` leaves out a scratch directory. A tidy
destination is free of links (`Tidy.linkFree`), and sweeping it always comes to an end
(`TidyBeside.sweep_ok`).
-/

namespace VirtualModules

open FileTree

/-! ## Tidy destinations -/

/-- What may stand below a destination, and where. -/
inductive Allowed (nspace : ImportPath) (destination : Location) : Location → Entry → Prop
  | directory {q : Location} : q <+: nspace.segments → Allowed nspace destination q .directory
  | file {name : String} {content : Bytes} : Plain (nspace.segments ++ [name]) →
      Short destination (nspace.segments ++ [name]) →
      Allowed nspace destination (nspace.segments ++ [name]) (.file content)
  | report {content : Bytes} : Allowed nspace destination [reportFile] (.file content)

/-- Everything below the destination is allowed there, but for what is below a scratch
directory. -/
structure TidyBeside (nspace : ImportPath) (destination d : Location) (scratch : String)
    (t : FileTree) : Prop where
  root : t.Root destination d
  below : ∀ q entry, q ≠ [] → ¬ [scratch] <+: q → t.entries.get? (d ++ q) = some entry →
    Allowed nspace destination q entry

/-- Everything below the destination is allowed there. -/
structure Tidy (nspace : ImportPath) (destination d : Location) (t : FileTree) : Prop where
  root : t.Root destination d
  below : ∀ q entry, q ≠ [] → t.entries.get? (d ++ q) = some entry →
    Allowed nspace destination q entry

section Allowed

variable {nspace : ImportPath} {destination q : Location} {entry : Entry}

theorem Allowed.of_segments (allowed : Allowed nspace destination q entry)
    (way : q <+: nspace.segments) (nonempty : q ≠ []) : entry = .directory := by
  cases allowed with
  | directory => rfl
  | file => exact absurd way (not_prefix_concat _ _)
  | report =>
    have off_way : ¬ [reportFile] <+: nspace.segments ++ [] := head_ne_of_dot (by decide) []
    exact absurd (by simpa using way) off_way

theorem Allowed.of_concat {name : String}
    (allowed : Allowed nspace destination (nspace.segments ++ [name]) entry) :
    ∃ content, entry = .file content ∧ Plain (nspace.segments ++ [name]) ∧
      Short destination (nspace.segments ++ [name]) := by
  generalize here : nspace.segments ++ [name] = q at allowed
  cases allowed with
  | directory way =>
    rw [← here] at way
    exact absurd way (not_prefix_concat _ name)
  | file plain short => exact ⟨_, rfl, plain, short⟩
  | report => exact absurd here.symm (nspace.singleton_ne_segments_append _ (by simp))

/-- What is allowed below the directory of the namespace lies directly in it. -/
theorem Allowed.below_segments {names : Location}
    (allowed : Allowed nspace destination (nspace.segments ++ names) entry)
    (nonempty : names ≠ []) : ∃ name, names = [name] := by
  generalize here : nspace.segments ++ names = q at allowed
  cases allowed with
  | directory way =>
    rw [← here] at way
    have lengths := way.length_le
    have positive := List.length_pos_iff.mpr nonempty
    simp only [List.length_append] at lengths
    omega
  | file => exact ⟨_, List.append_cancel_left here⟩
  | report => exact absurd here.symm (nspace.singleton_ne_segments_append _ nonempty)

end Allowed

/-- In the place of a file of the namespace there is no more than a file. -/
theorem Tidy.atMostFile {t : FileTree} {nspace : ImportPath} {destination d : Location}
    (tidy : Tidy nspace destination d t) (name : String) :
    t.AtMostFile (d ++ (nspace.segments ++ [name])) := by
  cases entry : t.entries.get? (d ++ (nspace.segments ++ [name])) with
  | none => exact .inl entry
  | some found =>
    obtain ⟨content, rfl, -⟩ := (tidy.below _ _ (by simp) entry).of_concat
    exact .inr ⟨content, entry⟩

/-! ## Sweeping -/

section Tidy

variable {nspace : ImportPath} {destination d : Location} {scratch : String} {t : FileTree}

theorem TidyBeside.below_segments (tidy : TidyBeside nspace destination d scratch t)
    (dot : '.' ∈ scratch.toList) {names : Location} {entry : Entry}
    (mem : (names, entry) ∈ t.below (d ++ nspace.segments)) :
    ∃ name content, (names, entry) = ([name], .file content) ∧
      Plain (nspace.segments ++ [name]) ∧ Short destination (nspace.segments ++ [name]) ∧
      t.entries.get? (d ++ (nspace.segments ++ [name])) = some (.file content) := by
  obtain ⟨nonempty, found⟩ := mem_below_iff.mp mem
  rw [List.append_assoc] at found
  have allowed := tidy.below _ _ (by simp [nonempty]) (head_ne_of_dot dot names) found
  obtain ⟨name, rfl⟩ := allowed.below_segments nonempty
  obtain ⟨content, rfl, plain, short⟩ := allowed.of_concat
  exact ⟨name, content, rfl, plain, short, found⟩

theorem Allowed.plain {q : Location} {entry : Entry}
    (allowed : Allowed nspace destination q entry) : Plain q := by
  cases allowed with
  | directory way =>
    obtain ⟨rest, whole⟩ := way
    exact (whole ▸ plain_segments nspace).of_append
  | file plain => exact plain
  | report => exact plain_reportFile

theorem Tidy.linkFree (tidy : Tidy nspace destination d t) : t.LinkFree destination d where
  toRoot := tidy.root
  named q entry found := by
    by_cases self : q = []
    · subst self
      simp [Plain]
    · exact (tidy.below q entry self found).plain

end Tidy

/-- Sweeping a tidy namespace always comes to an end. -/
theorem TidyBeside.sweep_ok {p : InstallPlan} {nspace : ImportPath} {d : Location}
    {scratch : String} {t : FileTree} (tidy : TidyBeside nspace p.destination d scratch t)
    (dot : '.' ∈ scratch.toList) (kept : List Location) :
    ∃ removed t', p.sweep kept nspace t = .ok removed t' ∧
      p.Swept d nspace kept (InstallPlan.sweepList t (p.destination ++ nspace.segments)) t t' := by
  have below : ∀ item ∈ InstallPlan.sweepList t (p.destination ++ nspace.segments),
      InstallPlan.Listed d nspace t item ∧ p.Within nspace kept item := by
    rintro ⟨names, entry⟩ mem
    rcases InstallPlan.sweepList_cases tidy.root nspace with ⟨-, list⟩ | ⟨-, list⟩
    · rw [list, List.mem_reverse] at mem
      obtain ⟨name, content, same, plain, short, found⟩ := tidy.below_segments dot mem
      cases same
      exact ⟨⟨by simp, plain, found⟩, .inr short⟩
    · rw [list] at mem
      cases mem
  rcases InstallPlan.sweepAll_ends kept tidy.root (fun item mem => (below item mem).1)
      (InstallPlan.contentFirst_sweepList tidy.root nspace).nodup with
    ⟨removed, t', all, swept, -⟩ | ⟨item, -, long, -⟩
  · refine ⟨removed.mergeSort fun a b => a ≤ b, t', ?_, swept⟩
    unfold InstallPlan.sweep namespaceDirectory
    rw [DiskAction.get_bind, DiskAction.bind_of_ok all]
    rfl
  · obtain ⟨mem, outside⟩ := InstallPlan.of_firstLong long
    exact absurd (below item mem).2 outside

end VirtualModules
