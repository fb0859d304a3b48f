import VirtualModules.Proofs.ArtifactLines
import VirtualModules.Proofs.Stages

/-!
# Reading placed artifacts again

Whether something is up to date depends on what stands in its place alone, if modules are known by
their names (`upToDate_congr`). The file of an artifact has the extension of the settings
(`extension?_artifactFile`), and its text states the summary that the artifact was staged with. So
what a pass moves to its place is up to date from then on (`Staged.rereads`, `Rereads.upToDate`).
-/

namespace VirtualModules

open FileTree

/-! ## Extensions -/

/-- The extension is not empty and holds no dot, so it is what follows the last dot of a name that
ends in it. -/
def Settings.SimpleExtension (settings : Settings) : Prop :=
  settings.extension ≠ "" ∧ '.' ∉ settings.extension.toList

instance (settings : Settings) : Decidable settings.SimpleExtension :=
  inferInstanceAs (Decidable (_ ∧ _))

theorem extension?_withExtension (i : Identifier) {settings : Settings}
    (simple : settings.SimpleExtension) :
    extension? (withExtension i.text settings.extension) = some settings.extension := by
  obtain ⟨nonempty, no_dot⟩ := simple
  have name : (withExtension i.text settings.extension).toList =
      i.chars ++ '.' :: settings.extension.toList := by
    rw [withExtension_text, if_neg nonempty]
    simp [Identifier.text]
  have pieces : (withExtension i.text settings.extension).toList.splitOn '.' =
      [i.chars, settings.extension.toList] := by
    rw [name, List.splitOn_append_cons_self_of_not_mem (dot_not_mem_identifier i.valid),
      List.splitOn_eq_singleton no_dot]
  have starts : i.chars ≠ [] := by
    obtain ⟨c, rest, same, -⟩ := start_of_identifier i.valid
    simp [same]
  simp [extension?, pieces, starts]

/-- The file of a virtual module has the extension of the settings, wherever it is. -/
theorem extension?_child {settings : Settings} (simple : settings.SimpleExtension)
    (destination : Location) (nspace : ImportPath) (i : Identifier) :
    (fileName? (destination ++ artifactFile settings.extension (nspace.child i))).bind extension? =
      some settings.extension := by
  rw [artifactFile_child, fileName?_append_plain destination (plain_withExtension i _),
    Option.bind_some, extension?_withExtension i simple]

/-- A module has a file directly in the namespace, with the extension of the settings. -/
theorem exists_virtualFile {settings : Settings} (simple : settings.SimpleExtension)
    (destination : Location) (nspace p : ImportPath) :
    ∃ name, artifactFile settings.extension (virtualPath nspace p) = nspace.segments ++ [name] ∧
      Plain (nspace.segments ++ [name]) ∧
      (fileName? (destination ++ (nspace.segments ++ [name]))).bind extension? =
        some settings.extension := by
  refine ⟨_, artifactFile_child settings.extension nspace _, ?_, ?_⟩
  · rw [← artifactFile_child]
    exact plain_artifactFile settings.extension _
  · rw [← artifactFile_child]
    exact extension?_child simple destination nspace _

theorem extension?_artifactFile {settings : Settings} (simple : settings.SimpleExtension)
    (destination : Location) {nspace : ImportPath} {a : Artifact} (lies : a.LiesIn nspace) :
    (fileName? (destination ++ artifactFile settings.extension a.virtualPath)).bind extension? =
      some settings.extension := by
  obtain ⟨i, here⟩ := lies
  rw [here]
  exact extension?_child simple destination nspace i

/-! ## What is up to date -/

namespace InstallPlan

variable {p : InstallPlan} {d q : Location} {t u : FileTree} {known : ImportPath → Bool}

section Text

variable {text : String} (root : u.Root p.destination d) (plain : Plain q) (nonempty : q ≠ [])
  (short : Short p.destination q) (file : u.entries.get? (d ++ q) = some (.file (.ofText text)))
  (named : (fileName? (p.destination ++ q)).bind extension? = some p.extension)

include root plain nonempty short file named

/-- The text of a file tells which summary is stored there. -/
theorem stored?_of_text :
    p.stored? u (p.destination ++ q) = summaryOf? (p.resolver u) text := by
  have read := (root.read?_eq_some_iff plain nonempty).mpr ⟨short, file⟩
  exact storedSummary?_of_text _ read named

/-- And so it tells whether the file is up to date. -/
theorem upToDate_of_text (summary : Option String) :
    p.upToDate u (p.destination ++ q) summary = (summaryOf? (p.resolver u) text == summary) := by
  have there : u.present (p.destination ++ q) = true :=
    (root.present_iff plain nonempty).mpr ⟨short, by rw [file]; rfl⟩
  rw [InstallPlan.upToDate, there, Bool.true_and,
    stored?_of_text root plain nonempty short file named]

end Text

/-- If modules are known by their names alone, what stands in a place tells whether it is up to
date. -/
theorem upToDate_congr (by_name : p.resolver = .ofNames known) (root : t.Root p.destination d)
    (root_u : u.Root p.destination d) (plain : Plain q) (nonempty : q ≠ [])
    (same : t.entries.get? (d ++ q) = u.entries.get? (d ++ q)) (summary : Option String) :
    p.upToDate t (p.destination ++ q) summary = p.upToDate u (p.destination ++ q) summary := by
  simp only [upToDate, root.present_congr root_u plain nonempty same,
    stored?_congr by_name root root_u plain nonempty same]

/-- A staged artifact that will be up to date once it is in its place. -/
structure Rereads (p : InstallPlan) (d : Location) (scratch : String) (known : ImportPath → Bool)
    (t : FileTree) (e : Location × Option String) : Prop where
  states : ∃ text, t.entries.get? (d ++ scratch :: e.1) = some (.file (.ofText text)) ∧
    summaryOf? known text = e.2
  named : (fileName? (p.destination ++ e.1)).bind extension? = some p.extension

theorem Rereads.upToDate {scratch : String} {e : Location × Option String}
    (rereads : p.Rereads d scratch known t e) (by_name : p.resolver = .ofNames known)
    (root : u.Root p.destination d) (plain : Plain e.1) (nonempty : e.1 ≠ [])
    (short : Short p.destination e.1)
    (moved : u.entries.get? (d ++ e.1) = t.entries.get? (d ++ scratch :: e.1)) :
    p.upToDate u (p.destination ++ e.1) e.2 = true := by
  obtain ⟨text, staged, stated⟩ := rereads.states
  rw [upToDate_of_text root plain nonempty short (moved.trans staged) rereads.named, by_name]
  simp [Resolver.ofNames, stated]

end InstallPlan

/-! ## The artifacts of a snapshot -/

/-- A module of the snapshot has this path. -/
def Snapshot.HasPath (s : Snapshot) (p : ImportPath) : Prop := ∃ m ∈ s.moduleList, m.path = p

/-- No two of some module paths have the same virtual module. -/
def VirtuallyDistinct (nspace : ImportPath) (paths : ImportPath → Prop) : Prop :=
  ∀ p q, paths p → paths q → virtualPath nspace p = virtualPath nspace q → p = q

/-- Modules with different virtual modules have artifacts in different files. -/
theorem Snapshot.Built.latest_eq {s : Snapshot} (built : s.Built) {g : Generator}
    (distinct : VirtuallyDistinct g.settings.nspace s.HasPath) {a : Artifact}
    (mem : a ∈ g.artifacts s) :
    latest g.settings.extension (artifactFile g.settings.extension a.virtualPath)
      (g.artifacts s) = some a := by
  obtain ⟨b, found⟩ := latest_of_mem g.settings.extension mem
  obtain ⟨mem_b, same_file⟩ := of_latest found
  obtain ⟨m, mem_m, found_a⟩ := mem_artifacts_iff.mp mem
  obtain ⟨n, mem_n, found_b⟩ := mem_artifacts_iff.mp mem_b
  obtain ⟨i, here⟩ := liesIn_of_mem_artifacts mem
  obtain ⟨j, there⟩ := liesIn_of_mem_artifacts mem_b
  rw [here, there] at same_file
  have same_virtual := artifactFile_child_inj same_file
  rw [← here, ← there, virtualPath_of_artifact found_a, virtualPath_of_artifact found_b]
    at same_virtual
  have paths := distinct _ _ ⟨n, mem_n, rfl⟩ ⟨m, mem_m, rfl⟩ same_virtual
  have module_m := built.consistent.mem_moduleList_iff.mp mem_m
  rw [← paths, built.consistent.mem_moduleList_iff.mp mem_n] at module_m
  cases module_m
  cases found_a.symm.trans found_b
  exact found

/-- The modules of a snapshot are known. -/
def Snapshot.knows (s : Snapshot) (p : ImportPath) : Bool :=
  decide (p ∈ SortedSet.ofList s.modules.keys)

/-- Without search paths a pass knows modules by their names alone. -/
theorem passResolver_nil (extension : String) (s : Snapshot) :
    passResolver extension s [] = .ofNames s.knows := rfl

theorem Snapshot.Built.knows_iff {s : Snapshot} (built : s.Built) {p : ImportPath} :
    s.knows p = true ↔ s.HasPath p := by
  rw [Snapshot.HasPath, Snapshot.knows, decide_eq_true_eq, SortedSet.mem_ofList,
    ← Table.contains_iff_mem_keys, Table.contains, Option.isSome_iff_exists]
  constructor
  · rintro ⟨m, found⟩
    have here := built.consistent.module_path found
    exact ⟨m, built.consistent.mem_moduleList_iff.mpr (here.symm ▸ found), here⟩
  · rintro ⟨m, mem, rfl⟩
    exact ⟨m, built.consistent.mem_moduleList_iff.mp mem⟩

/-- An artifact of a snapshot reads as what it was built with. -/
theorem Snapshot.Built.rereads {s : Snapshot} (built : s.Built) {g : Generator}
    (within : g.policy.WithinLine) {a : Artifact} (mem : a ∈ g.artifacts s) :
    summaryOf? s.knows a.content = a.summary := by
  obtain ⟨m, mem_m, found⟩ := mem_artifacts_iff.mp mem
  exact summaryOf?_artifact within found (built.knows_iff.mpr ⟨m, mem_m, rfl⟩)

/-- All that a pass has staged will be up to date once it is in its place. -/
theorem Staged.rereads {g : Generator} {s : Snapshot} {base t : FileTree}
    {destination d : Location} {scratch : String} {staging : Staging}
    (staged : Staged base destination d scratch g.settings.extension g.settings.nspace
      (g.artifacts s) staging t)
    (simple : g.settings.SimpleExtension) (within : g.policy.WithinLine) (built : s.Built)
    (resolver : Resolver) :
    ∀ e ∈ staging.summaries.entries,
      (passPlan g.settings destination scratch resolver).Rereads d scratch s.knows t e := by
  intro e mem
  obtain ⟨a, found, summary⟩ := staged.mem_summaries_iff.mp mem
  obtain ⟨mem_a, here⟩ := of_latest found
  have lies := liesIn_of_mem_artifacts mem_a
  obtain ⟨name, direct, -⟩ := lies.file g.settings.extension
  refine ⟨⟨a.content, ?_, ?_⟩, ?_⟩
  · rw [staged.content e.1 (by simp [← here, direct]), found]
  · rw [built.rereads within mem_a, summary]
  · rw [← here]
    exact extension?_artifactFile simple destination lies

end VirtualModules
