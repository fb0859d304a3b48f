import VirtualModules.Proofs.IncrementalPasses

/-!
# Artifacts of modules that fail

A module that fails has no artifact in a pass, so what stands in its place is swept like everything
else: it is kept if it states a summary of a known module (`PassStages.keeps_stored`). The artifact
of a module that was not installed states none.

* `kept_iff_of_failed`: the file of a module that fails is kept exactly if it holds an artifact from
  when the module was installed.
* `childless_not_kept`: a module that was not installed and fails once it is loses its artifact.
-/

namespace VirtualModules

open FileTree

variable {g : Generator} {t t' : FileTree} {destination d : Location} {s : Snapshot}
  {outcome : PassOutcome}

/-- A pass leaves a file alone that no artifact belongs to, if it states a summary of a module that
is known. -/
theorem PassStages.keeps_stored {scratch : String} {staging : Staging} {t₀ t₂ t₃ t₄ : FileTree}
    {known : ImportPath → Bool}
    (stages :
      PassStages g s destination d (.ofNames known) outcome scratch staging t t₀ t₂ t₃ t₄ t')
    {name text : String}
    (absent : latest g.settings.extension (g.settings.nspace.segments ++ [name]) (g.artifacts s) =
      none)
    (short : Short destination (g.settings.nspace.segments ++ [name]))
    (named : (fileName? (destination ++ (g.settings.nspace.segments ++ [name]))).bind extension? =
      some g.settings.extension)
    (before : t.entries.get? (d ++ (g.settings.nspace.segments ++ [name])) =
      some (.file (.ofText text)))
    (stored : (summaryOf? known text).isSome = true) :
    t'.entries.get? (d ++ (g.settings.nspace.segments ++ [name])) =
      some (.file (.ofText text)) := by
  have free₃ := stages.install.placed.free
  have placed : t₃.entries.get? (d ++ (g.settings.nspace.segments ++ [name])) =
      some (.file (.ofText text)) := by
    rw [stages.staged.placed_elsewhere stages.is_scratch stages.install.placed absent,
      ← stages.staged.get?_beside (head_ne_of_dot (dot_mem_of_isScratchName stages.is_scratch) _),
      ← stages.sameBelow_start.get?_append [name], before]
  have listed := InstallPlan.mem_sweepList_of_get? free₃.toRoot (by simp) short.of_append placed
  have plain := (InstallPlan.listed_of_mem_sweepList free₃ listed).plain
  obtain ⟨removed, all⟩ := stages.install.sweep
  have stays := InstallPlan.Swept.keeps_stored rfl free₃.toRoot
    (InstallPlan.contentFirst_sweepList free₃.toRoot _)
    (fun item mem => InstallPlan.listed_of_mem_sweepList free₃ mem) all listed nofun
    (by rwa [InstallPlan.stored?_of_text free₃.toRoot plain (by simp) short placed named])
  rwa [← stages.sameBelow_end.get?_append [name]]

/-- A module that fails leaves its file without an artifact, if no other module has this file. -/
theorem latest_of_failed {m : SourceModule} {e : ModelError} (failed : g.artifact s m = .error e)
    (alone : ∀ n ∈ s.moduleList,
      virtualPath g.settings.nspace n.path = virtualPath g.settings.nspace m.path → n = m) :
    latest g.settings.extension
      (artifactFile g.settings.extension (virtualPath g.settings.nspace m.path))
      (g.artifacts s) = none := by
  rw [Option.eq_none_iff_forall_ne_some]
  intro a found
  obtain ⟨mem_a, file⟩ := of_latest found
  obtain ⟨n, mem_n, found_a⟩ := mem_artifacts_iff.mp mem_a
  rw [virtualPath_of_artifact found_a] at file
  rw [alone n mem_n (artifactFile_child_inj file), failed] at found_a
  cases found_a

section Failed

variable {passes : List Snapshot} (starts : StartsEmpty t destination d)
  (built : ∀ r ∈ passes ++ [s], r.Built) (simple : g.settings.SimpleExtension)
  (within : g.policy.WithinLine) {m : SourceModule} {e : ModelError}
  (failed : g.artifact s m = .error e)
  (alone : ∀ n ∈ s.moduleList,
    virtualPath g.settings.nspace n.path = virtualPath g.settings.nspace m.path → n = m)
  {content : Bytes}
  (ended : g.runPass s destination (passResolver g.settings.extension s [])
    (g.chronicles destination t (passes.map g.ownPass)).tree = .ok outcome t')

include starts built simple within failed alone ended

/-- A file that is there after the pass holds an artifact from when the module was installed. -/
theorem installed_of_kept
    (kept : t'.read? (destination ++ artifactFile g.settings.extension
      (virtualPath g.settings.nspace m.path)) = some content) :
    ∃ r ∈ passes, ∃ n ∈ r.moduleList, n.path = m.path ∧ n.installed = true ∧
      ∃ a, g.artifact r n = .ok a ∧ content = .ofText a.content := by
  have last : s.Built := built s (by simp)
  have absent := latest_of_failed failed alone
  have texts := fromArtifacts_of_passes starts built ended
  have tidy' := (passResult_of_passes starts built ended).installed.tidy
  have tidy := (sound_passes g starts built).tidy
  rw [runPass_made _ _ _ tidy.root, passResolver_nil] at ended
  obtain ⟨scratch, staging, t₀, t₂, t₃, t₄, stages⟩ := stages_of_runPass tidy.linkFree ended
  have rest := stages.atRest tidy.linkFree (stages.staged.rereads simple within last _)
  obtain ⟨name, direct, plain, -⟩ :=
    exists_virtualFile simple destination g.settings.nspace m.path
  rw [direct] at absent kept
  obtain ⟨-, after⟩ := (tidy'.root.read?_eq_some_iff plain (by simp)).mp kept
  obtain ⟨r, mem_r, n, mem_n, a, found, file, text, installed, k, mem_k, same_path⟩ :=
    origin_of_absent simple within last tidy' texts stages.staged rest (by simp) absent after
  -- the last pass has no artifact in this file
  have earlier : r ∈ passes := by
    rcases List.mem_append.mp mem_r with earlier | mem_last
    · exact earlier
    · rw [List.mem_singleton.mp mem_last] at mem_n found
      obtain ⟨b, other⟩ := latest_of_mem g.settings.extension
        (mem_artifacts_iff.mpr ⟨n, mem_n, found⟩)
      rw [file, absent] at other
      cases other
  rw [virtualPath_of_artifact found, ← direct] at file
  have same : k = m := alone k mem_k (same_path ▸ artifactFile_child_inj file)
  cases text
  exact ⟨r, earlier, n, mem_n, by rw [← same_path, same], installed, a, found, rfl⟩

/-- An artifact from when the module was installed stays in the file. -/
theorem kept_of_installed (mem : m ∈ s.moduleList)
    (there : (g.chronicles destination t (passes.map g.ownPass)).tree.read?
      (destination ++ artifactFile g.settings.extension
        (virtualPath g.settings.nspace m.path)) = some content)
    {r : Snapshot} {n : SourceModule} {a : Artifact} (same_path : n.path = m.path)
    (installed : n.installed = true) (found : g.artifact r n = .ok a)
    (text : content = .ofText a.content) :
    t'.read? (destination ++ artifactFile g.settings.extension
      (virtualPath g.settings.nspace m.path)) = some content := by
  have last : s.Built := built s (by simp)
  have absent := latest_of_failed failed alone
  have root' := (passResult_of_passes starts built ended).installed.tidy.root
  have tidy := (sound_passes g starts built).tidy
  rw [makeDirectories_of_read? there] at tidy
  rw [passResolver_nil] at ended
  obtain ⟨scratch, staging, t₀, t₂, t₃, t₄, stages⟩ := stages_of_runPass tidy.linkFree ended
  obtain ⟨name, direct, plain, named⟩ :=
    exists_virtualFile simple destination g.settings.nspace m.path
  rw [direct] at absent there ⊢
  obtain ⟨short, before⟩ := (tidy.root.read?_eq_some_iff plain (by simp)).mp there
  have stored : (summaryOf? s.knows a.content).isSome = true := by
    rw [summaryOf?_artifact_eq within found,
      if_pos (last.knows_iff.mpr ⟨m, mem, same_path.symm⟩), isSome_summary_of_artifact found,
      installed]
  subst text
  exact (root'.read?_eq_some_iff plain (by simp)).mpr
    ⟨short, stages.keeps_stored absent short named before stored⟩

end Failed

/-- After any passes into a destination that was empty at first, a file of a module that fails in
the last pass is kept exactly if it holds the artifact of the module from a pass in which the module
was installed. -/
theorem kept_iff_of_failed {passes : List Snapshot} (starts : StartsEmpty t destination d)
    (built : ∀ r ∈ passes ++ [s], r.Built) (simple : g.settings.SimpleExtension)
    (within : g.policy.WithinLine) {m : SourceModule} (mem : m ∈ s.moduleList) {e : ModelError}
    (failed : g.artifact s m = .error e)
    (alone : ∀ n ∈ s.moduleList,
      virtualPath g.settings.nspace n.path = virtualPath g.settings.nspace m.path → n = m)
    {content : Bytes}
    (there : (g.chronicles destination t (passes.map g.ownPass)).tree.read?
      (destination ++ artifactFile g.settings.extension
        (virtualPath g.settings.nspace m.path)) = some content)
    (ended : g.runPass s destination (passResolver g.settings.extension s [])
      (g.chronicles destination t (passes.map g.ownPass)).tree = .ok outcome t') :
    t'.read? (destination ++ artifactFile g.settings.extension
        (virtualPath g.settings.nspace m.path)) = some content ↔
      ∃ r ∈ passes, ∃ n ∈ r.moduleList, n.path = m.path ∧ n.installed = true ∧
        ∃ a, g.artifact r n = .ok a ∧ content = .ofText a.content :=
  ⟨installed_of_kept starts built simple within failed alone ended,
    fun ⟨_, _, _, _, same_path, installed, _, found, text⟩ =>
      kept_of_installed starts built simple within failed alone ended mem there same_path installed
        found text⟩

namespace Adoption

def missing : ImportPath := ⟨"gone.models.Missing", by decide⟩

/-- The two modules, where a model that is missing is to descend from the child. -/
def orphaned : Snapshot := (adoption first).withExplicit (.ofList [(child, [missing])])

theorem orphaned_built : orphaned.Built := by
  obtain ⟨apps, modules, base, table, built, same⟩ := adoption_built first (.inl rfl)
  exact ⟨apps, modules, base, some (.ofList [(child, [missing])]), built, by
    rw [orphaned, Snapshot.withExplicit, same]⟩

theorem artifact_orphaned :
    generator.artifact orphaned (childModuleOf first true) = .error (.unknown missing) := rfl

theorem moduleList_orphaned :
    orphaned.moduleList = [parentModule, childModuleOf first true] := rfl

theorem childModule_mem_orphaned : childModuleOf first true ∈ orphaned.moduleList := by
  simp [moduleList_orphaned]

theorem twoModules_orphaned : TwoModules orphaned := .of_moduleList moduleList_orphaned rfl

theorem alone_orphaned : ∀ n ∈ orphaned.moduleList,
    virtualPath generator.settings.nspace n.path =
        virtualPath generator.settings.nspace (childModuleOf first true).path →
      n = childModuleOf first true := by
  intro n mem same
  have path : n.path = childModule :=
    twoModules_orphaned.distinct _ _ ⟨n, mem, rfl⟩ ⟨_, childModule_mem_orphaned, rfl⟩ same
  rw [moduleList_orphaned, List.mem_cons, List.mem_singleton] at mem
  rcases mem with rfl | rfl
  · exact absurd path (by decide)
  · rfl

/-- The file of the child's module, named as that of a module with its path. -/
def childFile : Location :=
  artifactFile generator.settings.extension
    (virtualPath generator.settings.nspace (childModuleOf first true).path)

/-- A pass that writes the artifact of the child's module, and one in which this module fails. -/
theorem orphaned_second {s₁ : Snapshot} (built : s₁.Built) (two : TwoModules s₁) {m : SourceModule}
    {a : Artifact} (mem : m ∈ s₁.moduleList) (found : generator.artifact s₁ m = .ok a)
    (here : m.path = (childModuleOf first true).path) :
    (generator.chronicles ["out"] ∅ ([s₁].map generator.ownPass)).tree.read?
        (["out"] ++ childFile) = some (.ofText a.content) ∧
      ∃ outcome t', generator.runPass orphaned ["out"]
        (passResolver generator.settings.extension orphaned [])
        (generator.chronicles ["out"] ∅ ([s₁].map generator.ownPass)).tree = .ok outcome t' := by
  have top := built.latest_eq two.distinct (mem_artifacts_iff.mpr ⟨m, mem, found⟩)
  rw [virtualPath_of_artifact found, here] at top
  have built_all : ∀ r ∈ [s₁] ++ [orphaned], r.Built := by
    simpa using ⟨built, orphaned_built⟩
  obtain ⟨outcome, t', ended, -⟩ := runPass_of_allShort
    (passResolver generator.settings.extension orphaned [])
    (sound_passes generator startsEmpty built_all) orphaned_built
    (twoModules_orphaned.allShort rfl)
  exact ⟨read?_first _ startsEmpty built (two.allShort rfl) top, outcome, t', ended⟩

/-- The artifact from when the child's module was installed stays. -/
theorem adoption_kept :
    (StartsEmpty ∅ ["out"] ["out"] ∧ (adoption first).Built ∧ orphaned.Built) ∧
    (childModuleOf first true ∈ orphaned.moduleList ∧
      generator.artifact orphaned (childModuleOf first true) = .error (.unknown missing)) ∧
    ∃ a, generator.artifact (adoption first) (childModuleOf first true) = .ok a ∧
      (generator.chronicles ["out"] ∅ ([adoption first].map generator.ownPass)).tree.read?
        (["out"] ++ childFile) = some (.ofText a.content) ∧
      ∃ outcome t', generator.runPass orphaned ["out"]
          (passResolver generator.settings.extension orphaned [])
          (generator.chronicles ["out"] ∅ ([adoption first].map generator.ownPass)).tree =
            .ok outcome t' ∧
        t'.read? (["out"] ++ childFile) = some (.ofText a.content) := by
  have mem : childModuleOf first true ∈ (adoption first).moduleList := by
    simp [moduleList_adoption (.inl rfl)]
  have table : concreteTable (adoption first) (childModuleOf first true) =
      .ok (.ofList [(child, [childOf first])]) := rfl
  have found := artifact_of_concreteTable (g := generator) rfl table
  have built := adoption_built first (.inl rfl)
  have built_all : ∀ r ∈ [adoption first] ++ [orphaned], r.Built := by
    simpa using ⟨built, orphaned_built⟩
  obtain ⟨there, outcome, t', ended⟩ :=
    orphaned_second built (twoModules_adoption (.inl rfl)) mem found rfl
  refine ⟨⟨startsEmpty, built, orphaned_built⟩, ⟨childModule_mem_orphaned, artifact_orphaned⟩, _,
    found, there, outcome, t', ended, ?_⟩
  exact (kept_iff_of_failed startsEmpty built_all (by decide) MarkerPolicy.withinLine_content
    childModule_mem_orphaned artifact_orphaned alone_orphaned there ended).mpr
    ⟨adoption first, List.mem_singleton_self _, _, mem, rfl, rfl, _, found, rfl⟩

/-- The artifact from when the child's module was not installed goes, though the module is part of
the snapshot and only failed. -/
theorem childless_not_kept :
    (StartsEmpty ∅ ["out"] ["out"] ∧ childless.Built ∧ orphaned.Built) ∧
    (childModuleOf first true ∈ orphaned.moduleList ∧
      generator.artifact orphaned (childModuleOf first true) = .error (.unknown missing)) ∧
    ∃ content outcome t',
      (generator.chronicles ["out"] ∅ ([childless].map generator.ownPass)).tree.read?
        (["out"] ++ childFile) = some content ∧
      generator.runPass orphaned ["out"]
          (passResolver generator.settings.extension orphaned [])
          (generator.chronicles ["out"] ∅ ([childless].map generator.ownPass)).tree =
            .ok outcome t' ∧
        t'.read? (["out"] ++ childFile) ≠ some content := by
  have mem : SourceModule.new childModule false ∈ childless.moduleList := by
    simp [moduleList_childless]
  have found := artifact_of_uninstalled generator childless
    (show (SourceModule.new childModule false).installed = false from rfl)
  have built_all : ∀ r ∈ [childless] ++ [orphaned], r.Built := by
    simpa using ⟨childless_built, orphaned_built⟩
  obtain ⟨there, outcome, t', ended⟩ :=
    orphaned_second childless_built twoModules_childless mem found rfl
  refine ⟨⟨startsEmpty, childless_built, orphaned_built⟩,
    ⟨childModule_mem_orphaned, artifact_orphaned⟩, _, outcome, t', there, ended, fun kept => ?_⟩
  obtain ⟨r, mem_r, n, mem_n, path, installed, -⟩ :=
    installed_of_kept startsEmpty built_all (by decide) MarkerPolicy.withinLine_content
      artifact_orphaned alone_orphaned ended kept
  rw [List.mem_singleton.mp mem_r, moduleList_childless, List.mem_cons, List.mem_singleton]
    at mem_n
  rcases mem_n with rfl | rfl
  · exact absurd path (by decide)
  · cases installed

end Adoption

end VirtualModules
