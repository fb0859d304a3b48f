import VirtualModules.Proofs.Passes
import VirtualModules.Proofs.Rereading
import VirtualModules.Proofs.UninstalledModules

/-!
# What a pass makes of the places of its artifacts

Whatever stands in the place of an artifact, a pass puts the artifact there or finds the place up to
date and leaves it as it is (`PassStages.fileSettled`). `Healed` asks that there is a file then,
with the text of the artifact or one that was there before and carries the artifact's lines.

* `healed_iff`: the places that are healed are those that the pass installed and those that carried
  the lines already.
* `mem_installed_iff`: a place is installed exactly if it was not up to date.
* `junk_not_healed`: in the place of a module that is not installed, everything without a stamp
  counts as up to date, and junk stays there.
-/

namespace VirtualModules

open FileTree

/-! ## The lines that an artifact is recognised by -/

/-- A text with a line for the module and one for the summary, as artifacts have them. -/
def Carries (module : ImportPath) (summary : Option String) (text : String) : Prop :=
  (Facts.moduleLine module).toList ∈ textLines text.toList ∧
    (Facts.summaryLine summary).toList ∈ textLines text.toList

instance (module : ImportPath) (summary : Option String) (text : String) :
    Decidable (Carries module summary text) :=
  inferInstanceAs (Decidable (_ ∧ _))

section Artifact

variable {g : Generator} {s : Snapshot} {m : SourceModule} {a : Artifact}

theorem oneLine_summaryLine {v p : ImportPath} {state : SummaryState} :
    OneLine (Facts.summaryLine (Summary.mk v p state).text?) := by
  cases text : (Summary.mk v p state).text? with
  | none =>
    have line : OneLine (Facts.summaryLine none) := by decide
    exact line
  | some summary =>
    cases state with
    | notInstalled => cases text
    | installed apps significant =>
      have stated := unbroken_summary text
      exact ((Unbroken.append (by decide) stated).append (by decide)).oneLine

/-- Every artifact carries its own lines, whatever its marker is. -/
theorem carries_artifact (h : g.artifact s m = .ok a) : Carries m.path a.summary a.content := by
  obtain ⟨f, gathered, rfl⟩ := artifact_ok h
  have module : f.summary.modulePath = m.path := by
    cases installed : m.installed with
    | true =>
      obtain ⟨table, -, rfl⟩ := gather_installed installed gathered
      rfl
    | false =>
      rw [gather_uninstalled _ _ installed] at gathered
      cases gathered
      rfl
  have lines : Facts.moduleLine f.summary.modulePath ∈ f.lines g.settings.genericQueryset ∧
      Facts.summaryLine f.summary.text? ∈ f.lines g.settings.genericQueryset := by
    simp [Facts.lines, Facts.headLines]
  have carried : Carries f.summary.modulePath f.summary.text?
      (f.content g.settings.genericQueryset) :=
    ⟨mem_textLines_join_ended lines.1 (unbroken_moduleLine _).oneLine,
      mem_textLines_join_ended lines.2 oneLine_summaryLine⟩
  simpa only [← module, Artifact.render] using carried

end Artifact

/-! ## Every place is settled -/

section Pass

variable {t t' : FileTree} {destination d : Location} {g : Generator} {s : Snapshot}
  {resolver : Resolver} {outcome : PassOutcome}

/-- A pass installs an artifact over what is out of date in its place, or leaves the place as it
is. -/
theorem PassStages.fileSettled {scratch : String} {staging : Staging} {t₀ t₂ t₃ t₄ : FileTree}
    (stages : PassStages g s destination d resolver outcome scratch staging t t₀ t₂ t₃ t₄ t')
    {file : Location} {a : Artifact}
    (found : latest g.settings.extension file (g.artifacts s) = some a) :
    FileSettled g.settings destination d resolver t t' outcome.install.installed file a := by
  have mem := stages.staged.mem_summaries_iff.mpr ⟨a, found, rfl⟩
  obtain ⟨mem_a, rfl⟩ := of_latest found
  obtain ⟨name, direct, -⟩ := (liesIn_of_mem_artifacts mem_a).file g.settings.extension
  rw [direct] at mem found ⊢
  have start := stages.sameBelow_start.get?_append [name]
  have kept := stages.install.swept.keeps (List.mem_map.mpr
    ⟨_, List.mem_map.mpr ⟨_, mem, rfl⟩, rfl⟩)
  have ending := stages.sameBelow_end.get?_append [name]
  obtain ⟨u, root, same, ended⟩ := stages.install.placed.settled _ mem
  refine ⟨u, root, same.trans start.symm, ?_⟩
  rw [← ending, kept, start]
  rcases ended with ⟨stale, listed, moved⟩ | fresh
  · refine .inl ⟨stale, listed, moved.trans ?_⟩
    rw [stages.staged.content _ (by simp), found]
  · exact .inr fresh

/-! ## Healed places -/

/-- After a pass a file is in the place, with the text of the artifact, or with one that was there
before and carries the artifact's lines. -/
def Healed (module : ImportPath) (a : Artifact) (place : Location) (before after : FileTree) :
    Prop :=
  ∃ text, after.read? place = some (.ofText text) ∧
    (text = a.content ∨
      before.read? place = some (.ofText text) ∧ Carries module a.summary text)

/-- Where an artifact lies below a destination. -/
def Artifact.place (a : Artifact) (settings : Settings) (destination : Location) : Location :=
  destination ++ artifactFile settings.extension a.virtualPath

section File

variable {file : Location} {a : Artifact}
  (free : (t.makeDirectories destination).LinkFree destination d)
  (found : latest g.settings.extension file (g.artifacts s) = some a)
  (ended : g.runPass s destination resolver t = .ok outcome t')

include free found ended

/-- The file of an artifact can be read before and after the pass, which settles it. -/
theorem settled_latest :
    (t'.Root destination d ∧ Plain file ∧ file ≠ [] ∧ Short destination file) ∧
    FileSettled g.settings destination d resolver (t.makeDirectories destination) t'
      outcome.install.installed file a := by
  rw [runPass_made g s resolver free.toRoot] at ended
  obtain ⟨scratch, staging, t₀, t₂, t₃, t₄, stages⟩ := stages_of_runPass free ended
  obtain ⟨mem_a, rfl⟩ := of_latest found
  obtain ⟨name, direct, plain⟩ := (liesIn_of_mem_artifacts mem_a).file g.settings.extension
  have root₄ : t₄.Root destination d :=
    stages.install.swept.root stages.install.placed.free.toRoot
  refine ⟨⟨?_, direct ▸ plain, by simp [direct], (stages.staged.short a mem_a).of_cons⟩,
    stages.fileSettled found⟩
  exact (root₄.pruned (q := [scratch]) (by simp)).of_entered (by simp) stages.saved nofun

/-- What is in the file after the pass: the artifact if it was installed there, and what was there
before if not. -/
theorem read?_latest :
    t'.read? (destination ++ file) =
      if destination ++ file ∈ outcome.install.installed then some (.ofText a.content)
      else (t.makeDirectories destination).read? (destination ++ file) := by
  obtain ⟨⟨root', plain, nonempty, short⟩, u, -, -, settled⟩ := settled_latest free found ended
  rcases settled with ⟨-, listed, moved⟩ | ⟨-, unlisted, kept⟩
  · rw [if_pos listed]
    exact (root'.read?_eq_some_iff plain nonempty).mpr ⟨short, moved⟩
  · rw [if_neg unlisted]
    exact root'.read?_congr free.toRoot plain nonempty kept

end File

section Place

variable {m : SourceModule} {a : Artifact}
  (free : (t.makeDirectories destination).LinkFree destination d) (built : s.Built)
  (distinct : VirtuallyDistinct g.settings.nspace s.HasPath) (mem : m ∈ s.moduleList)
  (found : g.artifact s m = .ok a)
  (ended : g.runPass s destination resolver t = .ok outcome t')

include free built distinct mem found ended

/-- The place of an artifact can be read before and after the pass, which settles it. -/
theorem settled_place :
    (t'.Root destination d ∧
      Plain (artifactFile g.settings.extension a.virtualPath) ∧
      artifactFile g.settings.extension a.virtualPath ≠ [] ∧
      Short destination (artifactFile g.settings.extension a.virtualPath)) ∧
    FileSettled g.settings destination d resolver (t.makeDirectories destination) t'
      outcome.install.installed (artifactFile g.settings.extension a.virtualPath) a :=
  settled_latest free (built.latest_eq distinct (mem_artifacts_iff.mpr ⟨m, mem, found⟩)) ended

/-- What is in the place after the pass: the artifact if it was installed there, and what was there
before if not. -/
theorem read?_place :
    t'.read? (a.place g.settings destination) =
      if a.place g.settings destination ∈ outcome.install.installed then some (.ofText a.content)
      else (t.makeDirectories destination).read? (a.place g.settings destination) :=
  read?_latest free (built.latest_eq distinct (mem_artifacts_iff.mpr ⟨m, mem, found⟩)) ended

/-- A pass that goes through heals exactly the places that it lists as installed, and those that
held a text with the artifact's lines before. -/
theorem healed_iff :
    Healed m.path a (a.place g.settings destination) (t.makeDirectories destination) t' ↔
      a.place g.settings destination ∈ outcome.install.installed ∨
        ∃ text, (t.makeDirectories destination).read? (a.place g.settings destination) =
            some (.ofText text) ∧ Carries m.path a.summary text := by
  have after := read?_place free built distinct mem found ended
  unfold Healed
  by_cases listed : a.place g.settings destination ∈ outcome.install.installed
  · rw [if_pos listed] at after
    exact iff_of_true ⟨a.content, after, .inl rfl⟩ (.inl listed)
  · rw [if_neg listed] at after
    rw [after, or_iff_right listed]
    constructor
    · rintro ⟨text, there, rfl | ⟨-, carries⟩⟩
      · exact ⟨_, there, carries_artifact found⟩
      · exact ⟨text, there, carries⟩
    · rintro ⟨text, there, carries⟩
      exact ⟨text, there, .inr ⟨there, carries⟩⟩

/-- If modules are known by their names alone, a place is installed exactly if what stood there
before was out of date. -/
theorem mem_installed_iff {known : ImportPath → Bool} (by_name : resolver = .ofNames known) :
    a.place g.settings destination ∈ outcome.install.installed ↔
      (tidyPlan g.settings destination resolver).upToDate (t.makeDirectories destination)
        (a.place g.settings destination) a.summary = false := by
  obtain ⟨⟨-, plain, nonempty, -⟩, u, root, same, settled⟩ :=
    settled_place free built distinct mem found ended
  have answer : (tidyPlan g.settings destination resolver).upToDate u
      (a.place g.settings destination) a.summary =
      (tidyPlan g.settings destination resolver).upToDate (t.makeDirectories destination)
        (a.place g.settings destination) a.summary :=
    InstallPlan.upToDate_congr by_name root free.toRoot plain nonempty same a.summary
  rw [← answer]
  rcases settled with ⟨stale, listed, -⟩ | ⟨fresh, unlisted, -⟩
  · exact iff_of_true listed stale
  · exact iff_of_false unlisted (by rw [Artifact.place, fresh]; exact nofun)

/-- So a place with a text that states the summary of the artifact is not. -/
theorem not_mem_installed_of_text {known : ImportPath → Bool} (by_name : resolver = .ofNames known)
    (simple : g.settings.SimpleExtension) {text : String}
    (there : (t.makeDirectories destination).read? (a.place g.settings destination) =
      some (.ofText text)) (current : summaryOf? known text = a.summary) :
    a.place g.settings destination ∉ outcome.install.installed := by
  obtain ⟨⟨-, plain, nonempty, -⟩, -⟩ := settled_place free built distinct mem found ended
  have lies := liesIn_of_mem_artifacts (mem_artifacts_iff.mpr ⟨m, mem, found⟩)
  obtain ⟨short, file⟩ := (free.toRoot.read?_eq_some_iff plain nonempty).mp there
  have answer : (tidyPlan g.settings destination resolver).upToDate (t.makeDirectories destination)
      (a.place g.settings destination) a.summary =
        (summaryOf? (resolver (t.makeDirectories destination)) text == a.summary) :=
    InstallPlan.upToDate_of_text (p := tidyPlan g.settings destination resolver) free.toRoot plain
      nonempty short file (extension?_artifactFile simple destination lies) a.summary
  rw [mem_installed_iff free built distinct mem found ended by_name, answer, by_name,
    Resolver.ofNames, current, beq_self_eq_true]
  exact Bool.noConfusion

end Place

end Pass

/-! ## Junk in the places of artifacts -/

namespace Adoption

def junk : Bytes := .ofText "junk"

/-- The places of the two virtual modules. -/
def parentsPlace : Location := ["out", "__virtual_deps__", "mod_c9c06bab337bb474.py"]
def childPlace : Location := ["out", "__virtual_deps__", "mod_f0ee7da8b3b12a97.py"]

/-- A destination with junk in both places. -/
def junkTree : FileTree :=
  ((((∅ : FileTree).makeDirectories ["out", "__virtual_deps__"]).write? parentsPlace junk).bind
    (·.write? childPlace junk)).getD ∅

theorem entries_junkTree : junkTree.entries.entries =
    [(["out"], .directory), (["out", "__virtual_deps__"], .directory),
      (parentsPlace, .file junk), (childPlace, .file junk)] := rfl

theorem of_junkTree {l : Location} {entry : Entry} (found : junkTree.entries.get? l = some entry) :
    (l = ["out"] ∧ entry = .directory) ∨ (l = ["out", "__virtual_deps__"] ∧ entry = .directory) ∨
      ((l = parentsPlace ∨ l = childPlace) ∧ entry = .file junk) := by
  rw [Table.get?_eq_some_iff, entries_junkTree] at found
  simp only [List.mem_cons, Prod.mk.injEq, List.not_mem_nil, or_false] at found
  tauto

theorem linkFree_junkTree : junkTree.LinkFree ["out"] ["out"] :=
  linkFree_of_entries (by decide +kernel) (by decide +kernel) (by decide +kernel)

theorem tidy_junkTree : Tidy generator.settings.nspace ["out"] ["out"] junkTree where
  root := linkFree_junkTree.toRoot
  below q entry nonempty found := by
    have segments : generator.settings.nspace.segments = ["__virtual_deps__"] := by decide
    have file {name : String} (plain : Plain ["__virtual_deps__", name])
        (short : Short ["out"] ["__virtual_deps__", name]) :
        Allowed generator.settings.nspace ["out"] ["__virtual_deps__", name] (.file junk) := by
      have allowed : Allowed generator.settings.nspace ["out"]
          (generator.settings.nspace.segments ++ [name]) (.file junk) :=
        .file (by rwa [segments]) (by rwa [segments])
      rwa [segments] at allowed
    have below {names : Location} (same : ["out"] ++ q = ["out"] ++ names) : q = names :=
      List.append_cancel_left same
    rcases of_junkTree found with ⟨same, rfl⟩ | ⟨same, rfl⟩ | ⟨same | same, rfl⟩
    · exact absurd (below same) nonempty
    · cases below same
      exact .directory (by rw [segments])
    · cases below same
      exact file (by decide) (by decide +kernel)
    · cases below same
      exact file (by decide) (by decide +kernel)

/-- All modules of the snapshot are of these two paths. -/
def TwoModules (s : Snapshot) : Prop :=
  ∀ m ∈ s.moduleList, m.path = parents ∨ m.path = childModule

theorem TwoModules.of_moduleList {s : Snapshot} {m : SourceModule}
    (modules : s.moduleList = [parentModule, m]) (path : m.path = childModule) :
    TwoModules s := by
  intro n mem
  rw [modules, List.mem_cons, List.mem_singleton] at mem
  rcases mem with rfl | rfl
  · exact .inl rfl
  · exact .inr path

theorem TwoModules.distinct {s : Snapshot} (two : TwoModules s) :
    VirtuallyDistinct generator.settings.nspace s.HasPath := by
  have differ : virtualPath generator.settings.nspace parents ≠
      virtualPath generator.settings.nspace childModule := by
    decide +kernel
  rintro p q ⟨m, mem_m, rfl⟩ ⟨n, mem_n, rfl⟩ same
  rcases two m mem_m with hm | hm <;> rcases two n mem_n with hn | hn <;> rw [hm, hn] at same ⊢
  · exact absurd same differ
  · exact absurd same.symm differ

theorem TwoModules.allShort {s : Snapshot} (two : TwoModules s) {g : Generator}
    (settings : g.settings = generator.settings) :
    AllShort g.settings ["out"] (g.artifacts s) := by
  have short : ∀ p ∈ [parents, childModule], Short ["out"] (firstScratch ::
      artifactFile generator.settings.extension (virtualPath generator.settings.nspace p)) := by
    decide +kernel
  refine allShort_of_modules (by decide) fun m mem => ?_
  rw [settings]
  exact short m.path (by simpa using two m mem)

theorem twoModules_childless : TwoModules childless := .of_moduleList moduleList_childless rfl

theorem childless_distinct : VirtuallyDistinct generator.settings.nspace childless.HasPath :=
  twoModules_childless.distinct

/-- A pass over the junk goes through. -/
theorem junk_pass : ∃ outcome t',
    generator.runPass childless ["out"] (passResolver generator.settings.extension childless [])
      junkTree = .ok outcome t' := by
  rcases runPass_ends (passResolver generator.settings.extension childless []) childless_built
      tidy_junkTree with ⟨outcome, t', ended, -⟩ | ⟨long, -⟩
  · exact ⟨outcome, t', ended⟩
  · exact absurd (twoModules_childless.allShort rfl) long

theorem made_junkTree : junkTree.makeDirectories ["out"] = junkTree :=
  makeDirectories_found (linkFree_junkTree.leads junkTree (.refl _ _))

/-- In the place of a module that is not installed, junk counts as up to date and stays. -/
theorem junk_not_healed :
    ((junkTree.makeDirectories ["out"]).LinkFree ["out"] ["out"] ∧ childless.Built ∧
      VirtuallyDistinct generator.settings.nspace childless.HasPath ∧
      SourceModule.new childModule false ∈ childless.moduleList) ∧
    ∃ a, generator.artifact childless (.new childModule false) = .ok a ∧
      ∃ outcome t', generator.runPass childless ["out"]
          (passResolver generator.settings.extension childless []) junkTree = .ok outcome t' ∧
        ¬ Healed childModule a (a.place generator.settings ["out"])
          (junkTree.makeDirectories ["out"]) t' := by
  have free : (junkTree.makeDirectories ["out"]).LinkFree ["out"] ["out"] :=
    made_junkTree.symm ▸ linkFree_junkTree
  have mem : SourceModule.new childModule false ∈ childless.moduleList := by decide +kernel
  have found : generator.artifact childless (.new childModule false) =
      .ok (.render generator.settings.genericQueryset
        (.ofUninstalled (generator.context childless) (.new childModule false))) := by
    rw [Generator.artifact, gather_uninstalled _ _ rfl]
    rfl
  obtain ⟨outcome, t', ended⟩ := junk_pass
  refine ⟨⟨free, childless_built, childless_distinct, mem⟩, _, found, outcome, t', ended, ?_⟩
  have installed_iff := mem_installed_iff free childless_built childless_distinct mem found ended
    (passResolver_nil generator.settings.extension childless)
  have after := read?_place free childless_built childless_distinct mem found ended
  rw [made_junkTree] at installed_iff after ⊢
  rw [if_neg (by rw [installed_iff]; decide +kernel)] at after
  have before : junkTree.read? (Artifact.place (.render generator.settings.genericQueryset
      (.ofUninstalled (generator.context childless) (.new childModule false)))
        generator.settings ["out"]) = some junk := by
    decide +kernel
  rintro ⟨text, there, rest⟩
  rw [after, before] at there
  cases ofText_inj (Option.some.inj there)
  rcases rest with same | ⟨-, carries⟩
  · exact absurd same (by decide +kernel)
  · exact absurd carries (by decide +kernel)

/-- In the place of an installed module the same junk is out of date, and the pass heals it. -/
theorem junk_healed :
    ∃ a, generator.artifact childless parentModule = .ok a ∧
      ∃ outcome t', generator.runPass childless ["out"]
          (passResolver generator.settings.extension childless []) junkTree = .ok outcome t' ∧
        Healed parents a (a.place generator.settings ["out"])
          (junkTree.makeDirectories ["out"]) t' := by
  have free : (junkTree.makeDirectories ["out"]).LinkFree ["out"] ["out"] :=
    made_junkTree.symm ▸ linkFree_junkTree
  have found := artifact_of_concreteTable (g := generator) rfl concreteTable_childless
  obtain ⟨outcome, t', ended⟩ := junk_pass
  refine ⟨_, found, outcome, t', ended, ?_⟩
  refine (healed_iff free childless_built childless_distinct parentModule_mem found ended).mpr
    (.inl ?_)
  rw [mem_installed_iff free childless_built childless_distinct parentModule_mem found ended
    (passResolver_nil generator.settings.extension childless), made_junkTree]
  decide +kernel

end Adoption

end VirtualModules
