import VirtualModules.Proofs.ArtifactReports
import VirtualModules.Proofs.Paths
import VirtualModules.Proofs.SummaryKeys

/-!
# What the combined report of a pass says

Reports of one snapshot agree with each other, since a model and a module have one owner, so a pass
always has a combined report (`combine_artifacts_exists`). It binds the aliases of every installed
module that gives an artifact (`binds_combined_iff`) and relates the modules that its models'
descendants touch (`relates_combined_iff`).

The version of a combined report stands for the summaries alone, and these for sets of paths:

* `combined_report_eq_iff`: where two passes give the same summaries, their reports are equal
  exactly if the modules that are not installed, the models with aliases and the related modules
  are the same.
* `adoption_version_eq_report_ne`: a child that changes its abstract parent keeps the version and
  changes the report.
-/

namespace VirtualModules

/-! ## The artifacts of a pass -/

theorem mem_artifacts_iff {g : Generator} {s : Snapshot} {a : Artifact} :
    a ∈ g.artifacts s ↔ ∃ m ∈ s.moduleList, g.artifact s m = .ok a := by
  simp only [Generator.artifacts, List.mem_filterMap]
  constructor
  · rintro ⟨m, mem, found⟩
    exact ⟨m, mem, eq_ok_of_toOption found⟩
  · rintro ⟨m, mem, found⟩
    exact ⟨m, mem, by rw [found]; rfl⟩

theorem artifact_of_failures_eq_nil {g : Generator} {s : Snapshot} (none : g.failures s = [])
    {m : SourceModule} (mem : m ∈ s.moduleList) : ∃ a, g.artifact s m = .ok a := by
  rw [Generator.failures, List.filterMap_eq_nil_iff] at none
  have ended := none m mem
  cases found : g.artifact s m with
  | ok a => exact ⟨a, rfl⟩
  | error e =>
    rw [found] at ended
    cases ended

section Artifact

variable {g : Generator} {s : Snapshot} {m : SourceModule} {a : Artifact}

/-- The facts behind an artifact: where it lies, and which of its models get aliases. -/
theorem facts_of_artifact (h : g.artifact s m = .ok a) :
    ∃ f : Facts, a = Artifact.render g.settings.genericQueryset f ∧
      f.summary.virtualPath = virtualPath g.settings.nspace m.path ∧
      f.summary.modulePath = m.path ∧
      ∀ p concrete, (p, concrete) ∈ f.aliased ↔ m.installed = true ∧ s.Aliased m p concrete := by
  obtain ⟨f, gathered, rfl⟩ := artifact_ok h
  refine ⟨f, rfl, ?_⟩
  cases installed : m.installed with
  | true =>
    obtain ⟨table, found, rfl⟩ := gather_installed installed gathered
    refine ⟨rfl, rfl, fun p concrete => ?_⟩
    rw [mem_aliased_iff found]
    simp
  | false =>
    rw [gather_uninstalled _ _ installed] at gathered
    cases gathered
    refine ⟨rfl, rfl, fun p concrete => ?_⟩
    have nothing : (Facts.ofUninstalled (g.context s) m).aliased = [] := rfl
    simp [nothing]

theorem virtualPath_of_artifact (h : g.artifact s m = .ok a) :
    a.virtualPath = virtualPath g.settings.nspace m.path := by
  obtain ⟨f, rfl, virtual, -⟩ := facts_of_artifact h
  exact virtual

theorem proper_of_artifact (h : g.artifact s m = .ok a) : a.report.Proper := by
  obtain ⟨f, rfl, -⟩ := facts_of_artifact h
  exact f.proper_report

theorem binds_artifact_iff (h : g.artifact s m = .ok a) {kind : OwnedTable}
    {key value : ImportPath} :
    a.report.Binds kind key value ↔
      (m.installed = true ∧ (∃ concrete, s.Aliased m key concrete) ∧
          aliasPath? (virtualPath g.settings.nspace m.path) kind key = some value) ∨
        (kind = .virtualModules ∧ key = m.path ∧
          value = virtualPath g.settings.nspace m.path) := by
  obtain ⟨f, rfl, virtual, module, aliased⟩ := facts_of_artifact h
  simp only [Artifact.render, Facts.binds_report_iff, virtual, module, aliased]
  grind

/-- A descendant of a model of `m` in the module `x` touches the module `y`. -/
def Snapshot.Touches (s : Snapshot) (m : SourceModule) (x y : ImportPath) : Prop :=
  ∃ p concrete, s.Aliased m p concrete ∧ p.parent? = some x ∧ y ∈ touchedModules concrete

theorem relates_artifact_iff (h : g.artifact s m = .ok a) {x y : ImportPath} :
    a.report.Relates x y ↔ m.installed = true ∧ x ≠ y ∧ (s.Touches m x y ∨ s.Touches m y x) := by
  obtain ⟨f, rfl, -, -, aliased⟩ := facts_of_artifact h
  simp only [Artifact.render, Facts.relates_report_iff, aliased, Joins, Snapshot.Touches]
  constructor
  · rintro ⟨p, concrete, ⟨installed, found⟩, module, here, other, mem, differ, ends⟩
    rcases ends with ⟨rfl, rfl⟩ | ⟨rfl, rfl⟩
    · exact ⟨installed, differ, .inl ⟨p, concrete, found, here, mem⟩⟩
    · exact ⟨installed, differ.symm, .inr ⟨p, concrete, found, here, mem⟩⟩
  · rintro ⟨installed, differ, ⟨p, concrete, found, here, mem⟩ | ⟨p, concrete, found, here, mem⟩⟩
    · exact ⟨p, concrete, ⟨installed, found⟩, x, here, y, mem, differ, .inl ⟨rfl, rfl⟩⟩
    · exact ⟨p, concrete, ⟨installed, found⟩, y, here, x, mem, differ.symm, .inr ⟨rfl, rfl⟩⟩

end Artifact

/-! ## Combining them -/

section Combined

variable {g : Generator} {s : Snapshot}

/-- Two modules of a snapshot that have a model path or their own path in common are the same. -/
theorem module_eq_of_aliased (built : s.Built) {m n : SourceModule} (hm : m ∈ s.moduleList)
    (hn : n ∈ s.moduleList) {p : ImportPath} {cs ds : List Model} (ha : s.Aliased m p cs)
    (hb : s.Aliased n p ds) : m = n := by
  obtain ⟨⟨a, mem_a, here_a⟩, -⟩ := ha
  obtain ⟨⟨b, mem_b, here_b⟩, -⟩ := hb
  have found_m := built.consistent.mem_moduleList_iff.mp hm
  have found_n := built.consistent.mem_moduleList_iff.mp hn
  have paths := built.consistent.model_owner found_m found_n a mem_a b mem_b
    (here_a.trans here_b.symm)
  rw [paths, found_n] at found_m
  exact (Option.some.inj found_m).symm

theorem compatible_artifacts (built : s.Built) {a b : Artifact} (ha : a ∈ g.artifacts s)
    (hb : b ∈ g.artifacts s) : a.report.Compatible b.report := by
  obtain ⟨m, mem_m, found_a⟩ := mem_artifacts_iff.mp ha
  obtain ⟨n, mem_n, found_b⟩ := mem_artifacts_iff.mp hb
  intro kind key v w hv hw
  rw [binds_artifact_iff found_a] at hv
  rw [binds_artifact_iff found_b] at hw
  rcases hv with ⟨-, ⟨cs, aliased_m⟩, bound_v⟩ | ⟨rfl, rfl, rfl⟩
  · rcases hw with ⟨-, ⟨ds, aliased_n⟩, bound_w⟩ | ⟨rfl, -, -⟩
    · rw [module_eq_of_aliased built mem_m mem_n aliased_m aliased_n, bound_w] at bound_v
      exact (Option.some.inj bound_v).symm
    · cases bound_v
  · rcases hw with ⟨-, -, bound_w⟩ | ⟨-, same, rfl⟩
    · cases bound_w
    · rw [same]

theorem combine_artifacts_exists (built : s.Built) : ∃ c, combine (g.artifacts s) = .ok c := by
  refine combine_exists (fun a mem => ?_) fun a ha b hb => compatible_artifacts built ha hb
  obtain ⟨m, -, found⟩ := mem_artifacts_iff.mp mem
  exact proper_of_artifact found

theorem unionOf_artifacts {c : Combined} (h : combine (g.artifacts s) = .ok c) :
    Report.UnionOf ((g.artifacts s).map (·.report)) c.report := by
  refine combine_ok (fun a mem => ?_) h
  obtain ⟨m, -, found⟩ := mem_artifacts_iff.mp mem
  exact proper_of_artifact found

theorem exists_report_iff {P : Report → Prop} :
    (∃ r ∈ (g.artifacts s).map (·.report), P r) ↔
      ∃ m ∈ s.moduleList, ∃ a, g.artifact s m = .ok a ∧ P a.report := by
  simp only [List.mem_map, mem_artifacts_iff]
  constructor
  · rintro ⟨r, ⟨a, ⟨m, mem, found⟩, rfl⟩, holds⟩
    exact ⟨m, mem, a, found, holds⟩
  · rintro ⟨m, mem, a, found, holds⟩
    exact ⟨_, ⟨a, ⟨m, mem, found⟩, rfl⟩, holds⟩

theorem binds_combined_iff {c : Combined} (h : combine (g.artifacts s) = .ok c)
    {kind : OwnedTable} {key value : ImportPath} :
    c.report.Binds kind key value ↔
      ∃ m ∈ s.moduleList, (∃ a, g.artifact s m = .ok a) ∧
        ((m.installed = true ∧ (∃ concrete, s.Aliased m key concrete) ∧
            aliasPath? (virtualPath g.settings.nspace m.path) kind key = some value) ∨
          (kind = .virtualModules ∧ key = m.path ∧
            value = virtualPath g.settings.nspace m.path)) := by
  rw [(unionOf_artifacts h).binds, exists_report_iff]
  constructor
  · rintro ⟨m, mem, a, found, binds⟩
    exact ⟨m, mem, ⟨a, found⟩, (binds_artifact_iff found).mp binds⟩
  · rintro ⟨m, mem, ⟨a, found⟩, binds⟩
    exact ⟨m, mem, a, found, (binds_artifact_iff found).mpr binds⟩

theorem relates_combined_iff {c : Combined} (h : combine (g.artifacts s) = .ok c)
    {x y : ImportPath} :
    c.report.Relates x y ↔
      x ≠ y ∧ ∃ m ∈ s.moduleList, (∃ a, g.artifact s m = .ok a) ∧ m.installed = true ∧
        (s.Touches m x y ∨ s.Touches m y x) := by
  rw [(unionOf_artifacts h).relates, exists_report_iff]
  constructor
  · rintro ⟨m, mem, a, found, relates⟩
    obtain ⟨installed, differ, touches⟩ := (relates_artifact_iff found).mp relates
    exact ⟨differ, m, mem, ⟨a, found⟩, installed, touches⟩
  · rintro ⟨differ, m, mem, ⟨a, found⟩, installed, touches⟩
    exact ⟨m, mem, a, found, (relates_artifact_iff found).mpr ⟨installed, differ, touches⟩⟩

end Combined

/-! ## Equal summaries, different reports -/

/-- What the version of a combined report knows about an artifact. -/
def Artifact.versionEntry (a : Artifact) : VersionEntry := (a.virtualPath, a.summary)

/-- There is a module at `p`, and it is installed or not as given. -/
def Snapshot.HasModule (s : Snapshot) (installed : Bool) (p : ImportPath) : Prop :=
  ∃ m ∈ s.moduleList, m.installed = installed ∧ m.path = p

/-- The virtual module `virtual` has aliases for the model at `p`. -/
def Generator.Offers (g : Generator) (s : Snapshot) (virtual p : ImportPath) : Prop :=
  ∃ m ∈ s.moduleList, m.installed = true ∧ virtualPath g.settings.nspace m.path = virtual ∧
    ∃ concrete, s.Aliased m p concrete

/-- Two snapshots have the same modules that are not installed, aliases for the same models in the
same virtual modules, and the same related modules. -/
structure SameOffers (g : Generator) (s₁ s₂ : Snapshot) : Prop where
  uninstalled : ∀ p, s₁.HasModule false p ↔ s₂.HasModule false p
  aliased : ∀ virtual p, g.Offers s₁ virtual p ↔ g.Offers s₂ virtual p
  related : ∀ x y, x ≠ y →
    ((∃ m ∈ s₁.moduleList, m.installed = true ∧ (s₁.Touches m x y ∨ s₁.Touches m y x)) ↔
      ∃ m ∈ s₂.moduleList, m.installed = true ∧ (s₂.Touches m x y ∨ s₂.Touches m y x))

/-- Only artifacts of installed modules have a summary, and it names the module. -/
theorem summary_of_artifact {g : Generator} {s₁ s₂ : Snapshot} {m₁ m₂ : SourceModule}
    {a₁ a₂ : Artifact} (h₁ : g.artifact s₁ m₁ = .ok a₁) (h₂ : g.artifact s₂ m₂ = .ok a₂)
    (installed : m₁.installed = true) (summaries : a₁.summary = a₂.summary) :
    m₂.installed = true ∧ m₂.path = m₁.path := by
  obtain ⟨t₁, -, rfl⟩ := artifact_installed installed h₁
  cases installed₂ : m₂.installed with
  | true =>
    obtain ⟨t₂, -, rfl⟩ := artifact_installed installed₂ h₂
    exact ⟨rfl, (summaryText_inj summaries).2.1.symm⟩
  | false =>
    obtain ⟨f, gathered, rfl⟩ := artifact_ok h₂
    rw [gather_uninstalled _ _ installed₂] at gathered
    cases gathered
    simp [Artifact.render, Facts.ofConcrete, Facts.ofUninstalled, Summary.text?] at summaries

section Versions

variable {g : Generator} {s₁ s₂ : Snapshot}

/-- Where all entries of one version are entries of another, its installed modules are installed
in the other snapshot. -/
theorem hasModule_of_entries (none₁ : g.failures s₁ = [])
    (entries : ∀ e, e ∈ (g.artifacts s₁).map Artifact.versionEntry →
      e ∈ (g.artifacts s₂).map Artifact.versionEntry)
    {p : ImportPath} (h : s₁.HasModule true p) : s₂.HasModule true p := by
  obtain ⟨m, mem, installed, rfl⟩ := h
  obtain ⟨a, found⟩ := artifact_of_failures_eq_nil none₁ mem
  have entry := entries a.versionEntry
    (List.mem_map_of_mem (mem_artifacts_iff.mpr ⟨m, mem, found⟩))
  obtain ⟨b, mem_b, same⟩ := List.mem_map.mp entry
  obtain ⟨n, mem_n, found_b⟩ := mem_artifacts_iff.mp mem_b
  simp only [Artifact.versionEntry, Prod.mk.injEq] at same
  exact ⟨n, mem_n, summary_of_artifact found found_b installed same.2.symm⟩

theorem exists_path_iff {p : ImportPath} :
    (∃ m ∈ s₁.moduleList, m.path = p) ↔ s₁.HasModule true p ∨ s₁.HasModule false p := by
  constructor
  · rintro ⟨m, mem, here⟩
    cases installed : m.installed with
    | true => exact .inl ⟨m, mem, installed, here⟩
    | false => exact .inr ⟨m, mem, installed, here⟩
  · rintro (⟨m, mem, -, here⟩ | ⟨m, mem, -, here⟩)
    · exact ⟨m, mem, here⟩
    · exact ⟨m, mem, here⟩

theorem not_hasModule_both (built : s₁.Built) {p : ImportPath} :
    ¬ (s₁.HasModule true p ∧ s₁.HasModule false p) := by
  rintro ⟨⟨m, mem_m, installed, rfl⟩, n, mem_n, uninstalled, same⟩
  have found_m := built.consistent.mem_moduleList_iff.mp mem_m
  have found_n := built.consistent.mem_moduleList_iff.mp mem_n
  rw [same, found_m] at found_n
  cases found_n
  rw [installed] at uninstalled
  cases uninstalled

theorem binds_alias_iff (none : g.failures s₁ = []) {c : Combined}
    (h : combine (g.artifacts s₁) = .ok c) {kind : OwnedTable} (owned : kind ≠ .virtualModules)
    {key value : ImportPath} :
    c.report.Binds kind key value ↔
      ∃ virtual, g.Offers s₁ virtual key ∧ aliasPath? virtual kind key = some value := by
  rw [binds_combined_iff h]
  constructor
  · rintro ⟨m, mem, -, ⟨installed, aliased, bound⟩ | ⟨clash, -⟩⟩
    · exact ⟨_, ⟨m, mem, installed, rfl, aliased⟩, bound⟩
    · exact absurd clash owned
  · rintro ⟨_, ⟨m, mem, installed, rfl, aliased⟩, bound⟩
    exact ⟨m, mem, artifact_of_failures_eq_nil none mem, .inl ⟨installed, aliased, bound⟩⟩

theorem offers_iff_binds (none : g.failures s₁ = []) {c : Combined}
    (h : combine (g.artifacts s₁) = .ok c) {virtual p : ImportPath} :
    g.Offers s₁ virtual p ↔
      c.report.Binds .concreteAliases p (virtual.child (concreteAlias p)) := by
  rw [binds_alias_iff none h (by decide)]
  constructor
  · exact fun offers => ⟨virtual, offers, rfl⟩
  · rintro ⟨other, offers, bound⟩
    rwa [(ImportPath.child_inj (Option.some.inj bound)).1] at offers

theorem binds_virtualModules_iff (none : g.failures s₁ = []) {c : Combined}
    (h : combine (g.artifacts s₁) = .ok c) {key value : ImportPath} :
    c.report.Binds .virtualModules key value ↔
      (∃ m ∈ s₁.moduleList, m.path = key) ∧ value = virtualPath g.settings.nspace key := by
  rw [binds_combined_iff h]
  constructor
  · rintro ⟨m, mem, -, ⟨-, -, bound⟩ | ⟨-, rfl, rfl⟩⟩
    · cases bound
    · exact ⟨⟨m, mem, rfl⟩, rfl⟩
  · rintro ⟨⟨m, mem, rfl⟩, rfl⟩
    exact ⟨m, mem, artifact_of_failures_eq_nil none mem, .inr ⟨rfl, rfl, rfl⟩⟩

theorem relates_iff_touches (none : g.failures s₁ = []) {c : Combined}
    (h : combine (g.artifacts s₁) = .ok c) {x y : ImportPath} :
    c.report.Relates x y ↔ x ≠ y ∧ ∃ m ∈ s₁.moduleList, m.installed = true ∧
      (s₁.Touches m x y ∨ s₁.Touches m y x) := by
  rw [relates_combined_iff h]
  constructor
  · rintro ⟨differ, m, mem, -, installed, touches⟩
    exact ⟨differ, m, mem, installed, touches⟩
  · rintro ⟨differ, m, mem, installed, touches⟩
    exact ⟨differ, m, mem, artifact_of_failures_eq_nil none mem, installed, touches⟩

/-- Where two passes without failures give the same virtual modules with the same summaries, their
combined reports are equal exactly if the snapshots have the same to offer. -/
theorem combined_report_eq_iff (built₁ : s₁.Built) (built₂ : s₂.Built)
    (none₁ : g.failures s₁ = []) (none₂ : g.failures s₂ = [])
    (entries : ∀ e, e ∈ (g.artifacts s₁).map Artifact.versionEntry ↔
      e ∈ (g.artifacts s₂).map Artifact.versionEntry) :
    ∃ c₁ c₂, combine (g.artifacts s₁) = .ok c₁ ∧ combine (g.artifacts s₂) = .ok c₂ ∧
      (c₁.report = c₂.report ↔ SameOffers g s₁ s₂) := by
  obtain ⟨c₁, h₁⟩ := combine_artifacts_exists (g := g) built₁
  obtain ⟨c₂, h₂⟩ := combine_artifacts_exists (g := g) built₂
  refine ⟨c₁, c₂, h₁, h₂, ?_⟩
  have installed : ∀ p, s₁.HasModule true p ↔ s₂.HasModule true p := fun p =>
    ⟨hasModule_of_entries none₁ fun e => (entries e).mp,
      hasModule_of_entries none₂ fun e => (entries e).mpr⟩
  -- what is bound to a virtual module is installed or not, and the installed ones are the same
  have modules : ∀ p, ((∃ m ∈ s₁.moduleList, m.path = p) ↔ ∃ m ∈ s₂.moduleList, m.path = p) ↔
      (s₁.HasModule false p ↔ s₂.HasModule false p) := by
    intro p
    rw [exists_path_iff, exists_path_iff]
    have one := not_hasModule_both built₁ (p := p)
    have two := not_hasModule_both built₂ (p := p)
    have both := installed p
    tauto
  constructor
  · intro same
    refine ⟨fun p => (modules p).mp ?_, fun virtual p => ?_, fun x y differ => ?_⟩
    · have bound : c₁.report.Binds .virtualModules p (virtualPath g.settings.nspace p) ↔
          c₂.report.Binds .virtualModules p (virtualPath g.settings.nspace p) := by rw [same]
      rw [binds_virtualModules_iff none₁ h₁, binds_virtualModules_iff none₂ h₂] at bound
      simpa using bound
    · rw [offers_iff_binds none₁ h₁, same, offers_iff_binds none₂ h₂]
    · have related : c₁.report.Relates x y ↔ c₂.report.Relates x y := by rw [same]
      rw [relates_iff_touches none₁ h₁, relates_iff_touches none₂ h₂] at related
      simpa [differ] using related
  · rintro ⟨uninstalled, aliased, related⟩
    refine Report.ext_answers (unionOf_artifacts h₁).proper (unionOf_artifacts h₂).proper
      (fun kind key value => ?_) fun x y => ?_
    · cases kind with
      | virtualModules =>
        rw [binds_virtualModules_iff none₁ h₁, binds_virtualModules_iff none₂ h₂,
          (modules key).mpr (uninstalled key)]
      | concreteAliases =>
        rw [binds_alias_iff none₁ h₁ (by decide), binds_alias_iff none₂ h₂ (by decide)]
        simp only [aliased]
      | querysetAliases =>
        rw [binds_alias_iff none₁ h₁ (by decide), binds_alias_iff none₂ h₂ (by decide)]
        simp only [aliased]
    · rw [relates_iff_touches none₁ h₁, relates_iff_touches none₂ h₂]
      exact and_congr_right (related x y)

end Versions

namespace Adoption

theorem adoption_failures (parent : ImportPath) (h : parent = first ∨ parent = second) :
    generator.failures (adoption parent) = [] := by
  rcases h with rfl | rfl
  · rfl
  · rfl

theorem adoption_entries : (generator.artifacts (adoption first)).map Artifact.versionEntry =
    (generator.artifacts (adoption second)).map Artifact.versionEntry := by
  decide +kernel

theorem adoption_reports {c₁ c₂ : Combined}
    (h₁ : combine (generator.artifacts (adoption first)) = .ok c₁)
    (h₂ : combine (generator.artifacts (adoption second)) = .ok c₂) : c₁.report ≠ c₂.report := by
  have differ : (combine (generator.artifacts (adoption first))).toOption.map
        (·.report.concreteAliases.get? first) ≠
      (combine (generator.artifacts (adoption second))).toOption.map
        (·.report.concreteAliases.get? first) := by
    decide +kernel
  intro same
  rw [h₁, h₂] at differ
  simp [Except.toOption, same] at differ

/-- Before and after the child changes its parent, the passes have one version and two reports. -/
theorem adoption_version_eq_report_ne :
    ((adoption first).Built ∧ (adoption second).Built) ∧
      (generator.failures (adoption first) = [] ∧ generator.failures (adoption second) = []) ∧
      (generator.artifacts (adoption first)).map Artifact.versionEntry =
        (generator.artifacts (adoption second)).map Artifact.versionEntry ∧
      ∃ c₁ c₂, combine (generator.artifacts (adoption first)) = .ok c₁ ∧
        combine (generator.artifacts (adoption second)) = .ok c₂ ∧
        c₁.version = c₂.version ∧ c₁.report ≠ c₂.report := by
  have built₁ := adoption_built first (.inl rfl)
  have built₂ := adoption_built second (.inr rfl)
  obtain ⟨c₁, h₁⟩ := combine_artifacts_exists (g := generator) built₁
  obtain ⟨c₂, h₂⟩ := combine_artifacts_exists (g := generator) built₂
  refine ⟨⟨built₁, built₂⟩, ⟨adoption_failures _ (.inl rfl), adoption_failures _ (.inr rfl)⟩,
    adoption_entries, c₁, c₂, h₁, h₂, ?_, adoption_reports h₁ h₂⟩
  rw [version_of_combine h₁, version_of_combine h₂]
  exact congrArg (fun entries => (Fingerprint.ofParts (versionParts entries)).toHex)
    adoption_entries

/-- The reports differ because the two snapshots have aliases for different models. -/
theorem adoption_not_sameOffers :
    ¬ SameOffers generator (adoption first) (adoption second) := by
  obtain ⟨c₁, c₂, h₁, h₂, equal_iff⟩ := combined_report_eq_iff (g := generator)
    (adoption_built first (.inl rfl)) (adoption_built second (.inr rfl))
    (adoption_failures _ (.inl rfl)) (adoption_failures _ (.inr rfl))
    fun e => by rw [adoption_entries]
  exact fun same => adoption_reports h₁ h₂ (equal_iff.mpr same)

end Adoption

end VirtualModules
