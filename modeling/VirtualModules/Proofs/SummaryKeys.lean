import VirtualModules.Proofs.ArtifactText
import VirtualModules.Proofs.Snapshots

/-!
# Summaries as keys for texts

A summary stands for one set of paths, and a text for which descendants and which querysets belong
to which alias. So a summary alone does not determine the text:

* `content_eq_iff_of_summary_eq`: of two artifacts with one summary the texts are equal exactly if
  the modules have the same aliases.
* `adoption_summary_eq_content_ne`: a child that leaves one abstract parent of a module for another
  one keeps the summary of that module and changes its text.
-/

namespace VirtualModules

/-- Of two artifacts of installed modules with one summary, the texts are equal exactly if both
modules define the same aliases as the same unions and import the same paths. -/
theorem content_eq_iff_of_summary_eq {g : Generator} {s₁ s₂ : Snapshot} {m₁ m₂ : SourceModule}
    {a₁ a₂ : Artifact} (installed₁ : m₁.installed = true) (installed₂ : m₂.installed = true)
    (h₁ : g.artifact s₁ m₁ = .ok a₁) (h₂ : g.artifact s₂ m₂ = .ok a₂)
    (summaries : a₁.summary = a₂.summary) :
    a₁.content = a₂.content ↔ SameAliases g.settings.genericQueryset s₁ m₁ s₂ m₂ := by
  obtain ⟨t₁, found₁, rfl⟩ := artifact_installed installed₁ h₁
  obtain ⟨t₂, found₂, rfl⟩ := artifact_installed installed₂ h₂
  simp only [Artifact.render] at summaries ⊢
  exact content_of_generator_eq_iff g found₁ found₂ summaries

/-! ## A child that changes its parent -/

namespace Adoption

def parents : ImportPath := ⟨"app.models", by decide⟩
def first : ImportPath := ⟨"app.models.A", by decide⟩
def second : ImportPath := ⟨"app.models.B", by decide⟩
def childModule : ImportPath := ⟨"ext.models", by decide⟩
def child : ImportPath := ⟨"ext.models.X", by decide⟩

def abstractModel (name : String) (path : ImportPath) : Model :=
  ⟨name, parents, path, true, none, ∅, []⟩

def childOf (parent : ImportPath) : Model := ⟨"X", childModule, child, false, none, ∅, [parent]⟩

/-- An installed module with two abstract models. -/
def parentModule : SourceModule :=
  ((SourceModule.new parents true).withModel (abstractModel "A" first)).withModel
    (abstractModel "B" second)

/-- A module with a concrete child of one of the two. -/
def childModuleOf (parent : ImportPath) (installed : Bool) : SourceModule :=
  (SourceModule.new childModule installed).withModel (childOf parent)

/-- The snapshot of the two modules. -/
def adoption (parent : ImportPath) : Snapshot where
  installedApps := ["app"]
  modules := .ofList [(parents, parentModule), (childModule, childModuleOf parent true)]
  models := .ofList [(first, abstractModel "A" first), (second, abstractModel "B" second),
    (child, childOf parent)]
  explicit := none

def generator : Generator where
  settings :=
    { nspace := ⟨"__virtual_deps__", by decide⟩
      extension := "py"
      markerMode := .content
      genericQueryset := ⟨"django.db.models.QuerySet", by decide⟩
      priority := 10
      engineNamespaces := []
      settingsModule := none
      settingsAccessors := []
      searchPaths := [] }
  policy := .content

theorem adoption_built (parent : ImportPath) (h : parent = first ∨ parent = second) :
    (adoption parent).Built := by
  have built : Snapshot.ofModules ["app"] [parentModule, childModuleOf parent true] =
      .ok (adoption parent) := by
    rcases h with rfl | rfl
    · rfl
    · rfl
  exact .ofModules built

theorem concreteTable_first : concreteTable (adoption first) parentModule =
    .ok (.ofList [(first, [childOf first]), (second, [])]) := rfl

theorem concreteTable_second : concreteTable (adoption second) parentModule =
    .ok (.ofList [(first, []), (second, [childOf second])]) := rfl

theorem adoption_artifacts :
    ∃ a₁ a₂, generator.artifact (adoption first) parentModule = .ok a₁ ∧
      generator.artifact (adoption second) parentModule = .ok a₂ ∧
      a₁.summary = a₂.summary ∧ a₁.content ≠ a₂.content := by
  refine ⟨_, _, artifact_of_concreteTable rfl concreteTable_first,
    artifact_of_concreteTable rfl concreteTable_second, ?_, ?_⟩
  · decide +kernel
  · decide +kernel

/-- Before and after the child changes its parent, the parents' module has one summary and two
texts. -/
theorem adoption_summary_eq_content_ne :
    ((adoption first).Built ∧ (adoption second).Built) ∧
      (generator.policy = .content ∧ parentModule.installed = true) ∧
      ∃ a₁ a₂, generator.artifact (adoption first) parentModule = .ok a₁ ∧
        generator.artifact (adoption second) parentModule = .ok a₂ ∧
        a₁.summary = a₂.summary ∧ a₁.content ≠ a₂.content :=
  ⟨⟨adoption_built _ (.inl rfl), adoption_built _ (.inr rfl)⟩, ⟨rfl, rfl⟩, adoption_artifacts⟩

/-- The texts differ because the aliases do. -/
theorem adoption_not_sameAliases :
    ¬ SameAliases generator.settings.genericQueryset (adoption first) parentModule
      (adoption second) parentModule := by
  obtain ⟨a₁, a₂, h₁, h₂, summaries, differ⟩ := adoption_artifacts
  exact fun same => differ ((content_eq_iff_of_summary_eq rfl rfl h₁ h₂ summaries).mpr same)

end Adoption

end VirtualModules
