import VirtualModules.Proofs.ArtifactLines
import VirtualModules.Proofs.SummaryKeys

/-!
# Reading stored artifacts back

From a file with the text of an artifact its summary is read back, if there is one and the module is
known (`storedSummary?_render`). Appended text changes nothing where there is a summary, for the
lines that state it come first; without one, nothing but the text itself may stand in the file.
-/

namespace VirtualModules

/-- From a file with the right extension that holds the text of an artifact, perhaps with more text
behind one that states a summary, exactly the artifact's summary is read as long as its module is
known, and none once it is not. The artifacts of installed modules are those with a summary. -/
theorem storedSummary?_render {c : PassContext} {s : Snapshot} {m : SourceModule} {f : Facts}
    (within : c.policy.WithinLine) (gathered : Facts.gather c s m = .ok f) (generic : ImportPath)
    {t : FileTree} {names : Location} {extension : String}
    (named : (fileName? names).bind extension? = some extension) {appended : String}
    (whole : appended = "" ∨ (Artifact.render generic f).summary.isSome = true)
    (stored : t.read? names =
      some (.ofText ((Artifact.render generic f).content ++ appended)))
    (resolver : Resolver) :
    (storedSummary? t resolver extension names =
      if resolver t m.path then (Artifact.render generic f).summary else none) ∧
    (Artifact.render generic f).summary.isSome = m.installed := by
  refine ⟨?_, isSome_summary_render gathered generic⟩
  have read : storedSummary? t resolver extension names =
      summaryOf? (resolver t) ((Artifact.render generic f).content ++ appended) := by
    simp only [storedSummary?, stored, named, if_true, Option.bind_eq_bind, Option.bind_some,
      Bytes.toText?_ofText]
  rw [read, summaryOf?_render within gathered generic whole]

namespace Adoption

/-- What holds for a pass under a token of its own. -/
def tokenContext : PassContext :=
  { generator.context (adoption first) with policy := .perProcess "42" }

def parentsFacts : Facts :=
  .ofConcrete tokenContext parentModule (.ofList [(first, [childOf first]), (second, [])])

def parentsArtifact : Artifact := .render generator.settings.genericQueryset parentsFacts

/-- A tree with one file, in which another summary follows the artifact of the parents' module. -/
def paddedTree : FileTree :=
  ((∅ : FileTree).put? ["stored.py"]
    (.file (.ofText (parentsArtifact.content ++ "summary = \"other\"\n")))).getD ∅

/-- The summary that comes first is read by those who know the module, and none by others. -/
theorem storedSummary?_paddedTree :
    (tokenContext.policy.WithinLine ∧
      Facts.gather tokenContext (adoption first) parentModule = .ok parentsFacts ∧
      (fileName? ["stored.py"]).bind extension? = some "py" ∧
      parentsArtifact.summary.isSome = true ∧
      paddedTree.read? ["stored.py"] =
        some (.ofText (parentsArtifact.content ++ "summary = \"other\"\n"))) ∧
    ∀ resolver : Resolver,
      (storedSummary? paddedTree resolver "py" ["stored.py"] =
        if resolver paddedTree parents then parentsArtifact.summary else none) ∧
      parentsArtifact.summary.isSome = parentModule.installed := by
  have within : tokenContext.policy.WithinLine := by
    rintro token ⟨⟩
    decide
  have gathered : Facts.gather tokenContext (adoption first) parentModule = .ok parentsFacts := by
    have installed : parentModule.installed = true := rfl
    rw [Facts.gather, if_pos installed, concreteTable_first]
    rfl
  have named : (fileName? ["stored.py"]).bind extension? = some "py" := by decide +kernel
  exact ⟨⟨within, gathered, named, rfl, rfl⟩, fun resolver =>
    storedSummary?_render within gathered generator.settings.genericQueryset named (.inr rfl) rfl
      resolver⟩

end Adoption

end VirtualModules
