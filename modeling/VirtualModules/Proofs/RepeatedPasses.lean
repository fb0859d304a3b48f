import VirtualModules.Proofs.AtRest
import VirtualModules.Proofs.Healing

/-!
# Passes made again

A pass that goes through leaves a destination where its install is at rest
(`PassStages.atRest`). So the same pass made again goes through, too, finds nothing to install and
nothing to remove, and leaves the tree as it is, whatever was in the destination at first
(`runPass_again`).
-/

namespace VirtualModules

open FileTree

variable {g : Generator} {s : Snapshot} {resolver : Resolver} {known : ImportPath → Bool}
  {outcome : PassOutcome} {destination d : Location} {scratch : String} {staging : Staging}
  {t t' t₀ t₂ t₃ t₄ : FileTree}

/-- After a pass, the install of its artifacts is at rest. -/
theorem PassStages.atRest
    (stages : PassStages g s destination d (.ofNames known) outcome scratch staging t t₀ t₂ t₃ t₄
      t')
    (free : t.LinkFree destination d)
    (rereads : ∀ e ∈ staging.summaries.entries,
      (passPlan g.settings destination scratch (.ofNames known)).Rereads d scratch known t₂ e) :
    (passPlan g.settings destination scratch (.ofNames known)).AtRest d g.settings.nspace
      staging.summaries t' := by
  have ready := stages.staged.ready (stages.cleared.linkFree free) stages.is_scratch
    (.ofNames known)
  exact (stages.install.atRest rfl ready rereads).congr rfl stages.linkFree_end stages.staged.direct
    stages.sameBelow_end

/-- Storing the same report again changes nothing. -/
theorem PassStages.saveReport_again
    (stages : PassStages g s destination d resolver outcome scratch staging t t₀ t₂ t₃ t₄ t') :
    saveReport destination outcome.combined t' = .ok () t' := by
  have stored := stages.saved (d ++ [reportFile])
  rw [if_pos rfl] at stored
  obtain ⟨t'', saved, spec⟩ := saveReport_ok outcome.combined stages.linkFree_end.toRoot
    stages.short_report (by rw [stored]; exact nofun)
  have same : t'' = t' := by
    refine ext_get? fun l => ?_
    rw [spec]
    split
    · next here => rw [here, stored]
    · rfl
  rw [saved, same]

/-- A pass that went through over an arbitrary tree without links can be made again, and then it
changes nothing at all. -/
theorem runPass_again (free : (t.makeDirectories destination).LinkFree destination d)
    (simple : g.settings.SimpleExtension) (within : g.policy.WithinLine) (built : s.Built)
    (ended : g.runPass s destination (passResolver g.settings.extension s []) t =
      .ok outcome t') :
    ∃ again, g.runPass s destination (passResolver g.settings.extension s []) t' =
        .ok again t' ∧
      again.install.isNoop = true ∧ again.combined = outcome.combined := by
  rw [runPass_made g s _ free.toRoot] at ended
  rw [passResolver_nil] at ended ⊢
  obtain ⟨scratch, staging, t₀, t₂, t₃, t₄, stages⟩ := stages_of_runPass free ended
  have rest := stages.atRest free (stages.staged.rereads simple within built _)
  have free' := stages.linkFree_end
  have absent := absent_of_fresh stages.fresh_again
  -- the second pass stages the same artifacts in a scratch directory of the same name
  have lie : ∀ a ∈ g.artifacts s, a.LiesIn g.settings.nspace := fun a => liesIn_of_mem_artifacts
  rcases installArtifacts_staged stages.is_scratch free'.toRoot absent lie (.ofNames s.knows)
      stages.fresh_again with
    ⟨staging', t₂', -, short, staged', staged_eq⟩ | ⟨long, -⟩
  · have same : InstallPlan.SameBelow (d ++ g.settings.nspace.segments) t' t₂' := by
      intro names
      rw [List.append_assoc, staged'.get?_beside
        (head_ne_of_dot (dot_mem_of_isScratchName stages.is_scratch) names)]
    have rest' := rest.congr rfl (staged'.linkFree stages.is_scratch free') stages.staged.direct same
    rw [stages.staged.summaries_eq staged'] at rest'
    have installed := installPass_of_clear g s (.ofNames s.knows) free'.toRoot stages.clear
    rw [staged_eq, DiskAction.always_of_ok rest'.install_ok,
      staged'.toKeptOutside.removed stages.is_scratch short absent] at installed
    exact ⟨_, runPass_of_installPass stages.combined installed stages.saveReport_again, rfl, rfl⟩
  · exact absurd ⟨stages.short, stages.staged.short⟩ long

namespace Adoption

/-- Over junk, a second pass finds nothing left to do. -/
theorem junk_pass_again :
    ∃ outcome t', generator.runPass childless ["out"]
        (passResolver generator.settings.extension childless []) junkTree = .ok outcome t' ∧
      ∃ again, generator.runPass childless ["out"]
          (passResolver generator.settings.extension childless []) t' = .ok again t' ∧
        again.install.isNoop = true ∧ again.combined = outcome.combined := by
  obtain ⟨outcome, t', ended⟩ := junk_pass
  exact ⟨outcome, t', ended, runPass_again (made_junkTree.symm ▸ linkFree_junkTree) (by decide)
    MarkerPolicy.withinLine_content childless_built ended⟩

end Adoption

end VirtualModules
