import VirtualModules.Proofs.SnapshotDocuments
import VirtualModules.Proofs.Stages

/-!
# The report of a pass

The artifacts of an accepted snapshot never claim one key for two values, so a pass always combines
them and never stops at a conflict (`combine_artifacts_ok`). In the combined report two modules are
related exactly if a concrete descendant of a model in one of them touches the other one
(`mem_relatedTo_combined_iff`).
-/

namespace VirtualModules

/-! ## No conflicts -/

section Conflicts

variable {g : Generator} {s : Snapshot} {destination : Location} {resolver : Resolver}
  {t t' : FileTree}

/-- A pass whose artifacts can be combined fails on the disk or not at all. -/
theorem runPass_ne_conflict {c : Combined} (merged : combine (g.artifacts s) = .ok c)
    (conflict : Conflict) :
    g.runPass s destination resolver t ≠ .error (.conflict conflict) t' := by
  intro ended
  rw [runPass_eq] at ended
  -- before and after the merge only errors of the disk are passed on
  cases installed : g.installPass s destination resolver t with
  | error e t₁ =>
    rw [DiskAction.bind_of_error (DiskAction.mapError_of_error installed)] at ended
    cases ended
  | ok install t₁ =>
    rw [DiskAction.bind_of_ok (DiskAction.mapError_of_ok installed)] at ended
    simp only [merged] at ended
    cases saved : saveReport destination c t₁ with
    | error e t₂ =>
      rw [DiskAction.bind_of_error (DiskAction.mapError_of_error saved)] at ended
      cases ended
    | ok done t₂ =>
      rw [DiskAction.bind_of_ok (DiskAction.mapError_of_ok saved)] at ended
      cases ended

end Conflicts

/-- The artifacts of an accepted snapshot can be combined, also where modules share their virtual
module. So no pass over it ends with a conflict, whatever its destination holds. -/
theorem combine_artifacts_ok (g : Generator) {s : Snapshot} (accepted : s.Accepted) :
    (∃ c, combine (g.artifacts s) = .ok c) ∧
      ∀ (destination : Location) (resolver : Resolver) (t t' : FileTree) (conflict : Conflict),
        g.runPass s destination resolver t ≠ .error (.conflict conflict) t' := by
  obtain ⟨c, merged⟩ := combine_artifacts_exists (g := g) accepted.built
  exact ⟨⟨c, merged⟩, fun _ _ _ _ conflict => runPass_ne_conflict merged conflict⟩

namespace Adoption

/-- The second parent takes the child by a table. -/
def claimed : Snapshot := (adoption first).withExplicit (.ofList [(second, [child])])

theorem adoption_accepted : (adoption first).Accepted := by
  have built : Snapshot.ofModules ["app"] [parentModule, childModuleOf first true] =
      .ok (adoption first) := rfl
  exact .ofModules built

theorem claimed_combined : claimed.Accepted ∧ ∃ c, combine (generator.artifacts claimed) = .ok c :=
  have accepted := adoption_accepted.withExplicit _
  ⟨accepted, (combine_artifacts_ok generator accepted).1⟩

end Adoption

/-! ## Related modules -/

/-- A model touches itself, its queryset, the models that its fields relate to and its
ancestors. -/
inductive Model.Touch (d : Model) : ImportPath → Prop where
  | self : d.Touch d.path
  | queryset {path : ImportPath} (custom : d.customQueryset = some path) : d.Touch path
  | related {field : Field} {path : ImportPath} (mem : field ∈ d.fields.values)
      (other : field.relatedModel = some path) : d.Touch path
  | ancestor {path : ImportPath} (mem : path ∈ d.ancestors) : d.Touch path

theorem Model.mem_touched_iff {d : Model} {path : ImportPath} :
    path ∈ d.touched ↔ d.Touch path := by
  simp only [touched, relatedModels, List.mem_cons, List.mem_append, Option.mem_toList,
    List.mem_filterMap]
  constructor
  · rintro (((rfl | custom) | ⟨field, mem, other⟩) | mem)
    · exact .self
    · exact .queryset custom
    · exact .related mem other
    · exact .ancestor mem
  · intro touch
    cases touch with
    | self => exact .inl (.inl (.inl rfl))
    | queryset custom => exact .inl (.inl (.inr custom))
    | related mem other => exact .inl (.inr ⟨_, mem, other⟩)
    | ancestor mem => exact .inr mem

theorem mem_touchedModules_iff {concrete : List Model} {b : ImportPath} :
    b ∈ touchedModules concrete ↔
      ∃ d ∈ concrete, ∃ path, d.Touch path ∧ path.parent? = some b := by
  simp only [touchedModules, List.mem_filterMap, List.mem_flatMap, Model.mem_touched_iff]
  constructor
  · rintro ⟨path, ⟨d, mem, touch⟩, here⟩
    exact ⟨d, mem, path, touch, here⟩
  · rintro ⟨d, mem, path, touch, here⟩
    exact ⟨path, ⟨d, mem, touch⟩, here⟩

/-- A model of `m` in the module `a` has a concrete descendant that touches the module `b`. -/
def Snapshot.Links (s : Snapshot) (m : SourceModule) (a b : ImportPath) : Prop :=
  ∃ p ∈ m.models.values, p.path.parent? = some a ∧
    ∃ concrete, s.concreteModels p.path = .ok concrete ∧
      ∃ d ∈ concrete, ∃ path, d.Touch path ∧ path.parent? = some b

theorem Snapshot.touches_iff_links {s : Snapshot} {m : SourceModule} {a b : ImportPath} :
    s.Touches m a b ↔ s.Links m a b := by
  constructor
  · rintro ⟨_, concrete, ⟨⟨p, mem, rfl⟩, found, -⟩, here, touched⟩
    exact ⟨p, mem, here, concrete, found, mem_touchedModules_iff.mp touched⟩
  · rintro ⟨p, mem, here, concrete, found, d, mem_d, touch⟩
    exact ⟨p.path, concrete, aliased_of_mem mem found mem_d, here,
      mem_touchedModules_iff.mpr ⟨d, mem_d, touch⟩⟩

/-- The combined report of a pass relates two modules exactly if they differ and one links to the
other by a model of an installed module that did not fail. It has no entry without a related
module. -/
theorem mem_relatedTo_combined_iff (g : Generator) {s : Snapshot} (accepted : s.Accepted) :
    ∃ c, combine (g.artifacts s) = .ok c ∧
      (∀ a b, b ∈ c.report.relatedTo a ↔
        a ≠ b ∧ ∃ m ∈ s.moduleList, m.installed = true ∧ (∃ made, g.artifact s m = .ok made) ∧
          (s.Links m a b ∨ s.Links m b a)) ∧
      ∀ a related, c.report.relatedModules.get? a = some related → ∃ b, b ∈ related := by
  obtain ⟨c, merged⟩ := combine_artifacts_exists (g := g) accepted.built
  refine ⟨c, merged, fun a b => ?_, (unionOf_artifacts merged).proper⟩
  have related := relates_combined_iff merged (x := a) (y := b)
  simp only [Snapshot.touches_iff_links, Report.Relates] at related
  rw [related]
  refine and_congr_right fun _ => ?_
  constructor
  · rintro ⟨m, mem, made, installed, links⟩
    exact ⟨m, mem, installed, made, links⟩
  · rintro ⟨m, mem, installed, made, links⟩
    exact ⟨m, mem, made, installed, links⟩

namespace Adoption

theorem links_adoption : (adoption first).Links parentModule parents childModule :=
  ⟨abstractModel "A" first, by decide, rfl, [childOf first], rfl, childOf first, by simp, child,
    .self, rfl⟩

/-- The child's module is related to the parents' module and the other way round. -/
theorem adoption_related : (adoption first).Accepted ∧
    ∃ c, combine (generator.artifacts (adoption first)) = .ok c ∧
      childModule ∈ c.report.relatedTo parents ∧ parents ∈ c.report.relatedTo childModule := by
  obtain ⟨c, merged, related, -⟩ := mem_relatedTo_combined_iff generator adoption_accepted
  have differ : parents ≠ childModule := by decide
  have made : ∃ made, generator.artifact (adoption first) parentModule = .ok made :=
    ⟨_, artifact_of_concreteTable rfl concreteTable_first⟩
  have mem : parentModule ∈ (adoption first).moduleList := by decide
  exact ⟨adoption_accepted, c, merged,
    (related parents childModule).mpr ⟨differ, _, mem, rfl, made, .inl links_adoption⟩,
    (related childModule parents).mpr ⟨differ.symm, _, mem, rfl, made, .inr links_adoption⟩⟩

end Adoption

end VirtualModules
