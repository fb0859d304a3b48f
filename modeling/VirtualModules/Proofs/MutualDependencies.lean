import VirtualModules.Proofs.AdditionalDependencies
import VirtualModules.Proofs.Histories
import VirtualModules.Proofs.PassReports

/-!
# Dependencies in both directions

A combined report relates modules in both directions, so a way from module to module can be walked
backwards (`Report.Reaches.symm`). Whatever a module reaches reaches it, and where the virtual
modules of a pass differ, two modules get dependencies on each other's virtual modules or neither
does (`dependsOn_comm`).
-/

namespace VirtualModules

/-! ## Ways back -/

namespace Report.Reaches

variable {r : Report} {start start' : ImportPath → Prop} {a b : ImportPath}

/-- What is reached from modules that are reached is reached. -/
theorem trans (steps : ∀ m, start' m → r.Reaches start m) (reached : r.Reaches start' b) :
    r.Reaches start b :=
  reached.extend (.refl r) fun m starts _ => steps m starts

/-- If modules are related in both directions, whatever a known module reaches reaches it. -/
theorem symm (both : ∀ x y, r.Relates x y → r.Relates y x)
    (known_a : r.virtualModules.contains a = true) (reached : r.Reaches (· = a) b) :
    r.Reaches (· = b) a := by
  induction reached with
  | seed starts _ => exact .seed starts.symm known_a
  | @related m n reached step known_n ih =>
    -- the last step back, and then the way back from where it leads
    have last : r.Reaches (· = n) m :=
      .related (.seed rfl known_n) (both m n step) reached.known
    refine ih.trans fun x here => ?_
    rw [here]
    exact last

end Report.Reaches

/-! ## Files that import nothing -/

/-- A file that imports nothing and depends on nothing else gets a dependency on `v`. -/
def Report.DependsOn (r : Report) (c : ClosureSettings) (settingsModule : Option ImportPath)
    (file v : ImportPath) : Prop :=
  ∃ d ∈ r.additionalDeps ⟨file, [], [], settingsModule⟩ c, d.module = v

/-- The dependencies are those on the virtual modules of what the file reaches. -/
theorem Report.dependsOn_iff {r : Report} {c : ClosureSettings} {settingsModule : Option ImportPath}
    {file v : ImportPath} (included : ¬ c.Excludes file) :
    r.DependsOn c settingsModule file v ↔
      ∃ m, r.Reaches (· = file) m ∧ r.virtualModules.get? m = some v := by
  have starts : DepsRequest.Starts ⟨file, [], [], settingsModule⟩ = (· = file) := by
    funext m
    simp [DepsRequest.Starts]
  change Listed _ v ↔ _
  rw [listed_additionalDeps_iff (q := ⟨file, [], [], settingsModule⟩) included, starts]
  simp [Listed, DepsRequest.readsSettings]

/-! ## The modules of a pass -/

/-- The module at `p` gives an artifact. -/
def Generator.Generates (g : Generator) (s : Snapshot) (p : ImportPath) : Prop :=
  ∃ m ∈ s.moduleList, m.path = p ∧ ∃ a, g.artifact s m = .ok a

section Combined

variable {g : Generator} {s : Snapshot} {c : Combined}

theorem get?_virtualModules_iff (merged : combine (g.artifacts s) = .ok c) {p v : ImportPath} :
    c.report.virtualModules.get? p = some v ↔
      g.Generates s p ∧ v = virtualPath g.settings.nspace p := by
  have bound : c.report.Binds .virtualModules p v ↔ _ := binds_combined_iff merged
  refine bound.trans ?_
  constructor
  · rintro ⟨m, mem, made, ⟨-, -, bound⟩ | ⟨-, rfl, rfl⟩⟩
    · cases bound
    · exact ⟨⟨m, mem, rfl, made⟩, rfl⟩
  · rintro ⟨⟨m, mem, rfl, made⟩, rfl⟩
    exact ⟨m, mem, made, .inr ⟨rfl, rfl, rfl⟩⟩

theorem relates_symm (merged : combine (g.artifacts s) = .ok c) (x y : ImportPath)
    (related : c.report.Relates x y) : c.report.Relates y x := by
  obtain ⟨differ, m, mem, made, installed, touches⟩ := (relates_combined_iff merged).mp related
  exact (relates_combined_iff merged).mpr ⟨differ.symm, m, mem, made, installed, touches.symm⟩

/-- Where virtual modules differ, the one of a module stands for just this module. -/
theorem dependsOn_iff_reaches (merged : combine (g.artifacts s) = .ok c)
    (distinct : VirtuallyDistinct g.settings.nspace (g.Generates s)) {cs : ClosureSettings}
    {settingsModule : Option ImportPath} {a b v : ImportPath} (included : ¬ cs.Excludes a)
    (bound : c.report.virtualModules.get? b = some v) :
    c.report.DependsOn cs settingsModule a v ↔ c.report.Reaches (· = a) b := by
  rw [Report.dependsOn_iff included]
  constructor
  · rintro ⟨m, reached, found⟩
    obtain ⟨made_b, rfl⟩ := (get?_virtualModules_iff merged).mp bound
    obtain ⟨made_m, same⟩ := (get?_virtualModules_iff merged).mp found
    rwa [distinct b m made_b made_m same]
  · intro reached
    exact ⟨b, reached, bound⟩

end Combined

/-- In the combined report of a pass whose virtual modules differ, a module depends on the virtual
module of another one exactly if there is a way from it to the other one over related modules, and
so exactly if the other one depends on its virtual module. -/
theorem dependsOn_comm (g : Generator) {s : Snapshot} (accepted : s.Accepted)
    (distinct : VirtuallyDistinct g.settings.nspace (g.Generates s)) (cs : ClosureSettings) :
    ∃ c, combine (g.artifacts s) = .ok c ∧ ∀ a b va vb,
      c.report.virtualModules.get? a = some va → c.report.virtualModules.get? b = some vb →
      ¬ cs.Excludes a → ¬ cs.Excludes b → ∀ settings settings',
        (c.report.DependsOn cs settings a vb ↔ c.report.Reaches (· = a) b) ∧
          (c.report.DependsOn cs settings a vb ↔ c.report.DependsOn cs settings' b va) := by
  obtain ⟨c, merged⟩ := combine_artifacts_exists (g := g) accepted.built
  refine ⟨c, merged, ?_⟩
  intro a b va vb bound_a bound_b included_a included_b settings settings'
  have from_a : c.report.DependsOn cs settings a vb ↔ c.report.Reaches (· = a) b :=
    dependsOn_iff_reaches merged distinct included_a bound_b
  have from_b : c.report.DependsOn cs settings' b va ↔ c.report.Reaches (· = b) a :=
    dependsOn_iff_reaches merged distinct included_b bound_a
  refine ⟨from_a, ?_⟩
  rw [from_a, from_b]
  constructor
  · exact Report.Reaches.symm (relates_symm merged) (Search.contains_of_get? bound_a)
  · exact Report.Reaches.symm (relates_symm merged) (Search.contains_of_get? bound_b)

namespace Adoption

theorem generates_adoption {p : ImportPath} (path : p = parents ∨ p = childModule) :
    generator.Generates (adoption first) p := by
  have none := adoption_failures first (.inl rfl)
  have modules : (adoption first).moduleList = [parentModule, childModuleOf first true] :=
    moduleList_adoption (.inl rfl)
  rcases path with rfl | rfl
  · have mem : parentModule ∈ (adoption first).moduleList := by simp [modules]
    exact ⟨_, mem, rfl, artifact_of_failures_eq_nil none mem⟩
  · have mem : childModuleOf first true ∈ (adoption first).moduleList := by simp [modules]
    exact ⟨_, mem, rfl, artifact_of_failures_eq_nil none mem⟩

theorem generates_distinct :
    VirtuallyDistinct generator.settings.nspace (generator.Generates (adoption first)) := by
  rintro p q ⟨m, mem_m, path_m, -⟩ ⟨n, mem_n, path_n, -⟩ same
  exact (twoModules_adoption (.inl rfl)).distinct p q ⟨m, mem_m, path_m⟩ ⟨n, mem_n, path_n⟩ same

theorem adoption_included {p : ImportPath} (path : p = parents ∨ p = childModule) :
    ¬ generator.settings.closureSettings.Excludes p := by
  rw [← ClosureSettings.excludes_iff]
  rcases path with rfl | rfl <;> decide

/-- The parents' module and the child's depend on each other's virtual modules. -/
theorem adoption_mutual : (adoption first).Accepted ∧
    VirtuallyDistinct generator.settings.nspace (generator.Generates (adoption first)) ∧
    ∃ c, combine (generator.artifacts (adoption first)) = .ok c ∧
      c.report.DependsOn generator.settings.closureSettings none parents
        (virtualPath generator.settings.nspace childModule) ∧
      c.report.DependsOn generator.settings.closureSettings none childModule
        (virtualPath generator.settings.nspace parents) := by
  obtain ⟨c, merged, mutual_iff⟩ := dependsOn_comm generator adoption_accepted generates_distinct
    generator.settings.closureSettings
  have bound : ∀ {p}, p = parents ∨ p = childModule → c.report.virtualModules.get? p =
      some (virtualPath generator.settings.nspace p) := fun path =>
    (get?_virtualModules_iff merged).mpr ⟨generates_adoption path, rfl⟩
  have related : c.report.Relates parents childModule := by
    have mem : parentModule ∈ (adoption first).moduleList := by
      simp [moduleList_adoption (.inl rfl)]
    have made := artifact_of_failures_eq_nil (adoption_failures first (.inl rfl)) mem
    have touches := Snapshot.touches_iff_links.mpr links_adoption
    exact (relates_combined_iff merged).mpr
      ⟨by decide, parentModule, mem, made, rfl, .inl touches⟩
  have reached : c.report.Reaches (· = parents) childModule :=
    .related (.seed rfl (Search.contains_of_get? (bound (.inl rfl)))) related
      (Search.contains_of_get? (bound (.inr rfl)))
  obtain ⟨to_child, both⟩ := mutual_iff parents childModule _ _ (bound (.inl rfl))
    (bound (.inr rfl)) (adoption_included (.inl rfl)) (adoption_included (.inr rfl)) none none
  have depends := to_child.mpr reached
  exact ⟨adoption_accepted, generates_distinct, c, merged, depends, both.mp depends⟩

end Adoption

end VirtualModules
