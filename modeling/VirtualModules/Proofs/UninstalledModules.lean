import VirtualModules.Proofs.ArtifactLines
import VirtualModules.Proofs.SummaryKeys

/-!
# What models of modules that are not installed change

Two snapshots that differ only in the models of modules that are not installed
(`SameInstalled`) still ask all models for descendants, so a concrete model of such a module
enters the artifacts of its ancestors' modules:

* `artifact_eq_iff_sameAliases`: an installed module keeps its summary and its text exactly if it
  keeps its aliases.
* `artifact_eq_of_notAdopted`: this is so if no model outside the installed modules descends from
  a model of the module.
* `adoption_uninstalled_differs`: it is not so for the parent of a child that is not installed.
-/

namespace VirtualModules

/-! ## Aliases determine significant paths -/

/-- A path is among those of the descendants if it is a descendant or the queryset of one. -/
theorem mem_descendantPaths_iff {s : Snapshot} {m : SourceModule} {table : ConcreteTable}
    (h : concreteTable s m = .ok table) (path : ImportPath) :
    path ∈ descendantPaths table ↔ ∃ p concrete, s.Aliased m p concrete ∧
      ∃ d ∈ concrete, d.path = path ∨ d.customQueryset = some path := by
  simp only [descendantPaths, SortedSet.mem_ofList, List.mem_flatMap, List.mem_flatten]
  constructor
  · rintro ⟨d, ⟨concrete, listed, mem⟩, here⟩
    obtain ⟨⟨p, _⟩, entry, rfl⟩ := List.mem_map.mp listed
    obtain ⟨model, answers⟩ := (concreteTable_ok h _ _).mp (Table.get?_eq_some_iff.mpr entry)
    refine ⟨p, _, ⟨model, answers, List.ne_nil_of_mem mem⟩, d, mem, ?_⟩
    simpa [eq_comm, Option.mem_toList] using here
  · rintro ⟨p, concrete, ⟨model, answers, -⟩, d, mem, here⟩
    have entry := Table.get?_eq_some_iff.mp ((concreteTable_ok h p concrete).mpr ⟨model, answers⟩)
    refine ⟨d, ⟨concrete, List.mem_map.mpr ⟨_, entry, rfl⟩, mem⟩, ?_⟩
    simpa [eq_comm, Option.mem_toList] using here

theorem concreteAlias_ne_querysetAlias (p q : ImportPath) : concreteAlias p ≠ querysetAlias q := by
  intro h
  have chars := congrArg (fun i : Identifier => i.chars[8]?) h
  simp [concreteAlias, querysetAlias, concreteAliasStart, querysetAliasStart,
    Identifier.appendName, Identifier.append] at chars

/-- The type of a queryset tells a queryset of its own from the generic one. -/
theorem customQueryset_of_type {generic queryset : ImportPath} {d : Model}
    (h : querysetType generic d = queryset.text) : d.customQueryset = some queryset := by
  unfold querysetType at h
  split at h
  · next own found => rw [found, ImportPath.ext_text h]
  · have opened : '[' ∈ queryset.text.toList := by
      rw [← h]
      simp
    exact absurd opened (queryset.not_mem_text rfl (by decide))

section Transfer

variable {generic : ImportPath} {s₁ s₂ : Snapshot} {m₁ m₂ : SourceModule}

/-- Descendants and their querysets can be read off the definitions of aliases. -/
theorem descendant_of_definitions
    (transfer : ∀ name types, s₁.Defines generic m₁ name types → s₂.Defines generic m₂ name types)
    {p path : ImportPath} {concrete : List Model} (aliased : s₁.Aliased m₁ p concrete) {d : Model}
    (mem : d ∈ concrete) (here : d.path = path ∨ d.customQueryset = some path) :
    ∃ q concrete', s₂.Aliased m₂ q concrete' ∧
      ∃ e ∈ concrete', e.path = path ∨ e.customQueryset = some path := by
  rcases here with rfl | own
  · obtain ⟨q, concrete', aliased', found⟩ :=
      transfer _ _ ⟨p, concrete, aliased, List.mem_cons_self⟩
    refine ⟨q, concrete', aliased', ?_⟩
    simp only [aliasDefinitions, List.mem_cons, List.not_mem_nil, or_false, Prod.mk.injEq] at found
    rcases found with ⟨-, types⟩ | ⟨name, -⟩
    · have listed : d.path.text ∈ SortedSet.ofList (concrete.map (·.path.text)) :=
        SortedSet.mem_ofList.mpr (List.mem_map_of_mem mem)
      rw [types, SortedSet.mem_ofList, List.mem_map] at listed
      obtain ⟨e, he, same⟩ := listed
      exact ⟨e, he, .inl (ImportPath.ext_text same)⟩
    · exact absurd name (concreteAlias_ne_querysetAlias p q)
  · obtain ⟨q, concrete', aliased', found⟩ :=
      transfer _ _ ⟨p, concrete, aliased, List.mem_cons_of_mem _ List.mem_cons_self⟩
    refine ⟨q, concrete', aliased', ?_⟩
    simp only [aliasDefinitions, List.mem_cons, List.not_mem_nil, or_false, Prod.mk.injEq] at found
    rcases found with ⟨name, -⟩ | ⟨-, types⟩
    · exact absurd name.symm (concreteAlias_ne_querysetAlias q p)
    · have listed : querysetType generic d ∈ SortedSet.ofList (concrete.map (querysetType generic)) :=
        SortedSet.mem_ofList.mpr (List.mem_map_of_mem mem)
      rw [types, SortedSet.mem_ofList, List.mem_map] at listed
      obtain ⟨e, he, same⟩ := listed
      refine ⟨e, he, .inr (customQueryset_of_type (same.trans ?_))⟩
      simp [querysetType, own]

theorem descendantPaths_eq {t₁ t₂ : ConcreteTable} (h₁ : concreteTable s₁ m₁ = .ok t₁)
    (h₂ : concreteTable s₂ m₂ = .ok t₂) (same : SameAliases generic s₁ m₁ s₂ m₂) :
    descendantPaths t₁ = descendantPaths t₂ := by
  apply SortedSet.ext_mem
  intro path
  rw [mem_descendantPaths_iff h₁, mem_descendantPaths_iff h₂]
  constructor
  · rintro ⟨p, concrete, aliased, d, mem, here⟩
    exact descendant_of_definitions (fun n t => (same.definitions n t).mp) aliased mem here
  · rintro ⟨p, concrete, aliased, d, mem, here⟩
    exact descendant_of_definitions (fun n t => (same.definitions n t).mpr) aliased mem here

end Transfer

/-! ## Snapshots that agree on what is installed -/

/-- The module, without its models if it is not installed. -/
def SourceModule.installedPart (m : SourceModule) : SourceModule :=
  if m.installed then m else { m with models := ∅ }

/-- Two snapshots have the same applications and the same modules, and no module that is installed
differs between them. -/
structure SameInstalled (s₁ s₂ : Snapshot) : Prop where
  apps : s₁.installedApps = s₂.installedApps
  modules : s₁.moduleList.map SourceModule.installedPart =
    s₂.moduleList.map SourceModule.installedPart

theorem SameInstalled.symm {s₁ s₂ : Snapshot} (h : SameInstalled s₁ s₂) : SameInstalled s₂ s₁ :=
  ⟨h.apps.symm, h.modules.symm⟩

theorem SameInstalled.mem {s₁ s₂ : Snapshot} (h : SameInstalled s₁ s₂) {m : SourceModule}
    (mem : m ∈ s₁.moduleList) (installed : m.installed = true) : m ∈ s₂.moduleList := by
  have part : m ∈ s₂.moduleList.map SourceModule.installedPart := by
    rw [← h.modules, List.mem_map]
    exact ⟨m, mem, if_pos installed⟩
  obtain ⟨n, mem_n, same⟩ := List.mem_map.mp part
  unfold SourceModule.installedPart at same
  split at same
  · rwa [← same]
  · next uninstalled =>
    rw [← same] at installed
    exact absurd installed uninstalled

theorem concreteTable_derived {s : Snapshot} (built : s.Built) (derived : s.explicit = none)
    {m : SourceModule} (mem : m ∈ s.moduleList) : ∃ table, concreteTable s m = .ok table := by
  apply concreteTable_exists
  intro model mem_model
  have known := built.consistent.findModel_ok mem mem_model
  exact ⟨_, Snapshot.concreteModels_derived derived known⟩

theorem context_eq (g : Generator) {s₁ s₂ : Snapshot} (h : s₁.installedApps = s₂.installedApps) :
    g.context s₁ = g.context s₂ := by
  simp only [Generator.context, h]

/-- An installed module of two such snapshots gets artifacts in both, and they have one summary and
one text exactly if the module has the same aliases in both. -/
theorem artifact_eq_iff_sameAliases (g : Generator) {s₁ s₂ : Snapshot} (built₁ : s₁.Built)
    (built₂ : s₂.Built) (derived₁ : s₁.explicit = none) (derived₂ : s₂.explicit = none)
    (same : SameInstalled s₁ s₂) {m : SourceModule} (mem : m ∈ s₁.moduleList)
    (installed : m.installed = true) :
    m ∈ s₂.moduleList ∧ ∃ a₁ a₂, g.artifact s₁ m = .ok a₁ ∧ g.artifact s₂ m = .ok a₂ ∧
      ((a₁.summary = a₂.summary ∧ a₁.content = a₂.content) ↔
        SameAliases g.settings.genericQueryset s₁ m s₂ m) := by
  have mem₂ := same.mem mem installed
  obtain ⟨t₁, found₁⟩ := concreteTable_derived built₁ derived₁ mem
  obtain ⟨t₂, found₂⟩ := concreteTable_derived built₂ derived₂ mem₂
  have h₁ := artifact_of_concreteTable (g := g) installed found₁
  have h₂ := artifact_of_concreteTable (g := g) installed found₂
  refine ⟨mem₂, _, _, h₁, h₂, ?_⟩
  simp only [Artifact.render]
  constructor
  · rintro ⟨summaries, contents⟩
    exact (content_of_generator_eq_iff g found₁ found₂ summaries).mp contents
  · intro aliases
    have summaries : (Facts.ofConcrete (g.context s₁) m t₁).summary.text? =
        (Facts.ofConcrete (g.context s₂) m t₂).summary.text? := by
      simp only [Facts.ofConcrete, significantPaths, context_eq g same.apps,
        descendantPaths_eq found₁ found₂ aliases]
    exact ⟨summaries, (content_of_generator_eq_iff g found₁ found₂ summaries).mpr aliases⟩

/-! ## Where nothing uninstalled descends from a module -/

/-- Every known descendant of a model of `m` is defined by an installed module. -/
def Snapshot.NotAdopted (s : Snapshot) (m : SourceModule) : Prop :=
  ∀ model ∈ m.models.values, ∀ p d, s.models.get? p = some d →
    Snapshot.descendsFrom model.path d = true →
    ∃ n ∈ s.moduleList, n.installed = true ∧ d ∈ n.models.values

theorem SameInstalled.descendant_known {s₁ s₂ : Snapshot} (same : SameInstalled s₁ s₂)
    (built₁ : s₁.Built) (built₂ : s₂.Built) {m : SourceModule} (kept : s₁.NotAdopted m)
    {model : Model} (mem : model ∈ m.models.values) {p : ImportPath} {d : Model}
    (known : s₁.models.get? p = some d) (descends : Snapshot.descendsFrom model.path d = true) :
    s₂.models.get? p = some d := by
  obtain ⟨n, mem_n, installed, defined⟩ := kept model mem p d known descends
  have found := built₂.consistent.mem_moduleList_iff.mp (same.mem mem_n installed)
  rw [← built₁.consistent.model_path known]
  exact built₂.consistent.model_known found d defined

theorem SameInstalled.derivedDescendants_eq {s₁ s₂ : Snapshot} (same : SameInstalled s₁ s₂)
    (built₁ : s₁.Built) (built₂ : s₂.Built) {m : SourceModule} (kept₁ : s₁.NotAdopted m)
    (kept₂ : s₂.NotAdopted m) {model : Model} (mem : model ∈ m.models.values) :
    s₁.derivedDescendants model.path = s₂.derivedDescendants model.path := by
  have tables : s₁.models.filter (fun _ d => Snapshot.descendsFrom model.path d) =
      s₂.models.filter (fun _ d => Snapshot.descendsFrom model.path d) := by
    apply Table.ext_get?
    intro p
    apply Option.ext
    intro d
    rw [Table.get?_filter, Table.get?_filter, Option.filter_eq_some_iff,
      Option.filter_eq_some_iff]
    constructor
    · rintro ⟨known, descends⟩
      exact ⟨same.descendant_known built₁ built₂ kept₁ mem known descends, descends⟩
    · rintro ⟨known, descends⟩
      exact ⟨same.symm.descendant_known built₂ built₁ kept₂ mem known descends, descends⟩
  have values := congrArg Table.values tables
  simpa [Table.values, Table.filter, List.filter_map, Function.comp_def,
    Snapshot.derivedDescendants] using values

/-- Where only models of installed modules descend from those of a module, its artifact does not
depend on what is not installed. -/
theorem artifact_eq_of_notAdopted (g : Generator) {s₁ s₂ : Snapshot} (built₁ : s₁.Built)
    (built₂ : s₂.Built) (derived₁ : s₁.explicit = none) (derived₂ : s₂.explicit = none)
    (same : SameInstalled s₁ s₂) {m : SourceModule} (mem : m ∈ s₁.moduleList)
    (installed : m.installed = true) (kept₁ : s₁.NotAdopted m) (kept₂ : s₂.NotAdopted m) :
    ∃ a, g.artifact s₁ m = .ok a ∧ g.artifact s₂ m = .ok a := by
  have mem₂ := same.mem mem installed
  obtain ⟨t₁, found₁⟩ := concreteTable_derived built₁ derived₁ mem
  obtain ⟨t₂, found₂⟩ := concreteTable_derived built₂ derived₂ mem₂
  have tables : t₁ = t₂ := by
    apply Table.ext_get?
    intro p
    apply Option.ext
    intro concrete
    rw [concreteTable_ok found₁, concreteTable_ok found₂]
    apply and_congr_right
    rintro ⟨model, mem_model, rfl⟩
    have known₁ := built₁.consistent.findModel_ok mem mem_model
    have known₂ := built₂.consistent.findModel_ok mem₂ mem_model
    rw [Snapshot.concreteModels_derived derived₁ known₁,
      Snapshot.concreteModels_derived derived₂ known₂,
      same.derivedDescendants_eq built₁ built₂ kept₁ kept₂ mem_model]
  refine ⟨_, artifact_of_concreteTable installed found₁, ?_⟩
  rw [context_eq g same.apps, tables]
  exact artifact_of_concreteTable installed found₂

/-! ## A child that is not installed -/

namespace Adoption

/-- The two modules, where that of the child is not installed and has the given models. -/
def uninstalledAdoption (childModule : SourceModule) : Snapshot where
  installedApps := ["app"]
  modules := .ofList [(parents, parentModule), (childModule.path, childModule)]
  models := .ofList ([(first, abstractModel "A" first), (second, abstractModel "B" second)] ++
    childModule.models.values.map fun model => (model.path, model))
  explicit := none

def childless : Snapshot := uninstalledAdoption (.new childModule false)

def withChild : Snapshot := uninstalledAdoption (childModuleOf first false)

theorem childless_built : childless.Built := by
  have built : Snapshot.ofModules ["app"] [parentModule, .new childModule false] =
      .ok childless := rfl
  exact .ofModules built

theorem withChild_built : withChild.Built := by
  have built : Snapshot.ofModules ["app"] [parentModule, childModuleOf first false] =
      .ok withChild := rfl
  exact .ofModules built

theorem sameInstalled_withChild : SameInstalled childless withChild where
  apps := rfl
  modules := by decide +kernel

theorem moduleList_childless :
    childless.moduleList = [parentModule, .new childModule false] := rfl

theorem parentModule_mem : parentModule ∈ childless.moduleList := by simp [moduleList_childless]

theorem concreteTable_childless : concreteTable childless parentModule =
    .ok (.ofList [(first, []), (second, [])]) := rfl

theorem concreteTable_withChild : concreteTable withChild parentModule =
    .ok (.ofList [(first, [childOf first]), (second, [])]) := rfl

theorem uninstalled_artifacts :
    ∃ a₁ a₂, generator.artifact childless parentModule = .ok a₁ ∧
      generator.artifact withChild parentModule = .ok a₂ ∧
      a₁.summary ≠ a₂.summary ∧ a₁.content ≠ a₂.content := by
  have found₁ := artifact_of_concreteTable (g := generator) rfl concreteTable_childless
  have found₂ := artifact_of_concreteTable (g := generator) rfl concreteTable_withChild
  refine ⟨_, _, found₁, found₂, (and_iff_left_of_imp fun differ same => ?_).mpr ?_⟩
  · exact differ (summary_eq_of_content_eq MarkerPolicy.withinLine_content found₁ found₂ same)
  · decide +kernel

/-- The child is not installed and yet changes the summary and the text of its parent's module. -/
theorem adoption_uninstalled_differs :
    (childless.Built ∧ withChild.Built ∧ childless.explicit = none ∧ withChild.explicit = none) ∧
      SameInstalled childless withChild ∧
      (parentModule ∈ childless.moduleList ∧ parentModule.installed = true) ∧
      ∃ a₁ a₂, generator.artifact childless parentModule = .ok a₁ ∧
        generator.artifact withChild parentModule = .ok a₂ ∧
        a₁.summary ≠ a₂.summary ∧ a₁.content ≠ a₂.content :=
  ⟨⟨childless_built, withChild_built, rfl, rfl⟩, sameInstalled_withChild,
    ⟨parentModule_mem, rfl⟩, uninstalled_artifacts⟩

/-- With the child, the parents' module has other aliases than without. -/
theorem withChild_not_sameAliases :
    ¬ SameAliases generator.settings.genericQueryset childless parentModule withChild
      parentModule := by
  obtain ⟨a₁, a₂, h₁, h₂, differ, -⟩ := uninstalled_artifacts
  obtain ⟨-, b₁, b₂, k₁, k₂, equal_iff⟩ := artifact_eq_iff_sameAliases generator childless_built
    withChild_built rfl rfl sameInstalled_withChild parentModule_mem rfl
  intro same
  obtain ⟨summaries, -⟩ := equal_iff.mpr same
  rw [h₁] at k₁
  rw [h₂] at k₂
  cases k₁
  cases k₂
  exact differ summaries

end Adoption

end VirtualModules
