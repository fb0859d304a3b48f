import VirtualModules.Proofs.ModuleLists

/-!
# Which facts of a model matter

Of the fields of a model only the models they relate to matter, and of its ancestors only which ones
they are: not the names and types of the fields, not the fields without a relation, and neither the
order nor the repetition of ancestors. Snapshots that agree on the rest (`Snapshot.Alike`) give the
same artifacts and the same failures (`artifacts_eq_of_alike`).

Two runs are compared step by step. The descendants of a model are looked up in the tables of the
snapshot, so both runs find models that agree one by one or stop at the same unknown path
(`concreteModels_alike`). All that is made of them afterwards are sets: the aliases, the imports, the
significant paths and the related modules (`render_eq_of_alike`).
-/

namespace VirtualModules

/-! ## What agrees -/

/-- Two models agree on everything but the order and repetition of their ancestors and on which
fields, of which types, hold their relations. -/
structure Model.Alike (a b : Model) : Prop where
  name : a.name = b.name
  modulePath : a.modulePath = b.modulePath
  path : a.path = b.path
  isAbstract : a.isAbstract = b.isAbstract
  customQueryset : a.customQueryset = b.customQueryset
  ancestors : ∀ p, p ∈ a.ancestors ↔ p ∈ b.ancestors
  relatedModels : ∀ p, p ∈ a.relatedModels ↔ p ∈ b.relatedModels

/-- Two modules have one path, are both installed or both not, and define models that agree. -/
structure SourceModule.Alike (m n : SourceModule) : Prop where
  path : m.path = n.path
  installed : m.installed = n.installed
  models : Table.Related Model.Alike m.models n.models

/-- Two snapshots have the same applications and the same explicit table, and modules and models
that agree. -/
structure Snapshot.Alike (s t : Snapshot) : Prop where
  installedApps : s.installedApps = t.installedApps
  modules : Table.Related SourceModule.Alike s.modules t.modules
  models : Table.Related Model.Alike s.models t.models
  explicit : s.explicit = t.explicit

theorem Model.Alike.refl (m : Model) : m.Alike m :=
  ⟨rfl, rfl, rfl, rfl, rfl, fun _ => .rfl, fun _ => .rfl⟩

theorem SourceModule.Alike.refl (m : SourceModule) : m.Alike m :=
  ⟨rfl, rfl, .refl Model.Alike.refl m.models⟩

/-- Two lists of models agree one by one. -/
abbrev AlikeModels : List Model → List Model → Prop := List.Forall₂ Model.Alike

/-! ## Lists side by side -/

section Lists

variable {α β : Type} {R : α → α → Prop} {l l' : List α}

/-- Of lists that are related one by one, both or none have a member of some kind. -/
theorem exists_mem_iff_of_forall₂ {P : α → Prop} (same : ∀ {a b}, R a b → (P a ↔ P b))
    (related : List.Forall₂ R l l') : (∃ a ∈ l, P a) ↔ ∃ b ∈ l', P b := by
  induction related with
  | nil => simp
  | cons first _ ih => rw [List.exists_mem_cons_iff, List.exists_mem_cons_iff, same first, ih]

theorem map_eq_of_forall₂ {f : α → β} (same : ∀ {a b}, R a b → f a = f b)
    (related : List.Forall₂ R l l') : l.map f = l'.map f := by
  induction related with
  | nil => rfl
  | cons first _ ih => rw [List.map_cons, List.map_cons, same first, ih]

theorem filterMap_eq_of_forall₂ {f g : α → Option β} (same : ∀ {a b}, R a b → f a = g b)
    (related : List.Forall₂ R l l') : l.filterMap f = l'.filterMap g := by
  induction related with
  | nil => rfl
  | cons first _ ih => rw [List.filterMap_cons, List.filterMap_cons, same first, ih]

theorem flatMap_eq_of_forall₂ {f : α → List β} (same : ∀ {a b}, R a b → f a = f b)
    (related : List.Forall₂ R l l') : l.flatMap f = l'.flatMap f := by
  rw [List.flatMap_def, List.flatMap_def, map_eq_of_forall₂ (f := f) same related]

/-- Lists that are related one by one stay so if they are sorted by what agrees. -/
theorem forall₂_mergeSort {le : α → α → Bool}
    (agree : ∀ {a a' b b'}, R a a' → R b b' → le a b = le a' b')
    (related : List.Forall₂ R l l') : List.Forall₂ R (l.mergeSort le) (l'.mergeSort le) := by
  -- both are sorted at once, as the two sides of a list of pairs
  obtain ⟨lengths, pairs⟩ := List.forall₂_iff_zip.mp related
  have left : (l.zip l').map Prod.fst = l := List.map_fst_zip (Nat.le_of_eq lengths)
  have right : (l.zip l').map Prod.snd = l' := List.map_snd_zip (Nat.le_of_eq lengths.symm)
  generalize l.zip l' = zipped at left right pairs
  subst left right
  rw [← List.map_mergeSort (r := fun p q => le p.1 q.1) fun _ _ _ _ => rfl,
    ← List.map_mergeSort (r := fun p q => le p.1 q.1)
      fun a mem_a b mem_b => agree (pairs mem_a) (pairs mem_b),
    List.forall₂_map_left_iff, List.forall₂_map_right_iff, List.forall₂_same]
  intro p mem
  exact pairs (List.mem_mergeSort.mp mem)

end Lists

/-! ## Snapshots of modules that agree -/

namespace Snapshot

theorem insertModel_alike {owner owner' : ImportPath} (owners : owner = owner')
    {models models' : Table ImportPath Model} (known : Table.Related Model.Alike models models')
    {a b : Model} (alike : a.Alike b) :
    RelatedResults (Table.Related Model.Alike) (insertModel owner models a)
      (insertModel owner' models' b) := by
  subst owners
  have found := known a.path
  rw [alike.path] at found
  rw [insertModel, insertModel, alike.path]
  generalize models.get? b.path = left at found
  generalize models'.get? b.path = right at found
  cases found with
  | some existing =>
    simp only [existing.modulePath]
    exact .error _
  | none => exact .ok (known.insert b.path alike)

theorem insertModule_alike {s t : Snapshot} (alike : s.Alike t) {m n : SourceModule}
    (modules : m.Alike n) : RelatedResults Alike (s.insertModule m) (t.insertModule n) := by
  have entered := RelatedResults.foldlM (insertModel_alike modules.path) modules.models.values
    alike.models
  refine entered.bind fun models => .ok ?_
  refine ⟨alike.installedApps, ?_, models, alike.explicit⟩
  rw [modules.path]
  exact alike.modules.insert n.path modules

/-- Modules that agree one by one make snapshots that agree, or fail for the same reason. -/
theorem ofModules_alike (apps : List String) {l₁ l₂ : List SourceModule}
    (modules : List.Forall₂ SourceModule.Alike l₁ l₂) :
    RelatedResults Alike (ofModules apps l₁) (ofModules apps l₂) :=
  RelatedResults.foldlM insertModule_alike modules ⟨rfl, fun _ => .none, fun _ => .none, rfl⟩

/-! ## Descendants -/

theorem descendsFrom_eq_of_alike (parent : ImportPath) {a b : Model} (alike : a.Alike b) :
    descendsFrom parent a = descendsFrom parent b := by
  have ancestors : a.ancestors.contains parent = b.ancestors.contains parent := by
    rw [Bool.eq_iff_iff, List.contains_iff_mem, List.contains_iff_mem, alike.ancestors]
  rw [descendsFrom, descendsFrom, alike.isAbstract, alike.path, ancestors]

section Descendants

variable {s t : Snapshot} (alike : s.Alike t)

include alike

theorem findModel_alike (path : ImportPath) :
    RelatedResults Model.Alike (s.findModel path) (t.findModel path) := by
  have found := alike.models path
  rw [findModel, findModel, model?, model?]
  generalize s.models.get? path = left at found
  generalize t.models.get? path = right at found
  cases found with
  | some models => exact .ok models
  | none => exact .error _

/-- The models that descend by their ancestors agree one by one. -/
theorem derivedDescendants_alike (parent : ImportPath) :
    AlikeModels (s.derivedDescendants parent) (t.derivedDescendants parent) := by
  refine List.rel_filter ?_ alike.models.values
  intro a b models
  simp only [descendsFrom_eq_of_alike parent models]

/-- The descendants of a model agree one by one, or the same path is unknown to both snapshots. -/
theorem concreteModels_alike (parent : ImportPath) :
    RelatedResults AlikeModels (s.concreteModels parent) (t.concreteModels parent) := by
  refine (findModel_alike alike parent).bind fun _ => ?_
  have explicit : s.explicit? parent = t.explicit? parent := by
    rw [explicit?, explicit?, alike.explicit]
  rw [explicit]
  cases t.explicit? parent with
  | none => exact .ok (derivedDescendants_alike alike parent)
  | some paths =>
    refine (RelatedResults.mapM (findModel_alike alike) paths).bind fun found => .ok ?_
    refine forall₂_mergeSort (fun left right => ?_) found
    rw [left.path, right.path]

theorem concreteTable_alike {m n : SourceModule} (modules : m.Alike n) :
    RelatedResults (Table.Related AlikeModels) (concreteTable s m) (concreteTable t n) := by
  refine RelatedResults.foldlM (fun tables _ _ models => ?_) modules.models.values fun _ => .none
  rw [models.path]
  exact (concreteModels_alike alike _).bind fun found => .ok (tables.insert _ found)

end Descendants

end Snapshot

/-! ## Facts -/

theorem relatedPaths_eq_of_alike {m n : SourceModule} (modules : m.Alike n) :
    relatedPaths m = relatedPaths n := by
  apply SortedSet.ext_mem
  intro p
  rw [relatedPaths, relatedPaths, SortedSet.mem_ofList, SortedSet.mem_ofList, List.mem_flatMap,
    List.mem_flatMap]
  refine exists_mem_iff_of_forall₂ (fun models => ?_) modules.models.values
  simp only [List.mem_append, List.mem_cons, models.path, models.customQueryset,
    models.relatedModels]

theorem descendantPaths_eq_of_alike {table table' : ConcreteTable}
    (tables : Table.Related AlikeModels table table') :
    descendantPaths table = descendantPaths table' := by
  rw [descendantPaths, descendantPaths]
  congr 1
  refine flatMap_eq_of_forall₂ (fun models => ?_) (List.rel_flatten tables.values)
  rw [models.path, models.customQueryset]

/-- The facts of two modules have the same summary and marker, and the same models with descendants
that agree one by one. -/
structure Facts.Alike (f f' : Facts) : Prop where
  summary : f.summary = f'.summary
  marker : f.marker = f'.marker
  concrete : Table.Related AlikeModels f.concrete f'.concrete

theorem ofConcrete_alike (c : PassContext) {m n : SourceModule} (modules : m.Alike n)
    {table table' : ConcreteTable} (tables : Table.Related AlikeModels table table') :
    (Facts.ofConcrete c m table).Alike (Facts.ofConcrete c n table') := by
  have significant : significantPaths m table = significantPaths n table' := by
    rw [significantPaths, significantPaths, relatedPaths_eq_of_alike modules,
      descendantPaths_eq_of_alike tables]
  have summary : (Facts.ofConcrete c m table).summary = (Facts.ofConcrete c n table').summary := by
    simp only [Facts.ofConcrete, modules.path, significant]
  refine ⟨summary, ?_, tables⟩
  rw [marker_ofConcrete, marker_ofConcrete, summary]

theorem gather_alike (c : PassContext) {s t : Snapshot} (alike : s.Alike t) {m n : SourceModule}
    (modules : m.Alike n) :
    RelatedResults Facts.Alike (Facts.gather c s m) (Facts.gather c t n) := by
  rw [Facts.gather, Facts.gather, modules.installed]
  split
  · have tables := Snapshot.concreteTable_alike alike modules
    exact tables.bind fun tables => .ok (ofConcrete_alike c modules tables)
  · refine .ok ⟨?_, rfl, fun _ => .none⟩
    simp only [Facts.ofUninstalled, modules.path]

/-! ## Artifacts -/

theorem mem_touchedModules_iff_of_alike {concrete concrete' : List Model}
    (alike : AlikeModels concrete concrete') (p : ImportPath) :
    p ∈ touchedModules concrete ↔ p ∈ touchedModules concrete' := by
  simp only [touchedModules, List.mem_filterMap, List.mem_flatMap]
  refine exists_congr fun path => and_congr_left fun _ => ?_
  refine exists_mem_iff_of_forall₂ (fun models => ?_) alike
  simp only [Model.touched, List.mem_append, List.mem_cons, models.path, models.customQueryset,
    models.relatedModels, models.ancestors]

theorem aliasLines_eq_of_alike (generic model : ImportPath) {concrete concrete' : List Model}
    (alike : AlikeModels concrete concrete') :
    aliasLines generic model concrete = aliasLines generic model concrete' := by
  have paths : concrete.map (·.path.text) = concrete'.map (·.path.text) :=
    map_eq_of_forall₂ (fun models => by rw [models.path]) alike
  have querysets : concrete.map (querysetType generic) = concrete'.map (querysetType generic) := by
    refine map_eq_of_forall₂ (fun models => ?_) alike
    rw [querysetType, querysetType, models.customQueryset, models.path]
  rw [aliasLines, aliasLines, paths, querysets]

theorem aliasImports_eq_of_alike (generic model : ImportPath) {concrete concrete' : List Model}
    (alike : AlikeModels concrete concrete') :
    aliasImports generic model concrete = aliasImports generic model concrete' := by
  rw [aliasImports, aliasImports]
  congr 1
  refine flatMap_eq_of_forall₂ (fun models => ?_) alike
  rw [models.path, models.customQueryset]

section Rendering

variable {f f' : Facts} (alike : f.Alike f')

include alike

/-- The models that get aliases are the same, with descendants that agree. -/
theorem aliased_alike : List.Forall₂ (fun a b : ImportPath × List Model =>
    a.1 = b.1 ∧ AlikeModels a.2 b.2) f.aliased f'.aliased := by
  refine List.rel_filter ?_ alike.concrete.entries
  rintro ⟨model, concrete⟩ ⟨model', concrete'⟩ ⟨-, models⟩
  cases models with
  | nil => simp
  | cons => simp

theorem lines_eq_of_alike (generic : ImportPath) : f.lines generic = f'.lines generic := by
  have aliased := aliased_alike alike
  have aliases : f.aliasLines generic = f'.aliasLines generic := by
    rw [Facts.aliasLines, Facts.aliasLines]
    congr 1
    refine flatMap_eq_of_forall₂ ?_ aliased
    rintro ⟨model, concrete⟩ ⟨_, concrete'⟩ ⟨rfl, models⟩
    exact aliasLines_eq_of_alike generic model models
  have imports : f.imports generic = f'.imports generic := by
    rw [Facts.imports, Facts.imports]
    congr 1
    refine flatMap_eq_of_forall₂ ?_ aliased
    rintro ⟨model, concrete⟩ ⟨_, concrete'⟩ ⟨rfl, models⟩
    exact aliasImports_eq_of_alike generic model models
  rw [Facts.lines, Facts.lines, Facts.headLines, Facts.headLines, Facts.aliasBlock,
    Facts.aliasBlock, aliases, imports, alike.summary, alike.marker]

/-- The relations are entered in another order, but they are the same ones. -/
theorem report_eq_of_alike : f.report = f'.report := by
  have aliased := aliased_alike alike
  refine Report.ext_answers f.proper_report f'.proper_report ?_ ?_
  · intro kind key value
    have keys : (∃ concrete, (key, concrete) ∈ f.aliased) ↔
        ∃ concrete, (key, concrete) ∈ f'.aliased := by
      have same := map_eq_of_forall₂ (f := Prod.fst) And.left aliased
      simpa using congrArg (key ∈ ·) same
    rw [Facts.binds_report_iff, Facts.binds_report_iff, keys, alike.summary]
  · intro a b
    have joined := exists_mem_iff_of_forall₂
      (P := fun e => ∃ modulePath, e.1.parent? = some modulePath ∧
        ∃ other ∈ touchedModules e.2, Joins modulePath other a b)
      (fun both => by simp only [both.1, mem_touchedModules_iff_of_alike both.2]) aliased
    simpa only [Facts.relates_report_iff, Prod.exists] using joined

/-- Facts that agree are rendered to one artifact. -/
theorem render_eq_of_alike (generic : ImportPath) :
    Artifact.render generic f = Artifact.render generic f' := by
  rw [Artifact.render, Artifact.render, Facts.content, Facts.content,
    lines_eq_of_alike alike generic, report_eq_of_alike alike, alike.summary]

end Rendering

theorem artifact_eq_of_alike (g : Generator) {s t : Snapshot} (alike : s.Alike t)
    {m n : SourceModule} (modules : m.Alike n) : g.artifact s m = g.artifact t n := by
  have context : g.context s = g.context t := by
    rw [Generator.context, Generator.context, alike.installedApps]
  rw [Generator.artifact, Generator.artifact, context]
  exact (gather_alike _ alike modules).map_eq fun facts => render_eq_of_alike facts _

/-- Snapshots that agree on what matters give the same artifacts, each with its virtual module, its
summary, its text and its report, and the same failures. -/
theorem artifacts_eq_of_alike (g : Generator) {s t : Snapshot} (alike : s.Alike t) :
    g.artifacts s = g.artifacts t ∧ g.failures s = g.failures t := by
  have modules : List.Forall₂ SourceModule.Alike s.moduleList t.moduleList := alike.modules.values
  constructor
  · refine filterMap_eq_of_forall₂ (fun both => ?_) modules
    rw [artifact_eq_of_alike g alike both]
  · refine filterMap_eq_of_forall₂ (fun both => ?_) modules
    rw [artifact_eq_of_alike g alike both, both.path]

/-! ## A child that is described in two ways -/

namespace Adoption

/-- The child with other ancestors and with fields. -/
def describedChild (ancestors : List ImportPath) (fields : Table String Field) : Model :=
  { childOf first with ancestors, fields }

def integerField : ImportPath := ⟨"django.db.models.IntegerField", by decide⟩
def foreignKey : ImportPath := ⟨"django.db.models.ForeignKey", by decide⟩
def oneToOne : ImportPath := ⟨"django.db.models.OneToOneField", by decide⟩

/-- The child with a plain field and a relation. -/
def childBefore : Model :=
  describedChild [first, second] (.ofList [("age", ⟨integerField, none⟩),
    ("owner", ⟨foreignKey, some second⟩)])

/-- The child without the plain field, with the relation in another field, and with its ancestors
in another order and one of them twice. -/
def childAfter : Model :=
  describedChild [second, first, second] (.ofList [("keeper", ⟨oneToOne, some second⟩)])

theorem child_alike : childBefore.Alike childAfter where
  name := rfl
  modulePath := rfl
  path := rfl
  isAbstract := rfl
  customQueryset := rfl
  ancestors p := by
    simp only [childBefore, childAfter, describedChild, List.mem_cons, List.not_mem_nil]
    tauto
  relatedModels p := by
    have before : childBefore.relatedModels = [second] := rfl
    have after : childAfter.relatedModels = [second] := rfl
    rw [before, after]

/-- The modules of the parents and of a child. -/
def familyOf (model : Model) : List SourceModule :=
  [parentModule, (SourceModule.new childModule true).withModel model]

theorem familyOf_alike {a b : Model} (alike : a.Alike b) :
    List.Forall₂ SourceModule.Alike (familyOf a) (familyOf b) := by
  have empty : Table.Related Model.Alike (∅ : Table String Model) ∅ := fun _ => .none
  have child : ((SourceModule.new childModule true).withModel a).Alike
      ((SourceModule.new childModule true).withModel b) := by
    refine ⟨rfl, rfl, ?_⟩
    simp only [SourceModule.withModel, alike.name]
    exact empty.insert b.name alike
  exact .cons (.refl parentModule) (.cons child .nil)

/-- Both descriptions of the child give the same artifacts. -/
theorem described_artifacts : ∃ s t, Snapshot.ofModules ["app"] (familyOf childBefore) = .ok s ∧
    Snapshot.ofModules ["app"] (familyOf childAfter) = .ok t ∧ s ≠ t ∧ s.Alike t ∧
      generator.artifacts s = generator.artifacts t ∧
      generator.failures s = generator.failures t := by
  obtain ⟨s, before⟩ : ∃ s, Snapshot.ofModules ["app"] (familyOf childBefore) = .ok s := ⟨_, rfl⟩
  obtain ⟨t, after⟩ : ∃ t, Snapshot.ofModules ["app"] (familyOf childAfter) = .ok t := ⟨_, rfl⟩
  have alike : s.Alike t := by
    have related := Snapshot.ofModules_alike ["app"] (familyOf_alike child_alike)
    rw [before, after] at related
    cases related with
    | ok alike => exact alike
  have differ : Snapshot.ofModules ["app"] (familyOf childBefore) ≠
      Snapshot.ofModules ["app"] (familyOf childAfter) := by
    decide
  rw [before, after, ne_eq, Except.ok.injEq] at differ
  exact ⟨s, t, before, after, differ, alike, artifacts_eq_of_alike generator alike⟩

end Adoption

end VirtualModules
