import VirtualModules.Proofs.CombinedReports
import VirtualModules.Proofs.ModuleLists
import VirtualModules.Proofs.Namespaces
import VirtualModules.Proofs.SnapshotDocuments

/-!
# The modules and names in models' paths

A model `Belongs` to its module if its path is cut at the last dot into the module's path and the
model's name. A document joins the two with a dot and accepts every name for which the whole is a
path, so it also accepts names with dots inside (`Model.Joined`).

* `belongs_iff_undotted_of_ofText`: of the models of a document exactly those with a name without
  dots belong to their modules. The report of a module that only has such models speaks for that
  module alone and gives no alias twice (`Report.SpeaksFor`).
* `dotted_shares_alias`: a model with a dot in its name gets the alias of another one.
-/

namespace VirtualModules

/-! ## Joined paths -/

namespace Model

/-- The last segment of the path is the name, and the others are the path of the module. -/
structure Belongs (model : Model) : Prop where
  nspace : model.path.parent? = some model.modulePath
  last : model.path.name.text = model.name

/-- The path is the module's path joined with the name. -/
def Joined (model : Model) : Prop := model.modulePath.join model.name = .ok model.path

theorem Belongs.undotted {model : Model} (belongs : model.Belongs) :
    '.' ∉ model.name.toList := by
  rw [← belongs.last, Identifier.text, String.toList_ofList]
  exact dot_not_mem_identifier model.path.name.valid

theorem Joined.segmentChars {model : Model} (joined : model.Joined) :
    model.path.segmentChars = model.modulePath.segmentChars ++ model.name.toList.splitOn '.' := by
  apply ImportPath.text_eq_iff.mp
  rw [ImportPath.ofString_eq_ok_iff.mp joined]
  simp

/-- A name without dots is a single segment behind those of the module. -/
theorem Joined.belongs {model : Model} (joined : model.Joined)
    (undotted : '.' ∉ model.name.toList) : model.Belongs := by
  have segments := joined.segmentChars
  rw [List.splitOn_eq_singleton undotted] at segments
  constructor
  · rw [ImportPath.parent?_eq_some_iff, segments, List.dropLast_concat]
  · have ends := model.path.segmentChars_eq_concat_name
    rw [segments, List.dropLast_concat] at ends
    have last := List.singleton_inj.mp (List.append_cancel_left ends)
    rw [Identifier.text, ← last, String.ofList_toList]

theorem Joined.belongs_iff {model : Model} (joined : model.Joined) :
    model.Belongs ↔ '.' ∉ model.name.toList :=
  ⟨Belongs.undotted, joined.belongs⟩

end Model

/-! ## Models of documents -/

/-- The models are joined to the path of the module that holds them. -/
def SourceModule.Joined (m : SourceModule) : Prop :=
  ∀ model ∈ m.models.values, model.modulePath = m.path ∧ model.Joined

theorem ModelDocument.toModel_ok {d : ModelDocument} {module : ImportPath} {model : Model}
    (h : d.toModel module = .ok model) : model.modulePath = module ∧ model.Joined := by
  unfold ModelDocument.toModel at h
  split at h
  · next base found =>
    obtain ⟨path, joined, rfl⟩ := map_eq_ok_iff.mp found
    cases h
    exact ⟨rfl, joined⟩
  · cases h

theorem SourceModule.Joined.withModel {m : SourceModule} (joined : m.Joined) {model : Model}
    (here : model.modulePath = m.path) (whole : model.Joined) : (m.withModel model).Joined := by
  intro held mem
  rw [SourceModule.withModel] at mem
  obtain ⟨name, found⟩ := Table.mem_values_iff.mp mem
  by_cases same : name = model.name
  · rw [same, Table.get?_insert_self] at found
    cases found
    exact ⟨here, whole⟩
  · rw [Table.get?_insert_ne _ same] at found
    exact joined held (Table.mem_values_iff.mpr ⟨name, found⟩)

theorem ModuleDocument.joined_of_toModule {d : ModuleDocument} {m : SourceModule}
    (h : d.toModule = .ok m) : m.Joined := by
  have start : (SourceModule.new d.path d.installed).Joined := by
    intro model mem
    cases mem
  suffices m.path = d.path ∧ m.Joined from this.2
  refine foldlM_ok_invariant (fun m : SourceModule => m.path = d.path ∧ m.Joined) ?_ ⟨rfl, start⟩ h
  intro held document next before entered
  obtain ⟨path, joined⟩ := before
  obtain ⟨model, found, done⟩ := bind_eq_ok_iff.mp entered
  cases done
  obtain ⟨here, whole⟩ := ModelDocument.toModel_ok found
  exact ⟨path, joined.withModel (here.trans path.symm) whole⟩

namespace Snapshot

/-- All models that are known or held by a module are joined. -/
structure Joined (s : Snapshot) : Prop where
  models : ∀ {path model}, s.model? path = some model → model.path = path ∧ model.Joined
  modules : ∀ m ∈ s.moduleList, m.Joined

theorem joined_of_ofModules {apps : List String} {modules : List SourceModule} {s : Snapshot}
    (joined : ∀ m ∈ modules, m.Joined) (built : ofModules apps modules = .ok s) : s.Joined := by
  constructor
  · intro path model found
    obtain ⟨mem, here⟩ := (model?_eq_some_iff built).mp found
    obtain ⟨m, listed, held⟩ := List.mem_flatMap.mp mem
    exact ⟨here, (joined m listed model held).2⟩
  · intro m mem
    obtain ⟨before, after, split, -⟩ := (mem_moduleList_iff built).mp mem
    apply joined m
    rw [split]
    exact List.mem_append_right _ List.mem_cons_self

theorem joined_of_ofText {text : String} {s : Snapshot} (h : ofText text = .ok s) : s.Joined := by
  unfold ofText at h
  split at h
  · next document _ =>
    rw [ofDocument, bind_eq_ok_iff] at h
    obtain ⟨modules, mapped, h⟩ := h
    obtain ⟨base, built, done⟩ := bind_eq_ok_iff.mp h
    cases done
    have each := mapM_ok_forall ModuleDocument.joined_of_toModule mapped
    have joined := joined_of_ofModules each built
    exact ⟨joined.models, joined.modules⟩
  · cases h

end Snapshot

/-! ## Reports and aliases -/

/-- Every relation has the module at one of its ends, and no value is bound to two paths. -/
structure Report.SpeaksFor (r : Report) (module : ImportPath) : Prop where
  related : ∀ {x y}, r.Relates x y → x = module ∨ y = module
  distinct : ∀ {kind p q value}, r.Binds kind p value → r.Binds kind q value → p = q

theorem Identifier.appendName_inj {start i j : Identifier}
    (h : start.appendName i = start.appendName j) : i = j := by
  have chars : start.chars ++ i.chars = start.chars ++ j.chars := congrArg Identifier.chars h
  cases i
  cases j
  cases List.append_cancel_left chars
  rfl

/-- Of two models of one namespace with one alias both are the same. -/
theorem eq_of_aliasPath?_eq {virtual nspace p q : ImportPath} {kind : OwnedTable}
    {value : ImportPath} (hp : p.parent? = some nspace) (hq : q.parent? = some nspace)
    (alias_p : aliasPath? virtual kind p = some value)
    (alias_q : aliasPath? virtual kind q = some value) : p = q := by
  have names : p.name = q.name := by
    cases kind with
    | concreteAliases =>
      have same := Option.some.inj (alias_p.trans alias_q.symm)
      exact Identifier.appendName_inj (ImportPath.child_inj same).2
    | querysetAliases =>
      have same := Option.some.inj (alias_p.trans alias_q.symm)
      exact Identifier.appendName_inj (ImportPath.child_inj same).2
    | virtualModules => cases alias_p
  rw [ImportPath.parent?_eq_some_iff_child.mp hp, ImportPath.parent?_eq_some_iff_child.mp hq, names]

/-- If all models of a module belong to it, the report of its artifact speaks for the module. -/
theorem speaksFor_of_belongs {g : Generator} {s : Snapshot} {m : SourceModule} {a : Artifact}
    (h : g.artifact s m = .ok a)
    (belong : ∀ model ∈ m.models.values, model.path.parent? = some m.path) :
    a.report.SpeaksFor m.path := by
  have inside : ∀ {p concrete}, s.Aliased m p concrete → p.parent? = some m.path := by
    rintro p concrete ⟨⟨model, mem, rfl⟩, -⟩
    exact belong model mem
  have starts : ∀ {x y}, s.Touches m x y → x = m.path := by
    rintro x y ⟨p, concrete, aliased, here, -⟩
    exact Option.some.inj (here.symm.trans (inside aliased))
  constructor
  · intro x y related
    obtain ⟨-, -, touches⟩ := (relates_artifact_iff h).mp related
    exact touches.imp starts starts
  · intro kind p q value hp hq
    rw [binds_artifact_iff h] at hp hq
    rcases hp with ⟨-, ⟨cs, aliased_p⟩, alias_p⟩ | ⟨rfl, rfl, -⟩
    · rcases hq with ⟨-, ⟨ds, aliased_q⟩, alias_q⟩ | ⟨rfl, -, -⟩
      · exact eq_of_aliasPath?_eq (inside aliased_p) (inside aliased_q) alias_p alias_q
      · cases alias_p
    · rcases hq with ⟨-, -, alias_q⟩ | ⟨-, rfl, -⟩
      · cases alias_q
      · rfl

/-- A document's models carry the paths of the modules that hold them, and those with a name without
dots are the ones whose own paths say so. Where all models of a module are such, the report of its
artifact speaks for the module. -/
theorem belongs_iff_undotted_of_ofText {text : String} {s : Snapshot}
    (h : Snapshot.ofText text = .ok s) :
    (∀ path model, s.model? path = some model →
        model.path = path ∧ (model.Belongs ↔ '.' ∉ model.name.toList)) ∧
      ∀ m ∈ s.moduleList,
        (∀ model ∈ m.models.values, model.modulePath = m.path ∧
          s.model? model.path = some model) ∧
        ((∀ model ∈ m.models.values, '.' ∉ model.name.toList) →
          ∀ (g : Generator) a, g.artifact s m = .ok a → a.report.SpeaksFor m.path) := by
  have joined := Snapshot.joined_of_ofText h
  have consistent := (Snapshot.built_ofText h).consistent
  constructor
  · intro path model found
    obtain ⟨here, whole⟩ := joined.models found
    exact ⟨here, whole.belongs_iff⟩
  · intro m mem
    have held := joined.modules m mem
    refine ⟨fun model defined => ⟨(held model defined).1, ?_⟩, fun undotted g a found => ?_⟩
    · exact consistent.model_known (consistent.mem_moduleList_iff.mp mem) model defined
    · apply speaksFor_of_belongs found
      intro model defined
      obtain ⟨here, whole⟩ := held model defined
      rw [← here]
      exact (whole.belongs (undotted model defined)).nspace

namespace Adoption

/-- A document of two modules. One of them has two models, and the name of one has a dot in it. -/
def dottedText : String :=
  "\x7b\"modules\":[\x7b\"import_path\":\"app.models\",\"models\":[" ++
    "\x7b\"name\":\"sub.A\",\"ancestors\":[\"ext.models.X\"]\x7d,\x7b\"name\":\"A\"\x7d]\x7d," ++
    "\x7b\"import_path\":\"ext.models\",\"models\":[\x7b\"name\":\"X\"\x7d]\x7d]\x7d"

def dottedPath : ImportPath := ⟨"app.models.sub.A", by decide⟩
def dottedNamespace : ImportPath := ⟨"app.models.sub", by decide⟩

def dottedModel : Model := ⟨"sub.A", parents, dottedPath, false, none, ∅, [child]⟩
def plainModel : Model := ⟨"A", parents, first, false, none, ∅, []⟩
def otherModel : Model := ⟨"X", childModule, child, false, none, ∅, []⟩

def dottedModule : SourceModule :=
  ((SourceModule.new parents true).withModel dottedModel).withModel plainModel

def otherModule : SourceModule := (SourceModule.new childModule true).withModel otherModel

/-- The snapshot of the document. -/
def dotted : Snapshot where
  installedApps := []
  modules := .ofList [(parents, dottedModule), (childModule, otherModule)]
  models := .ofList [(dottedPath, dottedModel), (first, plainModel), (child, otherModel)]
  explicit := none

theorem ofText_dottedText : Snapshot.ofText dottedText = .ok dotted :=
  eq_ok_of_toOption (by decide +kernel)

theorem concreteTable_dotted : concreteTable dotted dottedModule =
    .ok (.ofList [(dottedPath, [dottedModel]), (first, [plainModel])]) := rfl

theorem concreteTable_other : concreteTable dotted otherModule =
    .ok (.ofList [(child, [dottedModel, otherModel])]) := rfl

/-- The alias that both models get. -/
def sharedAlias : ImportPath :=
  (virtualPath generator.settings.nspace parents).child (concreteAlias first)

/-- The path of the model with a dot in its name names another module and another model. What the
model touches is related to that module, and its alias is that of the other model. -/
theorem dotted_shares_alias :
    Snapshot.ofText dottedText = .ok dotted ∧
      dotted.model? dottedPath = some dottedModel ∧ dottedModule ∈ dotted.moduleList ∧
      dottedModel ∈ dottedModule.models.values ∧ dottedModel.modulePath = dottedModule.path ∧
      dottedModel.path.parent? = some dottedNamespace ∧ dottedModel.path.name.text = "A" ∧
      ¬ dottedModel.Belongs ∧
      ∃ a, generator.artifact dotted dottedModule = .ok a ∧
        a.report.Relates dottedNamespace childModule ∧
        a.report.Binds .concreteAliases dottedPath sharedAlias ∧
        a.report.Binds .concreteAliases first sharedAlias := by
  have found := artifact_of_concreteTable (g := generator) (s := dotted) (m := dottedModule) rfl
    concreteTable_dotted
  refine ⟨ofText_dottedText, by decide, by decide, by decide, rfl, by decide, by decide, ?_,
    _, found, ?_, ?_, ?_⟩
  · intro belongs
    exact belongs.undotted (by decide)
  · unfold Report.Relates
    decide +kernel
  · unfold Report.Binds
    decide +kernel
  · unfold Report.Binds
    decide +kernel

/-- The other model of that module belongs to it, and the other module only has such models. -/
theorem dotted_other_speaksFor :
    Snapshot.ofText dottedText = .ok dotted ∧
      (dotted.model? first = some plainModel ∧ plainModel.Belongs) ∧
      (otherModule ∈ dotted.moduleList ∧
        ∀ model ∈ otherModule.models.values, '.' ∉ model.name.toList) ∧
      ∃ a, generator.artifact dotted otherModule = .ok a ∧ a.report.SpeaksFor childModule := by
  have known : dotted.model? first = some plainModel := by decide
  have mem : otherModule ∈ dotted.moduleList := by decide
  have undotted : ∀ model ∈ otherModule.models.values, '.' ∉ model.name.toList := by decide
  have found := artifact_of_concreteTable (g := generator) (s := dotted) (m := otherModule) rfl
    concreteTable_other
  obtain ⟨belongs, speaks⟩ := belongs_iff_undotted_of_ofText ofText_dottedText
  exact ⟨ofText_dottedText, ⟨known, (belongs _ _ known).2.mpr (by decide)⟩, ⟨mem, undotted⟩,
    _, found, (speaks _ mem).2 undotted _ _ found⟩

end Adoption

end VirtualModules
