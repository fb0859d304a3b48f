import VirtualModules.Proofs.CombinedReports

/-!
# Snapshots of lists of modules

A list of modules makes a snapshot exactly if no two models have one path, and then its tables are
those of the modules and of their models (`ofModules_eq_ok_iff`). Of several modules with one path
the last one counts, but the models of all of them are known:

* `Snapshot.owned_iff_pairwise`: each model that is known is held by just one module exactly if no
  module with models is followed by another one of its path.
* `Adoption.parted_not_owned`: the model of a module that is followed by another one of its path is
  known, and no module holds it.
* `ofModules_perm`: modules with different paths make the same snapshot in any order.
-/

namespace VirtualModules

/-- A relation holds from each item of a list to all later ones exactly if it does so at each way to
cut the list at an item. -/
theorem pairwise_iff_splits {α : Type} {R : α → α → Prop} {l : List α} :
    l.Pairwise R ↔ ∀ before a after, l = before ++ a :: after → ∀ b ∈ after, R a b := by
  constructor
  · rintro pairwise before a after rfl
    exact (List.pairwise_cons.mp (List.pairwise_append.mp pairwise).2.1).1
  · intro splits
    induction l with
    | nil => exact .nil
    | cons a rest ih =>
      refine .cons (splits [] a rest rfl) (ih fun before b after split => ?_)
      exact splits (a :: before) b after (by rw [split, List.cons_append])

namespace Snapshot

/-- The models that some modules define. -/
def modelsOf (modules : List SourceModule) : List Model := modules.flatMap (·.models.values)

variable {apps : List String} {modules : List SourceModule} {s : Snapshot}

/-! ## The tables of a list -/

theorem insertModule_eq_ok_iff {m : SourceModule} {s' : Snapshot} : s.insertModule m = .ok s' ↔
    (m.models.values.map (·.path)).Nodup ∧
      (∀ model ∈ m.models.values, s.models.get? model.path = none) ∧
      s' = { s with
        models := s.models.insertAll (·.path) m.models.values
        modules := s.modules.insert m.path m } := by
  simp only [insertModule, bind_eq_ok_iff, foldlM_insertModel_eq_ok_iff]
  constructor
  · rintro ⟨models, ⟨distinct, fresh, rfl⟩, done⟩
    cases done
    exact ⟨distinct, fresh, rfl⟩
  · rintro ⟨distinct, fresh, rfl⟩
    exact ⟨_, ⟨distinct, fresh, rfl⟩, rfl⟩

/-- Entering a module and then others is possible if no path of a model repeats or is taken. -/
theorem fresh_cons_iff {start : Table ImportPath Model} {m : SourceModule} :
    (((modelsOf (m :: modules)).map (·.path)).Nodup ∧
        ∀ model ∈ modelsOf (m :: modules), start.get? model.path = none) ↔
      ((m.models.values.map (·.path)).Nodup ∧
          ∀ model ∈ m.models.values, start.get? model.path = none) ∧
        ((modelsOf modules).map (·.path)).Nodup ∧
          ∀ model ∈ modelsOf modules,
            (start.insertAll (·.path) m.models.values).get? model.path = none := by
  simp only [modelsOf, List.flatMap_cons, List.map_append, List.nodup_append, List.forall_mem_append,
    Table.get?_insertAll_eq_none_iff, List.forall_mem_map]
  constructor
  · rintro ⟨⟨first, rest, apart⟩, fresh, rest_fresh⟩
    exact ⟨⟨first, fresh⟩, rest, fun model mem =>
      ⟨fun other mem_other => apart other mem_other model mem, rest_fresh model mem⟩⟩
  · rintro ⟨⟨first, fresh⟩, rest, both⟩
    exact ⟨⟨first, rest, fun other mem_other model mem => (both model mem).1 other mem_other⟩,
      fresh, fun model mem => (both model mem).2⟩

theorem foldlM_insertModule_eq_ok_iff {start : Snapshot} :
    modules.foldlM insertModule start = .ok s ↔
      (((modelsOf modules).map (·.path)).Nodup ∧
        ∀ model ∈ modelsOf modules, start.models.get? model.path = none) ∧
      s = { start with
        models := start.models.insertAll (·.path) (modelsOf modules)
        modules := start.modules.insertAll (·.path) modules } := by
  induction modules generalizing start with
  | nil => simp [pure, Except.pure, modelsOf, Table.insertAll, eq_comm]
  | cons m rest ih =>
    rw [List.foldlM_cons, bind_eq_ok_iff, fresh_cons_iff]
    have models : start.models.insertAll (·.path) (modelsOf (m :: rest)) =
        (start.models.insertAll (·.path) m.models.values).insertAll (·.path) (modelsOf rest) :=
      Table.insertAll_append
    rw [models]
    constructor
    · rintro ⟨next, entered, folded⟩
      obtain ⟨distinct, fresh, rfl⟩ := insertModule_eq_ok_iff.mp entered
      obtain ⟨rest_fresh, rfl⟩ := ih.mp folded
      exact ⟨⟨⟨distinct, fresh⟩, rest_fresh⟩, rfl⟩
    · rintro ⟨⟨⟨distinct, fresh⟩, rest_fresh⟩, rfl⟩
      exact ⟨_, insertModule_eq_ok_iff.mpr ⟨distinct, fresh, rfl⟩, ih.mpr ⟨rest_fresh, rfl⟩⟩

/-- A list of modules makes a snapshot exactly if no two models have one path. -/
theorem ofModules_eq_ok_iff : ofModules apps modules = .ok s ↔
    ((modelsOf modules).map (·.path)).Nodup ∧
      s = ⟨apps, .ofValues (·.path) modules, .ofValues (·.path) (modelsOf modules), none⟩ := by
  rw [ofModules, foldlM_insertModule_eq_ok_iff]
  simp [empty, Table.ofValues]

section Tables

variable (built : ofModules apps modules = .ok s)

include built

/-- The models that are known are those of all modules. -/
theorem model?_eq_some_iff {p : ImportPath} {model : Model} :
    s.model? p = some model ↔ model ∈ modelsOf modules ∧ model.path = p := by
  obtain ⟨distinct, rfl⟩ := ofModules_eq_ok_iff.mp built
  exact Table.get?_ofValues_of_nodup distinct

/-- The modules are those that are followed by no other one of their path. -/
theorem mem_moduleList_iff {m : SourceModule} : m ∈ s.moduleList ↔
    ∃ before after, modules = before ++ m :: after ∧ ∀ n ∈ after, n.path ≠ m.path := by
  rw [(consistent_ofModules built).mem_moduleList_iff]
  obtain ⟨-, rfl⟩ := ofModules_eq_ok_iff.mp built
  rw [Table.get?_ofValues_eq_some_iff]
  exact and_iff_right rfl

end Tables

/-! ## Who holds the models -/

/-- A model at `p` is held by the module `m` of the snapshot. -/
def Holds (s : Snapshot) (m : SourceModule) (p : ImportPath) : Prop :=
  m ∈ s.moduleList ∧ ∃ model ∈ m.models.values, model.path = p

/-- The models that are known are those that just one module holds, and it holds the same ones. -/
structure Owned (s : Snapshot) : Prop where
  known_iff : ∀ p, (∃ model, s.model? p = some model) ↔ ∃! m, s.Holds m p
  same : ∀ p model, s.model? p = some model → ∀ m ∈ s.moduleList, ∀ held ∈ m.models.values,
    held.path = p → held = model

section Owners

variable (built : ofModules apps modules = .ok s)

include built

/-- What a module of the snapshot holds is known and held by no other one. -/
theorem existsUnique_of_holds {m : SourceModule} {p : ImportPath} (holds : s.Holds m p) :
    (∃ model, s.model? p = some model) ∧ ∃! m, s.Holds m p := by
  have consistent := consistent_ofModules built
  obtain ⟨mem, model, defined, rfl⟩ := holds
  have found := consistent.mem_moduleList_iff.mp mem
  refine ⟨⟨model, consistent.model_known found model defined⟩, m, ⟨mem, model, defined, rfl⟩, ?_⟩
  rintro n ⟨mem_n, other, defined_n, same⟩
  have found_n := consistent.mem_moduleList_iff.mp mem_n
  have paths := consistent.model_owner found_n found other defined_n model defined same
  rw [paths, found] at found_n
  exact (Option.some.inj found_n).symm

/-- No other module of the list holds a model at the path of one of a module's. -/
theorem path_ne_of_split {before after : List SourceModule} {m : SourceModule}
    (split : modules = before ++ m :: after) {model : Model} (defined : model ∈ m.models.values)
    {k : SourceModule} (other : k ∈ before ∨ k ∈ after) {held : Model}
    (defined_k : held ∈ k.models.values) : held.path ≠ model.path := by
  obtain ⟨distinct, -⟩ := ofModules_eq_ok_iff.mp built
  simp only [split, modelsOf, List.flatMap_append, List.flatMap_cons, List.map_append,
    List.nodup_append, List.forall_mem_map, List.forall_mem_append] at distinct
  obtain ⟨-, ⟨-, -, from_after⟩, from_before⟩ := distinct
  rcases other with earlier | later
  · exact (from_before held (List.mem_flatMap.mpr ⟨k, earlier, defined_k⟩)).1 model defined
  · exact (from_after model defined held (List.mem_flatMap.mpr ⟨k, later, defined_k⟩)).symm

/-- Of a module that is followed by another one of its path, no model is held by a module of the
snapshot: not by that one, which is gone, and not by the others, since no path repeats. -/
theorem not_holds_of_replaced {before after : List SourceModule} {m n : SourceModule}
    (split : modules = before ++ m :: after) (later : n ∈ after) (path : n.path = m.path)
    {model : Model} (defined : model ∈ m.models.values) (k : SourceModule) :
    ¬ s.Holds k model.path := by
  rintro ⟨mem, held, defined_k, same⟩
  have other : ¬ (k ∈ before ∨ k ∈ after) := fun other =>
    path_ne_of_split built split defined other defined_k same
  have listed : k ∈ modules := by
    obtain ⟨_, _, here, -⟩ := (mem_moduleList_iff built).mp mem
    simp [here]
  have here : k = m := by
    rw [split, List.mem_append, List.mem_cons] at listed
    tauto
  subst here
  have found := (consistent_ofModules built).mem_moduleList_iff.mp mem
  obtain ⟨-, rfl⟩ := ofModules_eq_ok_iff.mp built
  have last : (Table.ofValues SourceModule.path ((before ++ [k]) ++ after)).get? n.path = some k := by
    simpa [split, path] using found
  exact other (.inr (Table.mem_of_get?_ofValues_append last later))

theorem model?_of_mem {m : SourceModule} (mem : m ∈ modules) {model : Model}
    (defined : model ∈ m.models.values) : s.model? model.path = some model :=
  (model?_eq_some_iff built).mpr ⟨List.mem_flatMap.mpr ⟨m, mem, defined⟩, rfl⟩

/-- If each known model is held by just one module, a module that is followed by another one of its
path has no models, since they would be known and held by none. -/
theorem pairwise_of_owned (owned : s.Owned) :
    modules.Pairwise fun m n => m.path = n.path → m.models.values = [] := by
  rw [pairwise_iff_splits]
  intro before m after split n later path
  rw [List.eq_nil_iff_forall_not_mem]
  intro model defined
  have known := model?_of_mem built (by simp [split]) defined
  obtain ⟨k, holds, -⟩ := (owned.known_iff model.path).mp ⟨model, known⟩
  exact not_holds_of_replaced built split later path.symm defined k holds

/-- If no module with models is followed by another one of its path, the modules of all models are in
the snapshot. -/
theorem owned_of_pairwise
    (last : modules.Pairwise fun m n => m.path = n.path → m.models.values = []) : s.Owned := by
  have consistent := consistent_ofModules built
  constructor
  · intro p
    constructor
    · rintro ⟨model, found⟩
      obtain ⟨mem, rfl⟩ := (model?_eq_some_iff built).mp found
      obtain ⟨m, mem, defined⟩ := List.mem_flatMap.mp mem
      obtain ⟨before, after, split⟩ := List.append_of_mem mem
      have kept : m ∈ s.moduleList := by
        refine (mem_moduleList_iff built).mpr ⟨before, after, split, fun n later path => ?_⟩
        have none := pairwise_iff_splits.mp last before m after split n later path.symm
        rw [none] at defined
        exact List.not_mem_nil defined
      exact (existsUnique_of_holds built ⟨kept, model, defined, rfl⟩).2
    · rintro ⟨m, holds, -⟩
      exact (existsUnique_of_holds built holds).1
  · intro p model found m mem held defined here
    have known := consistent.model_known (consistent.mem_moduleList_iff.mp mem) held defined
    rw [here] at known
    exact Option.some.inj (known.symm.trans found)

/-- Every model of every module is known. Each known model is held by just one module, and nothing
else is held, exactly if no module with models is followed by another one of its path. -/
theorem owned_iff_pairwise :
    (∀ m ∈ modules, ∀ model ∈ m.models.values, s.model? model.path = some model) ∧
      (s.Owned ↔ modules.Pairwise fun m n => m.path = n.path → m.models.values = []) :=
  ⟨fun _ mem _ defined => model?_of_mem built mem defined,
    pairwise_of_owned built, owned_of_pairwise built⟩

end Owners

end Snapshot

namespace Adoption

/-- The parents' module with one model. -/
def moduleWith (model : Model) : SourceModule := (SourceModule.new parents true).withModel model

/-- A module and another one of its path, each with one of the two parents. -/
def parted : List SourceModule :=
  [moduleWith (abstractModel "A" first), moduleWith (abstractModel "B" second)]

/-- The model of the module that is followed by the other one is known, and no module holds it. -/
theorem parted_not_owned : ∃ s, Snapshot.ofModules ["app"] parted = .ok s ∧
    s.model? first = some (abstractModel "A" first) ∧ (∀ m, ¬ s.Holds m first) ∧ ¬ s.Owned := by
  obtain ⟨s, built⟩ : ∃ s, Snapshot.ofModules ["app"] parted = .ok s := ⟨_, rfl⟩
  have split : parted =
      [] ++ moduleWith (abstractModel "A" first) :: [moduleWith (abstractModel "B" second)] := rfl
  have defined : abstractModel "A" first ∈
      (moduleWith (abstractModel "A" first)).models.values := List.mem_cons_self
  have known : s.model? first = some (abstractModel "A" first) :=
    Snapshot.model?_of_mem built List.mem_cons_self defined
  have unheld : ∀ m, ¬ s.Holds m first :=
    Snapshot.not_holds_of_replaced built split List.mem_cons_self rfl defined
  refine ⟨s, built, known, unheld, fun owned => ?_⟩
  obtain ⟨m, holds, -⟩ := (owned.known_iff first).mp ⟨_, known⟩
  exact unheld m holds

/-- A module without models may be followed by another one of its path. -/
theorem adoption_owned : ∃ s,
    Snapshot.ofModules ["app"] [.new parents true, parentModule, childModuleOf first true] = .ok s ∧
      s.Owned := by
  obtain ⟨s, built⟩ : ∃ s, Snapshot.ofModules ["app"]
    [.new parents true, parentModule, childModuleOf first true] = .ok s := ⟨_, rfl⟩
  exact ⟨s, built, (Snapshot.owned_iff_pairwise built).2.mpr (by decide)⟩

end Adoption

/-! ## The order of the modules -/

namespace Snapshot

theorem modelsOf_perm {l₁ l₂ : List SourceModule} (perm : l₁.Perm l₂) :
    (modelsOf l₁).Perm (modelsOf l₂) := perm.flatMap_right _

/-- Whether modules make a snapshot does not depend on their order. -/
theorem exists_ofModules_perm {l₁ l₂ : List SourceModule} (perm : l₁.Perm l₂) :
    (∃ s, ofModules apps l₁ = .ok s) ↔ ∃ s, ofModules apps l₂ = .ok s := by
  simp only [ofModules_eq_ok_iff, exists_and_left, exists_eq, and_true]
  exact ((modelsOf_perm perm).map _).nodup_iff

/-- And neither does the snapshot, unless modules have one path. -/
theorem eq_of_ofModules_perm {l₁ l₂ : List SourceModule} (perm : l₁.Perm l₂)
    (distinct : (l₁.map (·.path)).Nodup) {s₁ s₂ : Snapshot} (built₁ : ofModules apps l₁ = .ok s₁)
    (built₂ : ofModules apps l₂ = .ok s₂) : s₁ = s₂ := by
  obtain ⟨paths, rfl⟩ := ofModules_eq_ok_iff.mp built₁
  obtain ⟨-, rfl⟩ := ofModules_eq_ok_iff.mp built₂
  rw [Table.ofValues_perm perm distinct, Table.ofValues_perm (modelsOf_perm perm) paths]

end Snapshot

/-- Modules with different paths make a snapshot in any order or in none, and always the same one.
So it gives the same artifacts, the same failures and the same combined report with its version. -/
theorem ofModules_perm (apps : List String) {l₁ l₂ : List SourceModule} (perm : l₁.Perm l₂)
    (distinct : (l₁.map (·.path)).Nodup) :
    ((∃ s, Snapshot.ofModules apps l₁ = .ok s) ↔ ∃ s, Snapshot.ofModules apps l₂ = .ok s) ∧
      ∀ s₁ s₂, Snapshot.ofModules apps l₁ = .ok s₁ → Snapshot.ofModules apps l₂ = .ok s₂ →
        s₁ = s₂ ∧ ∀ g : Generator,
          g.artifacts s₁ = g.artifacts s₂ ∧ g.failures s₁ = g.failures s₂ ∧
            ∃ c, combine (g.artifacts s₁) = .ok c ∧ combine (g.artifacts s₂) = .ok c := by
  refine ⟨Snapshot.exists_ofModules_perm perm, ?_⟩
  intro s₁ s₂ built₁ built₂
  obtain rfl := Snapshot.eq_of_ofModules_perm perm distinct built₁ built₂
  refine ⟨rfl, fun g => ⟨rfl, rfl, ?_⟩⟩
  obtain ⟨c, merged⟩ := combine_artifacts_exists (g := g) (.ofModules built₁)
  exact ⟨c, merged, merged⟩

namespace Adoption

/-- The child's module may be entered before that of its parents. -/
theorem adoption_swapped : ∃ s, Snapshot.ofModules ["app"] [childModuleOf first true, parentModule] =
    .ok s ∧ s = adoption first := by
  have built : Snapshot.ofModules ["app"] [parentModule, childModuleOf first true] =
      .ok (adoption first) := rfl
  have distinct : ([parentModule, childModuleOf first true].map (·.path)).Nodup := by decide
  obtain ⟨both, same⟩ := ofModules_perm ["app"] (.swap _ _ []) distinct
  obtain ⟨s, swapped⟩ := both.mp ⟨_, built⟩
  exact ⟨s, swapped, (same _ _ built swapped).1.symm⟩

end Adoption

end VirtualModules
