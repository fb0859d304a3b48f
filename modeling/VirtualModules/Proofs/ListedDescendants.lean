import VirtualModules.Proofs.IsolatedFailures

/-!
# Listed and derived descendants

A snapshot derives the descendants of a model from the ancestors of all its models, and a table on
top of it can list them instead. The derived ones are all concrete models that are the model or have
it among their ancestors, in the order of their paths (`Snapshot.Descendants`). A list of their paths
in any other order is looked up and sorted, which gives the same (`mergeSort_of_perm`), so the
table makes no difference (`concreteModels_withExplicit`).
-/

namespace VirtualModules

namespace Snapshot

variable {s : Snapshot} {p : ImportPath}

/-- The concrete models that are the parent or have it among their ancestors, in strictly ascending
order of their paths. -/
structure Descendants (s : Snapshot) (parent : ImportPath) (found : List Model) : Prop where
  ascending : (found.map (·.path)).Pairwise (· < ·)
  mem_iff : ∀ model, model ∈ found ↔ s.model? model.path = some model ∧
    model.isAbstract = false ∧ (model.path = parent ∨ parent ∈ model.ancestors)

/-- For each model that it lists, the table has the paths of the derived descendants, in any
order. -/
def ListsDerived (s : Snapshot) (table : DescendantTable) : Prop :=
  ∀ p paths, table.get? p = some paths → ¬ s.Unknown p →
    paths.Perm ((s.derivedDescendants p).map (·.path))

/-! ## Derived descendants -/

section Derived

variable (consistent : s.Consistent)

include consistent

/-- A model stands under its own path. -/
theorem Consistent.map_path_values : s.models.values.map (·.path) = s.models.keys := by
  rw [Table.values, Table.keys, List.map_map]
  refine List.map_congr_left fun e mem => ?_
  exact consistent.model_path (Table.get?_eq_some_iff.mpr mem)

theorem Consistent.mem_models_iff {model : Model} :
    model ∈ s.models.values ↔ s.model? model.path = some model := by
  rw [Table.mem_values_iff]
  constructor
  · rintro ⟨p, found⟩
    rwa [← consistent.model_path found] at found
  · exact fun found => ⟨model.path, found⟩

theorem Consistent.descendants (p : ImportPath) : s.Descendants p (s.derivedDescendants p) where
  ascending := by
    have all : (s.models.values.map (·.path)).Pairwise (· < ·) := by
      rw [consistent.map_path_values]
      exact s.models.keys_ascending
    exact all.sublist (List.filter_sublist.map _)
  mem_iff model := by
    rw [derivedDescendants, List.mem_filter, consistent.mem_models_iff]
    simp [descendsFrom]

end Derived

/-! ## Listed descendants -/

theorem mapM_findModel_of_known {paths : List ImportPath} (known : ∀ p ∈ paths, ¬ s.Unknown p) :
    paths.mapM s.findModel = .ok (paths.filterMap s.model?) := by
  induction paths with
  | nil => rfl
  | cons p rest ih =>
    obtain ⟨first_known, rest_known⟩ := List.forall_mem_cons.mp known
    obtain ⟨model, found⟩ := Option.ne_none_iff_exists'.mp first_known
    rw [List.mapM_cons, ih rest_known, List.filterMap_cons_some found, findModel, found]
    rfl

theorem filterMap_model?_map_path {models : List Model}
    (known : ∀ model ∈ models, s.model? model.path = some model) :
    (models.map (·.path)).filterMap s.model? = models := by
  rw [List.filterMap_map]
  exact (List.filterMap_congr known).trans List.filterMap_some

/-- Sorting models by their paths gives the one list of them in strictly ascending order. -/
theorem mergeSort_of_perm {found models : List Model} (perm : found.Perm models)
    (ascending : (models.map (·.path)).Pairwise (· < ·)) :
    found.mergeSort (fun a b => a.path ≤ b.path) = models := by
  have sorted : (found.mergeSort fun a b => a.path ≤ b.path).Pairwise
      fun a b => decide (a.path ≤ b.path) = true :=
    List.pairwise_mergeSort (fun a b c => by simpa using Std.le_trans)
      (fun a b => by simpa using Std.le_total) found
  have ordered : models.Pairwise fun a b => decide (a.path ≤ b.path) = true :=
    (List.pairwise_map.mp ascending).imp fun less => decide_eq_true (Std.le_of_lt less)
  refine List.Perm.eq_of_pairwise ?_ sorted ordered ((List.mergeSort_perm found _).trans perm)
  intro a b mem mem_b le ge
  have same : a.path = b.path := Std.le_antisymm (of_decide_eq_true le) (of_decide_eq_true ge)
  have mem_a := perm.mem_iff.mp (List.mem_mergeSort.mp mem)
  exact List.inj_on_of_nodup_map (ascending.imp Std.ne_of_lt) mem_a mem_b same

theorem concreteModels_of_unknown (unknown : s.Unknown p) :
    s.concreteModels p = .error (.unknown p) := by
  rw [concreteModels, findModel_of_unknown unknown]
  rfl

/-- A list of the paths of some models that are known, in any order, is looked up and sorted to these
models. -/
theorem concreteModels_of_listed {paths : List ImportPath} {models : List Model}
    (known : ¬ s.Unknown p) (listed : s.explicit? p = some paths)
    (perm : paths.Perm (models.map (·.path)))
    (all_known : ∀ model ∈ models, s.model? model.path = some model)
    (ascending : (models.map (·.path)).Pairwise (· < ·)) : s.concreteModels p = .ok models := by
  obtain ⟨model, parent⟩ := findModel_of_known known
  have paths_known : ∀ q ∈ paths, ¬ s.Unknown q := by
    intro q mem
    obtain ⟨model, listed_model, rfl⟩ := List.mem_map.mp (perm.mem_iff.mp mem)
    rw [Unknown, all_known model listed_model]
    exact Option.some_ne_none model
  have found : (paths.filterMap s.model?).Perm models := by
    have same := perm.filterMap s.model?
    rwa [filterMap_model?_map_path all_known] at same
  simp only [concreteModels, parent, listed, mapM_findModel_of_known paths_known]
  exact congrArg Except.ok (mergeSort_of_perm found ascending)

theorem concreteModels_withExplicit (consistent : s.Consistent) (derived : s.explicit = none)
    {table : DescendantTable} (lists : s.ListsDerived table) (p : ImportPath) :
    (s.withExplicit table).concreteModels p = s.concreteModels p := by
  by_cases unknown : s.Unknown p
  · rw [concreteModels_of_unknown unknown]
    exact concreteModels_of_unknown (s := s.withExplicit table) unknown
  obtain ⟨model, parent⟩ := findModel_of_known unknown
  have descendants := consistent.descendants p
  rw [concreteModels_derived derived parent]
  cases listed : table.get? p with
  | none =>
    simp only [concreteModels, show (s.withExplicit table).explicit? p = none from listed]
    rw [show (s.withExplicit table).findModel p = .ok model from parent]
    rfl
  | some paths =>
    exact concreteModels_of_listed (s := s.withExplicit table) unknown listed
      (lists p paths listed unknown) (fun model mem => ((descendants.mem_iff model).mp mem).1)
      descendants.ascending

end Snapshot

/-- For a snapshot without a table of descendants, it makes no difference if a table lists the
derived descendants of some models, in any order: every question has the same answer, be it a list or
an error. The answer for a model that is known is the ascending list of all concrete models that are
this model or have it among their ancestors, and a model that is not known has no answer. -/
theorem concreteModels_listed {s : Snapshot} (accepted : s.Accepted) (derived : s.explicit = none) :
    (∀ table, s.ListsDerived table →
      ∀ p, (s.withExplicit table).concreteModels p = s.concreteModels p) ∧
    ∀ p, (s.model? p = none ∧ s.concreteModels p = .error (.unknown p)) ∨
      ∃ model found, s.model? p = some model ∧ s.concreteModels p = .ok found ∧
        s.Descendants p found := by
  have consistent := accepted.built.consistent
  refine ⟨fun table lists p => Snapshot.concreteModels_withExplicit consistent derived lists p, ?_⟩
  intro p
  cases parent : s.model? p with
  | none => exact .inl ⟨rfl, Snapshot.concreteModels_of_unknown parent⟩
  | some model =>
    have known : s.findModel p = .ok model := by rw [Snapshot.findModel, parent]
    exact .inr ⟨model, _, rfl, Snapshot.concreteModels_derived derived known,
      consistent.descendants p⟩

namespace Adoption

def sibling : Model :=
  ⟨"Y", childModule, ⟨"ext.models.Y", by decide⟩, false, none, ∅, [second, first]⟩

/-- The child's module with another child of both parents. -/
def siblingModule : SourceModule := (childModuleOf first true).withModel sibling

/-- The children of the first parent, the last one first. -/
def listedSiblings : DescendantTable := .ofList [(first, [sibling.path, child])]

/-- The children come in the order of their paths if a table lists them the other way round. -/
theorem siblings_listed : ∃ s, Snapshot.ofModules ["app"] [parentModule, siblingModule] = .ok s ∧
    s.explicit = none ∧ s.ListsDerived listedSiblings ∧
    (s.withExplicit listedSiblings).concreteModels first = .ok [childOf first, sibling] := by
  obtain ⟨s, built, answer, derivation⟩ : ∃ s,
      Snapshot.ofModules ["app"] [parentModule, siblingModule] = .ok s ∧
        s.concreteModels first = .ok [childOf first, sibling] ∧
        (s.explicit = none ∧ s.derivedDescendants first = [childOf first, sibling]) :=
    ⟨_, rfl, rfl, rfl, rfl⟩
  have lists : s.ListsDerived listedSiblings := by
    intro p paths listed _
    have entry : (p, paths) ∈ [(first, [sibling.path, child])] := Table.get?_eq_some_iff.mp listed
    cases List.mem_singleton.mp entry
    rw [derivation.2]
    exact .swap _ _ []
  obtain ⟨same, -⟩ := concreteModels_listed (.ofModules built) derivation.1
  exact ⟨s, built, derivation.1, lists, (same listedSiblings lists first).trans answer⟩

end Adoption

end VirtualModules
