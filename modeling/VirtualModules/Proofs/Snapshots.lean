import VirtualModules.Proofs.Results
import VirtualModules.Proofs.Tables
import VirtualModules.Snapshot

/-!
# Snapshots as they are built

A snapshot that was built module by module is `Consistent`: every module stands under its own
path, every model of a module is known under its own path, and no two modules define one model.
`Snapshot.Built` says that a snapshot was built, with or without an explicit table of descendants
on top (`Built.consistent`). Without such a table a snapshot answers for every model it knows
(`concreteModels_derived`).
-/

namespace VirtualModules

namespace Snapshot

/-- What holds for the tables of a snapshot that was built module by module. -/
structure Consistent (s : Snapshot) : Prop where
  module_path : ∀ {p m}, s.modules.get? p = some m → m.path = p
  model_path : ∀ {p model}, s.models.get? p = some model → model.path = p
  model_known : ∀ {p m}, s.modules.get? p = some m →
    ∀ model ∈ m.models.values, s.models.get? model.path = some model
  model_owner : ∀ {p q m n}, s.modules.get? p = some m → s.modules.get? q = some n →
    ∀ a ∈ m.models.values, ∀ b ∈ n.models.values, a.path = b.path → p = q

/-- The snapshot was built from a list of modules, and then perhaps given a table of
descendants. -/
def Built (s : Snapshot) : Prop :=
  ∃ apps modules base table, ofModules apps modules = .ok base ∧ s = { base with explicit := table }

theorem consistent_empty (apps : List String) : (empty apps).Consistent where
  module_path h := by cases h
  model_path h := by cases h
  model_known h := by cases h
  model_owner h := by cases h

/-- What entering models did: each is known by now, none was before, and nothing else changed. -/
structure Entered (start : Table ImportPath Model) (entering : List Model)
    (models : Table ImportPath Model) : Prop where
  known : ∀ model ∈ entering, models.get? model.path = some model
  fresh : ∀ model ∈ entering, start.get? model.path = none
  kept : ∀ {p model}, start.get? p = some model → models.get? p = some model
  origin : ∀ {p model}, models.get? p = some model →
    start.get? p = some model ∨ (model ∈ entering ∧ model.path = p)

theorem insertModel_eq_ok_iff {owner : ImportPath} {start models : Table ImportPath Model}
    {model : Model} : insertModel owner start model = .ok models ↔
      start.get? model.path = none ∧ models = start.insert model.path model := by
  unfold insertModel
  split
  · next existing taken => simp [taken]
  · next fresh => simp [fresh, eq_comm]

/-- Models can be entered if no path repeats and none is taken, and then each is bound to its
path. -/
theorem foldlM_insertModel_eq_ok_iff {owner : ImportPath} {entering : List Model}
    {start models : Table ImportPath Model} :
    entering.foldlM (insertModel owner) start = .ok models ↔
      (entering.map (·.path)).Nodup ∧ (∀ model ∈ entering, start.get? model.path = none) ∧
        models = start.insertAll (·.path) entering := by
  induction entering generalizing start with
  | nil =>
    simp [pure, Except.pure, Table.insertAll, eq_comm]
  | cons first rest ih =>
    simp only [List.foldlM_cons, bind_eq_ok_iff, insertModel_eq_ok_iff, ih, List.map_cons,
      List.nodup_cons, List.forall_mem_cons, Table.insertAll, List.foldl_cons]
    constructor
    · rintro ⟨next, ⟨fresh, rfl⟩, distinct, rest_fresh, rfl⟩
      have others : ∀ model ∈ rest, model.path ≠ first.path := by
        intro model mem same
        have absent := rest_fresh model mem
        rw [same, Table.get?_insert_self] at absent
        cases absent
      refine ⟨⟨?_, distinct⟩, ⟨fresh, ?_⟩, rfl⟩
      · rintro mem
        obtain ⟨model, mem, same⟩ := List.mem_map.mp mem
        exact others model mem same
      · intro model mem
        rw [← Table.get?_insert_ne start (others model mem)]
        exact rest_fresh model mem
    · rintro ⟨⟨alone, distinct⟩, ⟨fresh, rest_fresh⟩, rfl⟩
      refine ⟨_, ⟨fresh, rfl⟩, distinct, ?_, rfl⟩
      intro model mem
      have other : model.path ≠ first.path := fun same =>
        alone (List.mem_map.mpr ⟨model, mem, same⟩)
      rw [Table.get?_insert_ne _ other]
      exact rest_fresh model mem

theorem foldlM_insertModel_ok {owner : ImportPath} {entering : List Model}
    {start models : Table ImportPath Model}
    (h : entering.foldlM (insertModel owner) start = .ok models) :
    Entered start entering models := by
  obtain ⟨distinct, fresh, rfl⟩ := foldlM_insertModel_eq_ok_iff.mp h
  constructor
  · intro model mem
    exact (Table.get?_insertAll_of_nodup distinct).mpr (.inl ⟨mem, rfl⟩)
  · exact fresh
  · intro p model found
    refine (Table.get?_insertAll_of_nodup distinct).mpr (.inr ⟨?_, found⟩)
    rintro entered mem rfl
    rw [fresh entered mem] at found
    cases found
  · intro p model found
    rcases (Table.get?_insertAll_of_nodup distinct).mp found with entered | ⟨-, old⟩
    · exact .inr entered
    · exact .inl old

theorem insertModule_ok {s s' : Snapshot} {m : SourceModule} (h : s.insertModule m = .ok s') :
    ∃ models, Entered s.models m.models.values models ∧
      s' = { s with models, modules := s.modules.insert m.path m } := by
  rw [insertModule, bind_eq_ok_iff] at h
  obtain ⟨models, folded, done⟩ := h
  cases done
  exact ⟨models, foldlM_insertModel_ok folded, rfl⟩

/-- Entering a module keeps a snapshot consistent: its models are new to all other modules. -/
theorem consistent_insertModule {s s' : Snapshot} {m : SourceModule} (consistent : s.Consistent)
    (h : s.insertModule m = .ok s') : s'.Consistent := by
  obtain ⟨models, entered, rfl⟩ := insertModule_ok h
  -- a module found afterwards is the new one or was there before
  have found_cases : ∀ {p n}, (s.modules.insert m.path m).get? p = some n →
      (p = m.path ∧ n = m) ∨ s.modules.get? p = some n := by
    intro p n found
    by_cases here : p = m.path
    · subst here
      rw [Table.get?_insert_self] at found
      cases found
      exact .inl ⟨rfl, rfl⟩
    · rw [Table.get?_insert_ne _ here] at found
      exact .inr found
  have no_clash : ∀ {p n}, s.modules.get? p = some n → ∀ a ∈ n.models.values,
      ∀ b ∈ m.models.values, a.path ≠ b.path := by
    intro p n found a ha b hb same
    have known := consistent.model_known found a ha
    rw [same, entered.fresh b hb] at known
    cases known
  refine ⟨?_, ?_, ?_, ?_⟩
  · intro p n found
    rcases found_cases found with ⟨rfl, rfl⟩ | old
    · rfl
    · exact consistent.module_path old
  · intro p model found
    rcases entered.origin found with old | ⟨-, same⟩
    · exact consistent.model_path old
    · exact same
  · intro p n found model mem
    rcases found_cases found with ⟨rfl, rfl⟩ | old
    · exact entered.known model mem
    · exact entered.kept (consistent.model_known old model mem)
  · intro p q n k hn hk a ha b hb same
    rcases found_cases hn with ⟨rfl, rfl⟩ | old_n
    · rcases found_cases hk with ⟨rfl, rfl⟩ | old_k
      · rfl
      · exact absurd same.symm (no_clash old_k b hb a ha)
    · rcases found_cases hk with ⟨rfl, rfl⟩ | old_k
      · exact absurd same (no_clash old_n a ha b hb)
      · exact consistent.model_owner old_n old_k a ha b hb same

theorem consistent_ofModules {apps : List String} {modules : List SourceModule} {s : Snapshot}
    (h : ofModules apps modules = .ok s) : s.Consistent :=
  foldlM_ok_invariant Consistent consistent_insertModule (consistent_empty apps) h

theorem Built.ofModules {apps : List String} {modules : List SourceModule} {s : Snapshot}
    (h : ofModules apps modules = .ok s) : s.Built :=
  ⟨apps, modules, s, s.explicit, h, rfl⟩

theorem Built.consistent {s : Snapshot} (h : s.Built) : s.Consistent := by
  obtain ⟨apps, modules, base, table, built, rfl⟩ := h
  obtain ⟨module_path, model_path, model_known, model_owner⟩ := consistent_ofModules built
  exact ⟨module_path, model_path, model_known, model_owner⟩

/-! ## Modules and models by membership -/

theorem Consistent.mem_moduleList_iff {s : Snapshot} (consistent : s.Consistent)
    {m : SourceModule} : m ∈ s.moduleList ↔ s.modules.get? m.path = some m := by
  rw [moduleList, Table.mem_values_iff]
  constructor
  · rintro ⟨p, found⟩
    rwa [← consistent.module_path found] at found
  · exact fun found => ⟨m.path, found⟩

theorem Consistent.findModel_ok {s : Snapshot} (consistent : s.Consistent) {m : SourceModule}
    (mem : m ∈ s.moduleList) {model : Model} (mem_model : model ∈ m.models.values) :
    s.findModel model.path = .ok model := by
  have found := consistent.mem_moduleList_iff.mp mem
  rw [findModel, model?, consistent.model_known found model mem_model]

/-! ## Descendants by ancestry -/

/-- Without an explicit table a snapshot answers for every model it knows. -/
theorem concreteModels_derived {s : Snapshot} (derived : s.explicit = none) {p : ImportPath}
    {model : Model} (known : s.findModel p = .ok model) :
    s.concreteModels p = .ok (s.derivedDescendants p) := by
  simp only [concreteModels, known, explicit?, derived, Option.bind_none]
  rfl

end Snapshot

end VirtualModules
