import VirtualModules.Artifact
import VirtualModules.Generation
import VirtualModules.Proofs.Lines
import VirtualModules.Proofs.Results

/-!
# What the facts of a module are made of

The table of descendants binds exactly the paths of the module's models, each to what the
snapshot answers for it (`concreteTable_ok`), and it exists as soon as the snapshot answers for
all of them (`concreteTable_exists`). `Snapshot.Aliased` says which models get aliases without
going through the table; `mem_aliased_iff` ties the two together.

Of an installed module the summary determines the module's path and the fingerprint of its
significant paths (`summaryText_inj`), and with them the marker of the artifact.
-/

namespace VirtualModules

/-! ## The table of descendants -/

/-- A model of `m` at `p` has concrete descendants, and they are `concrete`. -/
def Snapshot.Aliased (s : Snapshot) (m : SourceModule) (p : ImportPath) (concrete : List Model) :
    Prop :=
  (∃ model ∈ m.models.values, model.path = p) ∧ s.concreteModels p = .ok concrete ∧ concrete ≠ []

theorem Snapshot.aliased_of_mem {s : Snapshot} {m : SourceModule} {a d : Model}
    {concrete : List Model} (mem : a ∈ m.models.values)
    (found : s.concreteModels a.path = .ok concrete) (descends : d ∈ concrete) :
    s.Aliased m a.path concrete :=
  ⟨⟨a, mem, rfl⟩, found, List.ne_nil_of_mem descends⟩

theorem foldlM_concrete_ok {s : Snapshot} {models : List Model} {start table : ConcreteTable}
    (h : models.foldlM
      (fun table model => return table.insert model.path (← s.concreteModels model.path)) start =
        .ok table) (p : ImportPath) (concrete : List Model) :
    table.get? p = some concrete ↔
      ((∃ model ∈ models, model.path = p) ∧ s.concreteModels p = .ok concrete) ∨
        ((∀ model ∈ models, model.path ≠ p) ∧ start.get? p = some concrete) := by
  induction models generalizing start with
  | nil =>
    cases h
    simp
  | cons first rest ih =>
    simp only [List.foldlM_cons, bind_eq_ok_iff] at h
    obtain ⟨next, ⟨cs, found, inserted⟩, folded⟩ := h
    cases inserted
    rw [ih folded]
    by_cases here : first.path = p
    · subst here
      by_cases later : ∃ model ∈ rest, model.path = first.path
      · simp [later, found]
      · have none_later : ∀ model ∈ rest, model.path ≠ first.path := fun model mem same =>
          later ⟨model, mem, same⟩
        simpa [later, found] using fun _ => none_later
    · simp [Table.get?_insert_ne _ (Ne.symm here), here]

/-- The table binds the path of each model to what the snapshot answers for it, and no other. -/
theorem concreteTable_ok {s : Snapshot} {m : SourceModule} {table : ConcreteTable}
    (h : concreteTable s m = .ok table) (p : ImportPath) (concrete : List Model) :
    table.get? p = some concrete ↔
      (∃ model ∈ m.models.values, model.path = p) ∧ s.concreteModels p = .ok concrete := by
  simpa using foldlM_concrete_ok h p concrete

/-- The table exists if the snapshot answers for every model of the module. -/
theorem concreteTable_exists {s : Snapshot} {m : SourceModule}
    (answers : ∀ model ∈ m.models.values, ∃ concrete, s.concreteModels model.path = .ok concrete) :
    ∃ table, concreteTable s m = .ok table := by
  unfold concreteTable
  generalize m.models.values = models at answers
  generalize (∅ : ConcreteTable) = start
  induction models generalizing start with
  | nil => exact ⟨start, rfl⟩
  | cons first rest ih =>
    obtain ⟨concrete, found⟩ := answers first List.mem_cons_self
    obtain ⟨table, h⟩ := ih (fun model mem => answers model (List.mem_cons_of_mem _ mem))
      (start.insert first.path concrete)
    refine ⟨table, ?_⟩
    rw [List.foldlM_cons, found]
    exact h

/-! ## Facts and artifacts -/

theorem gather_installed {c : PassContext} {s : Snapshot} {m : SourceModule} {f : Facts}
    (installed : m.installed = true) (h : Facts.gather c s m = .ok f) :
    ∃ table, concreteTable s m = .ok table ∧ f = Facts.ofConcrete c m table := by
  rw [Facts.gather, if_pos installed, bind_eq_ok_iff] at h
  obtain ⟨table, found, done⟩ := h
  cases done
  exact ⟨table, found, rfl⟩

theorem gather_of_concreteTable (c : PassContext) {s : Snapshot} {m : SourceModule}
    {table : ConcreteTable} (installed : m.installed = true) (h : concreteTable s m = .ok table) :
    Facts.gather c s m = .ok (Facts.ofConcrete c m table) := by
  rw [Facts.gather, if_pos installed, h]
  rfl

theorem gather_uninstalled (c : PassContext) (s : Snapshot) {m : SourceModule}
    (uninstalled : m.installed = false) :
    Facts.gather c s m = .ok (Facts.ofUninstalled c m) := by
  simp [Facts.gather, uninstalled]

theorem artifact_ok {g : Generator} {s : Snapshot} {m : SourceModule} {a : Artifact}
    (h : g.artifact s m = .ok a) :
    ∃ f, Facts.gather (g.context s) s m = .ok f ∧
      a = Artifact.render g.settings.genericQueryset f := by
  rw [Generator.artifact, map_eq_ok_iff] at h
  obtain ⟨f, gathered, rendered⟩ := h
  exact ⟨f, gathered, rendered.symm⟩

/-- The artifact of an installed module is rendered from its table of descendants. -/
theorem artifact_installed {g : Generator} {s : Snapshot} {m : SourceModule} {a : Artifact}
    (installed : m.installed = true) (h : g.artifact s m = .ok a) :
    ∃ table, concreteTable s m = .ok table ∧
      a = Artifact.render g.settings.genericQueryset (Facts.ofConcrete (g.context s) m table) := by
  obtain ⟨f, gathered, rfl⟩ := artifact_ok h
  obtain ⟨table, found, rfl⟩ := gather_installed installed gathered
  exact ⟨table, found, rfl⟩

theorem artifact_of_concreteTable {g : Generator} {s : Snapshot} {m : SourceModule}
    {table : ConcreteTable} (installed : m.installed = true) (h : concreteTable s m = .ok table) :
    g.artifact s m =
      .ok (Artifact.render g.settings.genericQueryset
        (Facts.ofConcrete (g.context s) m table)) := by
  rw [Generator.artifact, gather_of_concreteTable _ installed h]
  rfl

theorem artifact_of_uninstalled (g : Generator) (s : Snapshot) {m : SourceModule}
    (uninstalled : m.installed = false) :
    g.artifact s m =
      .ok (Artifact.render g.settings.genericQueryset (Facts.ofUninstalled (g.context s) m)) := by
  rw [Generator.artifact, gather_uninstalled _ _ uninstalled]
  rfl

/-- The models that get aliases are those with concrete descendants. -/
theorem mem_aliased_iff {c : PassContext} {s : Snapshot} {m : SourceModule}
    {table : ConcreteTable} (h : concreteTable s m = .ok table) (p : ImportPath)
    (concrete : List Model) :
    (p, concrete) ∈ (Facts.ofConcrete c m table).aliased ↔ s.Aliased m p concrete := by
  rw [Facts.aliased, List.mem_filter, Snapshot.Aliased, ← and_assoc, ← concreteTable_ok h,
    Table.get?_eq_some_iff]
  simp [Facts.ofConcrete]

/-! ## Summaries -/

theorem summaryText_installed (v p : ImportPath) (apps significant : Fingerprint) :
    (Summary.mk v p (.installed apps significant)).text? =
      some (v.text ++ "::" ++ p.text ++ "::installed_apps=" ++ apps.toHex ++ "::significant=" ++
        significant.toHex) := rfl

/-- The artifacts of installed modules are those with a summary. -/
theorem isSome_summary_render {c : PassContext} {s : Snapshot} {m : SourceModule} {f : Facts}
    (h : Facts.gather c s m = .ok f) (generic : ImportPath) :
    (Artifact.render generic f).summary.isSome = m.installed := by
  cases installed : m.installed with
  | true =>
    obtain ⟨table, -, rfl⟩ := gather_installed installed h
    simp only [Artifact.render, Facts.ofConcrete, summaryText_installed, Option.isSome_some]
  | false =>
    rw [gather_uninstalled _ _ installed] at h
    cases h
    rfl

theorem isSome_summary_of_artifact {g : Generator} {s : Snapshot} {m : SourceModule} {a : Artifact}
    (h : g.artifact s m = .ok a) : a.summary.isSome = m.installed := by
  obtain ⟨f, gathered, rfl⟩ := artifact_ok h
  exact isSome_summary_render gathered _

/-- A summary determines the module and the printed fingerprints that it states. -/
theorem summaryText_inj {v w p q : ImportPath} {apps apps' sig sig' : Fingerprint}
    (h : (Summary.mk v p (.installed apps sig)).text? =
      (Summary.mk w q (.installed apps' sig')).text?) :
    v = w ∧ p = q ∧ apps.toHex = apps'.toHex ∧ sig.toHex = sig'.toHex := by
  rw [summaryText_installed, summaryText_installed, Option.some.injEq] at h
  simp only [String.append_assoc] at h
  obtain ⟨virtuals, h⟩ := append_inj_of_first (c := ':') rfl (v.not_mem_text rfl (by decide))
    (w.not_mem_text rfl (by decide)) h
  obtain ⟨modules, h⟩ := append_inj_of_first (c := ':') rfl (p.not_mem_text rfl (by decide))
    (q.not_mem_text rfl (by decide)) h
  obtain ⟨sameApps, sameSignificant⟩ := append_inj_of_first (c := ':') rfl
    (apps.not_mem_toHex rfl) (apps'.not_mem_toHex rfl) h
  exact ⟨ImportPath.ext_text virtuals, ImportPath.ext_text modules, sameApps, sameSignificant⟩

/-- The marker follows from the text of the summary, under either policy. -/
theorem marker?_congr (policy : MarkerPolicy) {s t : Summary} (h : s.text? = t.text?) :
    policy.marker? s = policy.marker? t := by
  simp [MarkerPolicy.marker?, h]

theorem marker_ofConcrete (c : PassContext) (m : SourceModule) (table : ConcreteTable) :
    (Facts.ofConcrete c m table).marker =
      c.policy.marker? (Facts.ofConcrete c m table).summary := rfl

end VirtualModules
