import VirtualModules.Artifact
import VirtualModules.Proofs.Merging

/-!
# What the report of an artifact says

The report of an artifact binds the aliases of the models with concrete descendants, gives the
module its virtual module (`Facts.binds_report_iff`), and relates the modules of the models to those
that their descendants touch (`Facts.relates_report_iff`). Nothing is entered in it without a
related module (`Facts.proper_report`).
-/

namespace VirtualModules

/-- Relating `x` and `y` enters `b` under `a`. -/
def Joins (x y a b : ImportPath) : Prop := x ≠ y ∧ ((a = x ∧ b = y) ∨ (a = y ∧ b = x))

/-- The modules that some concrete descendants touch. -/
def touchedModules (concrete : List Model) : List ImportPath :=
  (concrete.flatMap Model.touched).filterMap ImportPath.parent?

namespace Report

/-! ## Relating -/

theorem relates_addRelated {r : Report} {x y a b : ImportPath} :
    (r.addRelated x y).Relates a b ↔ r.Relates a b ∨ (a = x ∧ b = y) := by
  unfold Relates relatedTo addRelated
  by_cases here : a = x
  · subst here
    simp [Table.get?_insert_self, relatedTo, or_comm]
  · simp [Table.get?_insert_ne _ here, here]

theorem proper_addRelated {r : Report} (proper : r.Proper) (x y : ImportPath) :
    (r.addRelated x y).Proper := by
  intro a related found
  unfold addRelated at found
  by_cases here : a = x
  · subst here
    rw [Table.get?_insert_self] at found
    cases found
    exact ⟨y, SortedSet.mem_insert.mpr (.inl rfl)⟩
  · rw [Table.get?_insert_ne _ here] at found
    exact proper a related found

theorem relates_relate {r : Report} {x y a b : ImportPath} :
    (r.relate x y).Relates a b ↔ r.Relates a b ∨ Joins x y a b := by
  unfold relate Joins
  split
  · next same => simp [same]
  · next differ =>
    rw [relates_addRelated, relates_addRelated]
    grind

theorem proper_relate {r : Report} (proper : r.Proper) (x y : ImportPath) :
    (r.relate x y).Proper := by
  unfold relate
  split
  · exact proper
  · exact proper_addRelated (proper_addRelated proper y x) x y

@[simp] theorem owned_relate (r : Report) (x y : ImportPath) (kind : OwnedTable) :
    (r.relate x y).owned kind = r.owned kind := by
  unfold relate
  split
  · rfl
  · cases kind <;> rfl

theorem binds_registerModule (r : Report) (modulePath virtual : ImportPath) {kind : OwnedTable}
    {key value : ImportPath} :
    (r.registerModule modulePath virtual).Binds kind key value ↔
      (kind = .virtualModules ∧ key = modulePath ∧ value = virtual) ∨
        ((kind ≠ .virtualModules ∨ key ≠ modulePath) ∧ r.Binds kind key value) := by
  unfold Binds
  by_cases here : key = modulePath
  · subst here
    cases kind <;> simp [owned, registerModule, Table.get?_insert_self, eq_comm]
  · cases kind <;> simp [owned, registerModule, Table.get?_insert_ne _ here, here]

section Touched

variable (r : Report) (modulePath : ImportPath) (concrete : List Model)

theorem relateTouched_eq_foldl : r.relateTouched modulePath concrete =
    (touchedModules concrete).foldl (fun r other => r.relate modulePath other) r := rfl

theorem relates_relateTouched {a b : ImportPath} :
    (r.relateTouched modulePath concrete).Relates a b ↔
      r.Relates a b ∨ ∃ other ∈ touchedModules concrete, Joins modulePath other a b := by
  rw [relateTouched_eq_foldl]
  generalize touchedModules concrete = others
  induction others generalizing r with
  | nil => simp
  | cons other rest ih =>
    rw [List.foldl_cons, ih, relates_relate]
    simp [or_assoc]

theorem proper_relateTouched (proper : r.Proper) :
    (r.relateTouched modulePath concrete).Proper := by
  rw [relateTouched_eq_foldl]
  generalize touchedModules concrete = others
  induction others generalizing r with
  | nil => exact proper
  | cons other rest ih => exact ih _ (proper_relate proper modulePath other)

@[simp] theorem owned_relateTouched (kind : OwnedTable) :
    (r.relateTouched modulePath concrete).owned kind = r.owned kind := by
  rw [relateTouched_eq_foldl]
  generalize touchedModules concrete = others
  induction others generalizing r with
  | nil => rfl
  | cons other rest ih => rw [List.foldl_cons, ih, owned_relate]

end Touched

end Report

/-! ## Entering one model -/

/-- What a virtual module binds a model to in a table. -/
def aliasPath? (virtual : ImportPath) : OwnedTable → ImportPath → Option ImportPath
  | .concreteAliases, model => some (virtual.child (concreteAlias model))
  | .querysetAliases, model => some (virtual.child (querysetAlias model))
  | .virtualModules, _ => none

section Model

variable (virtual : ImportPath) (r : Report) (model : ImportPath) (concrete : List Model)

theorem owned_reportAliases (kind : OwnedTable) :
    (Facts.reportAliases virtual r model concrete).owned kind =
      match aliasPath? virtual kind model with
      | some value => (r.owned kind).insert model value
      | none => r.owned kind := by
  unfold Facts.reportAliases Report.registerModel
  split
  · cases kind <;> rfl
  · rw [Report.owned_relateTouched]
    cases kind <;> rfl

theorem binds_reportAliases {kind : OwnedTable} {key value : ImportPath} :
    (Facts.reportAliases virtual r model concrete).Binds kind key value ↔
      (key = model ∧ aliasPath? virtual kind key = some value) ∨
        ((key ≠ model ∨ kind = .virtualModules) ∧ r.Binds kind key value) := by
  unfold Report.Binds
  rw [owned_reportAliases]
  by_cases here : key = model
  · subst here
    cases kind <;> simp [aliasPath?, Table.get?_insert_self]
  · cases kind <;> simp [aliasPath?, Table.get?_insert_ne _ here, here]

theorem relates_reportAliases {a b : ImportPath} :
    (Facts.reportAliases virtual r model concrete).Relates a b ↔
      r.Relates a b ∨ ∃ modulePath, model.parent? = some modulePath ∧
        ∃ other ∈ touchedModules concrete, Joins modulePath other a b := by
  unfold Facts.reportAliases Report.registerModel
  cases model.parent? with
  | none => simp [Report.Relates, Report.relatedTo]
  | some modulePath =>
    rw [Report.relates_relateTouched]
    simp [Report.Relates, Report.relatedTo]

theorem proper_reportAliases (proper : r.Proper) :
    (Facts.reportAliases virtual r model concrete).Proper := by
  unfold Facts.reportAliases Report.registerModel
  split
  · exact proper
  · exact Report.proper_relateTouched _ _ _ proper

end Model

/-! ## The report of an artifact -/

namespace Facts

theorem binds_foldl_reportAliases (virtual : ImportPath) (l : List (ImportPath × List Model))
    (r : Report) {kind : OwnedTable} {key value : ImportPath} :
    (l.foldl (fun r (model, concrete) => reportAliases virtual r model concrete) r).Binds kind key
        value ↔
      ((∃ concrete, (key, concrete) ∈ l) ∧ aliasPath? virtual kind key = some value) ∨
        (((∀ concrete, (key, concrete) ∉ l) ∨ kind = .virtualModules) ∧
          r.Binds kind key value) := by
  induction l generalizing r with
  | nil => simp
  | cons first rest ih =>
    obtain ⟨model, concrete⟩ := first
    rw [List.foldl_cons, ih, binds_reportAliases]
    by_cases here : key = model
    · subst here
      cases kind <;> simp [aliasPath?] <;> grind
    · simp [here]

theorem binds_report_iff (f : Facts) {kind : OwnedTable} {key value : ImportPath} :
    f.report.Binds kind key value ↔
      ((∃ concrete, (key, concrete) ∈ f.aliased) ∧
          aliasPath? f.summary.virtualPath kind key = some value) ∨
        (kind = .virtualModules ∧ key = f.summary.modulePath ∧ value = f.summary.virtualPath) := by
  rw [report, binds_foldl_reportAliases, Report.binds_registerModule]
  have nothing := Report.not_binds_empty kind key value
  grind

theorem relates_report_iff (f : Facts) {a b : ImportPath} :
    f.report.Relates a b ↔ ∃ model concrete, (model, concrete) ∈ f.aliased ∧
      ∃ modulePath, model.parent? = some modulePath ∧
        ∃ other ∈ touchedModules concrete, Joins modulePath other a b := by
  have general : ∀ (l : List (ImportPath × List Model)) (r : Report),
      (l.foldl (fun r (model, concrete) => reportAliases f.summary.virtualPath r model concrete)
        r).Relates a b ↔
      r.Relates a b ∨ ∃ model concrete, (model, concrete) ∈ l ∧
        ∃ modulePath, model.parent? = some modulePath ∧
          ∃ other ∈ touchedModules concrete, Joins modulePath other a b := by
    intro l
    induction l with
    | nil => simp
    | cons first rest ih =>
      intro r
      obtain ⟨model, concrete⟩ := first
      rw [List.foldl_cons, ih, relates_reportAliases]
      simp only [List.mem_cons, Prod.mk.injEq]
      grind
  rw [report, general]
  have nothing : ¬ ((∅ : Report).registerModule f.summary.modulePath
      f.summary.virtualPath).Relates a b := Report.not_relates_empty a b
  simp [nothing]

theorem proper_report (f : Facts) : f.report.Proper := by
  unfold report
  generalize f.aliased = l
  have start : ((∅ : Report).registerModule f.summary.modulePath f.summary.virtualPath).Proper :=
    Report.proper_empty
  generalize (∅ : Report).registerModule f.summary.modulePath f.summary.virtualPath = r at start
  induction l generalizing r with
  | nil => exact start
  | cons first rest ih => exact ih _ (proper_reportAliases _ _ _ _ start)

end Facts

end VirtualModules
