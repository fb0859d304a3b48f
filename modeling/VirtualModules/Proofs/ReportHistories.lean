import VirtualModules.Proofs.ArtifactReports
import VirtualModules.Proofs.SummaryKeys

/-!
# Relations under every history of a report

A report changes by giving a module its virtual module, by giving a model its aliases, and by
merging another report, which may stop at a conflict halfway (`Report.Change`). Relations are
entered at both ends and merged last, so each of these keeps them mutual (`Report.Mutual`,
`Report.Mutual.change`). Hence they are mutual after every step of every history
(`Report.mutual_of_changes`).
-/

namespace VirtualModules

namespace Report

/-- Relations go both ways, no module is related to itself, and nothing is entered without a related
module. -/
structure Mutual (r : Report) : Prop where
  symm : ∀ {a b}, r.Relates a b → r.Relates b a
  irrefl : ∀ a, ¬ r.Relates a a
  proper : r.Proper

theorem mutual_empty : (∅ : Report).Mutual where
  symm related := absurd related (not_relates_empty _ _)
  irrefl a := not_relates_empty a a
  proper := proper_empty

/-- Only the relations count. -/
theorem Mutual.congr {r s : Report} (paired : r.Mutual)
    (same : s.relatedModules = r.relatedModules) : s.Mutual := by
  have relates : ∀ a b, s.Relates a b ↔ r.Relates a b := fun a b => by
    rw [Relates, Relates, relatedTo, relatedTo, same]
  constructor
  · intro a b related
    exact (relates b a).mpr (paired.symm ((relates a b).mp related))
  · exact fun a related => paired.irrefl a ((relates a a).mp related)
  · unfold Proper
    rw [same]
    exact paired.proper

/-! ## Single changes -/

theorem Mutual.registerModule {r : Report} (paired : r.Mutual)
    (modulePath virtualPath : ImportPath) : (r.registerModule modulePath virtualPath).Mutual :=
  paired.congr rfl

/-- A relation is entered at both of its ends, unless these are one module. -/
theorem Mutual.relate {r : Report} (paired : r.Mutual) (x y : ImportPath) :
    (r.relate x y).Mutual where
  symm {a b} related := by
    rcases relates_relate.mp related with before | ⟨differ, ends⟩
    · exact relates_relate.mpr (.inl (paired.symm before))
    · exact relates_relate.mpr (.inr ⟨differ, ends.symm.imp And.symm And.symm⟩)
  irrefl a related := by
    rcases relates_relate.mp related with before | ⟨differ, ⟨rfl, rfl⟩ | ⟨rfl, rfl⟩⟩
    · exact paired.irrefl a before
    · exact differ rfl
    · exact differ rfl
  proper := proper_relate paired.proper x y

theorem Mutual.relateTouched {r : Report} (paired : r.Mutual) (modulePath : ImportPath)
    (concrete : List Model) : (r.relateTouched modulePath concrete).Mutual := by
  rw [relateTouched_eq_foldl]
  generalize touchedModules concrete = others
  induction others generalizing r with
  | nil => exact paired
  | cons other rest ih => exact ih (paired.relate modulePath other)

theorem Mutual.registerModel {r : Report} (paired : r.Mutual)
    (model concreteAlias querysetAlias : ImportPath) (concrete : List Model) :
    (r.registerModel model concreteAlias querysetAlias concrete).Mutual := by
  unfold Report.registerModel
  have aliased : { r with
      concreteAliases := r.concreteAliases.insert model concreteAlias
      querysetAliases := r.querysetAliases.insert model querysetAlias }.Mutual := paired.congr rfl
  split
  · exact aliased
  · exact aliased.relateTouched _ concrete

/-! ## Merging -/

/-- Relations are merged last, so a merge that stops at a conflict leaves them as they are. -/
theorem relatedModules_merge (r incoming : Report) :
    ((r.merge incoming).conflict = none ∧ (r.merge incoming).report.relatedModules =
        mergeRelated r.relatedModules incoming.relatedModules.entries) ∨
      ((r.merge incoming).conflict ≠ none ∧
        (r.merge incoming).report.relatedModules = r.relatedModules) := by
  obtain ⟨_, merges, _, united⟩ | ⟨_, _, _, stops, _, _, _, kept⟩ := merge_cases r incoming
  · rw [merges]
    exact .inl ⟨rfl, united⟩
  · rw [stops]
    exact .inr ⟨nofun, kept⟩

theorem Mutual.merge {r incoming : Report} (paired : r.Mutual) (other : incoming.Mutual) :
    (r.merge incoming).report.Mutual := by
  rcases relatedModules_merge r incoming with ⟨-, united⟩ | ⟨-, kept⟩
  · have relates := relates_of_united united
    constructor
    · intro a b related
      exact (relates b a).mpr (((relates a b).mp related).imp paired.symm other.symm)
    · exact fun a related => ((relates a a).mp related).elim (paired.irrefl a) (other.irrefl a)
    · exact proper_of_united united paired.proper other.proper
  · exact paired.congr kept

/-! ## Histories -/

/-- One change of a report. -/
inductive Change where
  | registerModule (modulePath virtualPath : ImportPath)
  | registerModel (model concreteAlias querysetAlias : ImportPath) (concrete : List Model)
  | merge (incoming : Report)

/-- What a change leaves. Of a merge that stops at a conflict this is what it entered before. -/
def change (r : Report) : Change → Report
  | .registerModule modulePath virtualPath => r.registerModule modulePath virtualPath
  | .registerModel model concreteAlias querysetAlias concrete =>
    r.registerModel model concreteAlias querysetAlias concrete
  | .merge incoming => (r.merge incoming).report

/-- Every report that a change merges has mutual relations. -/
def Change.Fair : Change → Prop
  | .merge incoming => incoming.Mutual
  | _ => True

theorem Mutual.change {r : Report} (paired : r.Mutual) {c : Change} (fair : c.Fair) :
    (r.change c).Mutual := by
  cases c with
  | registerModule modulePath virtualPath => exact paired.registerModule modulePath virtualPath
  | registerModel model concreteAlias querysetAlias concrete =>
    exact paired.registerModel model concreteAlias querysetAlias concrete
  | merge incoming => exact paired.merge fair

theorem Mutual.scanl {r : Report} (paired : r.Mutual) {changes : List Change}
    (fair : ∀ c ∈ changes, c.Fair) : ∀ later ∈ changes.scanl Report.change r, later.Mutual := by
  induction changes generalizing r with
  | nil => simpa using paired
  | cons c rest ih =>
    obtain ⟨first, others⟩ := List.forall_mem_cons.mp fair
    rw [List.scanl_cons]
    exact List.forall_mem_cons.mpr ⟨paired, ih (paired.change first) others⟩

/-- On from the empty report, every change leaves mutual relations, whether or not a merge among
them stops at a conflict, as long as the reports that are merged have mutual relations
themselves. -/
theorem mutual_of_changes {changes : List Change} (fair : ∀ c ∈ changes, c.Fair) :
    ∀ r ∈ changes.scanl change ∅,
      (∀ a b, b ∈ r.relatedTo a → a ∈ r.relatedTo b) ∧ (∀ a, a ∉ r.relatedTo a) ∧
        ∀ a related, r.relatedModules.get? a = some related → ∃ b, b ∈ related := by
  intro r mem
  obtain ⟨symm, irrefl, proper⟩ := mutual_empty.scanl fair r mem
  exact ⟨fun _ _ => symm, irrefl, proper⟩

end Report

namespace Adoption

/-- A report with other aliases for the first parent. -/
def rival : Report := (∅ : Report).registerModel first child child [childOf second]

/-- The first parent gets its aliases and its module a virtual module, and then a report is merged
that is in conflict with the former. -/
def rivalry : List Report.Change :=
  [.registerModel first second second [childOf first], .registerModule parents childModule,
    .merge rival]

theorem fair_rivalry : ∀ c ∈ rivalry, c.Fair := by
  have paired : rival.Mutual := Report.mutual_empty.registerModel _ _ _ _
  simpa [rivalry, Report.Change.Fair] using paired

/-- The merge stops at the conflict, and what it leaves relates the two modules to each other. -/
theorem rivalry_mutual :
    (∀ c ∈ rivalry, c.Fair) ∧
      ∃ r ∈ rivalry.scanl Report.change ∅, (r.merge rival).conflict ≠ none ∧
        childModule ∈ (r.merge rival).report.relatedTo parents ∧
        parents ∈ (r.merge rival).report.relatedTo childModule := by
  have after : (rivalry.dropLast.foldl Report.change ∅) ∈ rivalry.scanl Report.change ∅ := by
    simp [rivalry]
  have last : ((rivalry.dropLast.foldl Report.change ∅).merge rival).report ∈
      rivalry.scanl Report.change ∅ := by
    simp [rivalry, Report.change]
  have related : childModule ∈
      ((rivalry.dropLast.foldl Report.change ∅).merge rival).report.relatedTo parents := by
    decide
  refine ⟨fair_rivalry, _, after, by decide, related, ?_⟩
  exact (Report.mutual_of_changes fair_rivalry _ last).1 _ _ related

end Adoption

end VirtualModules
