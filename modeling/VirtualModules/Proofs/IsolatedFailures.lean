import VirtualModules.Proofs.FailedModules
import VirtualModules.Proofs.PassReports

/-!
# Failures are isolated and have one cause

Every alias that an artifact registers is its virtual path with the name of the alias appended,
which no path refuses (`join_of_binds`), and a snapshot knows the models of its modules. So all that
an installed module can fail for is a path that the explicit table lists for one of its models and
that no model has. The module fails with the first such path (`artifact_eq_error_iff`), and all
others are as they would be if the table did not list the models of failing modules
(`artifact_withoutFailing`). Together these are `failures_isolated`.
-/

namespace VirtualModules

/-! ## Names of aliases -/

theorem ImportPath.join_identifier (p : ImportPath) (name : Identifier) :
    p.join name.text = .ok (p.child name) :=
  ImportPath.ofString_text (p.child name)

theorem join_concreteAlias (virtual model : ImportPath) :
    virtual.join ("Concrete__" ++ model.name.text) = .ok (virtual.child (concreteAlias model)) := by
  rw [← virtual.join_identifier, concreteAlias_text]

theorem join_querysetAlias (virtual model : ImportPath) :
    virtual.join ("ConcreteQuerySet__" ++ model.name.text) =
      .ok (virtual.child (querysetAlias model)) := by
  rw [← virtual.join_identifier, querysetAlias_text]

/-- The aliases that the report of some facts binds are those that joining the virtual path with
their names gives; no name is refused. -/
theorem Facts.join_of_binds (f : Facts) {model path : ImportPath} :
    (f.report.Binds .concreteAliases model path →
        f.summary.virtualPath.join ("Concrete__" ++ model.name.text) = .ok path) ∧
      (f.report.Binds .querysetAliases model path →
        f.summary.virtualPath.join ("ConcreteQuerySet__" ++ model.name.text) = .ok path) := by
  constructor
  · intro bound
    rcases f.binds_report_iff.mp bound with ⟨-, same⟩ | ⟨other, -⟩
    · rw [join_concreteAlias, Option.some.inj same]
    · cases other
  · intro bound
    rcases f.binds_report_iff.mp bound with ⟨-, same⟩ | ⟨other, -⟩
    · rw [join_querysetAlias, Option.some.inj same]
    · cases other

/-! ## The first path that no model has -/

namespace Snapshot

def Unknown (s : Snapshot) (p : ImportPath) : Prop := s.model? p = none

instance (s : Snapshot) : DecidablePred s.Unknown := fun p =>
  inferInstanceAs (Decidable (s.model? p = none))

/-- The paths that the explicit table lists for the models of a module, one model after the
other. -/
def listed (s : Snapshot) (m : SourceModule) : List ImportPath :=
  m.models.values.flatMap fun model => (s.explicit? model.path).getD []

/-- The first path listed for an installed module that no model has. -/
def missing? (s : Snapshot) (m : SourceModule) : Option ImportPath :=
  if m.installed then (s.listed m).find? (s.Unknown ·) else none

theorem findModel_of_known {s : Snapshot} {p : ImportPath} (known : ¬ s.Unknown p) :
    ∃ model, s.findModel p = .ok model := by
  obtain ⟨model, found⟩ := Option.ne_none_iff_exists'.mp known
  exact ⟨model, by rw [findModel, found]⟩

theorem findModel_of_unknown {s : Snapshot} {p : ImportPath} (unknown : s.Unknown p) :
    s.findModel p = .error (.unknown p) := by
  rw [findModel, unknown]

/-- Looking models up stops at the first path that none has. -/
theorem mapM_findModel (s : Snapshot) (paths : List ImportPath) :
    (∃ models, paths.find? (s.Unknown ·) = none ∧ paths.mapM s.findModel = .ok models) ∨
      ∃ p, paths.find? (s.Unknown ·) = some p ∧ paths.mapM s.findModel = .error (.unknown p) := by
  induction paths with
  | nil => exact .inl ⟨[], rfl, rfl⟩
  | cons p rest ih =>
    simp only [List.mapM_cons]
    by_cases unknown : s.Unknown p
    · refine .inr ⟨p, by simp [unknown], ?_⟩
      rw [findModel_of_unknown unknown]
      rfl
    · obtain ⟨model, found⟩ := findModel_of_known unknown
      have skip : (p :: rest).find? (s.Unknown ·) = rest.find? (s.Unknown ·) := by
        simp [unknown]
      rw [skip, found]
      rcases ih with ⟨models, none, all⟩ | ⟨q, first, failed⟩
      · exact .inl ⟨model :: models, none, by rw [all]; rfl⟩
      · exact .inr ⟨q, first, by rw [failed]; rfl⟩

/-- The descendants of a model that is known are found unless the table lists a path for it that no
model has. -/
theorem concreteModels_of_known {s : Snapshot} {parent : ImportPath} {model : Model}
    (known : s.findModel parent = .ok model) :
    (∃ concrete, ((s.explicit? parent).getD []).find? (s.Unknown ·) = none ∧
        s.concreteModels parent = .ok concrete) ∨
      ∃ p, ((s.explicit? parent).getD []).find? (s.Unknown ·) = some p ∧
        s.concreteModels parent = .error (.unknown p) := by
  simp only [concreteModels, known]
  cases s.explicit? parent with
  | none => exact .inl ⟨_, rfl, rfl⟩
  | some paths =>
    rcases s.mapM_findModel paths with ⟨models, none, all⟩ | ⟨p, first, failed⟩
    · exact .inl ⟨_, none, by simp only [all]; rfl⟩
    · exact .inr ⟨p, first, by simp only [failed]; rfl⟩

/-- Entering the descendants of known models one after the other stops at the first path listed for
them that no model has. -/
theorem foldlM_concrete_of_known {s : Snapshot} {models : List Model}
    (known : ∀ model ∈ models, s.findModel model.path = .ok model) (start : ConcreteTable) :
    let listed := models.flatMap fun model => (s.explicit? model.path).getD []
    let entered := models.foldlM (m := Except ModelError)
      (fun table model => return table.insert model.path (← s.concreteModels model.path)) start
    (∃ table, listed.find? (s.Unknown ·) = none ∧ entered = .ok table) ∨
      ∃ p, listed.find? (s.Unknown ·) = some p ∧ entered = .error (.unknown p) := by
  induction models generalizing start with
  | nil => exact .inl ⟨start, rfl, rfl⟩
  | cons model rest ih =>
    obtain ⟨first_known, rest_known⟩ := List.forall_mem_cons.mp known
    simp only [List.flatMap_cons, List.find?_append, List.foldlM_cons]
    rcases concreteModels_of_known first_known with ⟨concrete, none, found⟩ | ⟨p, first, failed⟩
    · rw [none, Option.none_or, found]
      exact ih rest_known (start.insert model.path concrete)
    · exact .inr ⟨p, by rw [first, Option.some_or], by rw [failed]; rfl⟩

end Snapshot

section Module

variable {g : Generator} {s : Snapshot} {m : SourceModule}

/-- A module gives an artifact unless a path listed for it is unknown, and then it fails with the
first of these. -/
theorem artifact_cases (g : Generator) (built : s.Built) (mem : m ∈ s.moduleList) :
    (∃ a, s.missing? m = none ∧ g.artifact s m = .ok a) ∨
      ∃ p, s.missing? m = some p ∧ g.artifact s m = .error (.unknown p) := by
  cases installed : m.installed with
  | false =>
    exact .inl ⟨_, by simp [Snapshot.missing?, installed], artifact_of_uninstalled g s installed⟩
  | true =>
    have known : ∀ model ∈ m.models.values, s.findModel model.path = .ok model :=
      fun _ here => built.consistent.findModel_ok mem here
    have listed : s.missing? m = (s.listed m).find? (s.Unknown ·) := by
      simp [Snapshot.missing?, installed]
    rw [listed]
    rcases Snapshot.foldlM_concrete_of_known known ∅ with ⟨table, none, found⟩ | ⟨p, first, failed⟩
    · exact .inl ⟨_, none, artifact_of_concreteTable installed found⟩
    · refine .inr ⟨p, first, ?_⟩
      rw [← concreteTable] at failed
      rw [Generator.artifact, Facts.gather, if_pos installed, failed]
      rfl

theorem artifact_eq_error_iff (built : s.Built) (mem : m ∈ s.moduleList) {e : ModelError} :
    g.artifact s m = .error e ↔ ∃ p, s.missing? m = some p ∧ e = .unknown p := by
  rcases artifact_cases g built mem with ⟨a, none, found⟩ | ⟨p, first, failed⟩
  · simp [none, found]
  · simp [first, failed, eq_comm]

theorem artifact_of_missing_eq_none (built : s.Built) (mem : m ∈ s.moduleList)
    (none : s.missing? m = none) : ∃ a, g.artifact s m = .ok a := by
  rcases artifact_cases g built mem with ⟨a, -, found⟩ | ⟨p, first, -⟩
  · exact ⟨a, found⟩
  · rw [none] at first
    cases first

end Module

theorem Snapshot.isSome_missing?_iff {s : Snapshot} {m : SourceModule} :
    (s.missing? m).isSome = true ↔ m.installed = true ∧ ∃ model ∈ m.models.values, ∃ paths,
      s.explicit? model.path = some paths ∧ ∃ p ∈ paths, s.model? p = none := by
  unfold Snapshot.missing? Snapshot.listed
  split
  · next installed =>
    simp only [installed, true_and, List.find?_isSome, List.mem_flatMap, decide_eq_true_iff]
    constructor
    · rintro ⟨p, ⟨model, mem, here⟩, unknown⟩
      obtain ⟨paths, explicit⟩ : ∃ paths, s.explicit? model.path = some paths := by
        cases explicit : s.explicit? model.path with
        | none => simp [explicit] at here
        | some paths => exact ⟨paths, rfl⟩
      exact ⟨model, mem, paths, explicit, p, by simpa [explicit] using here, unknown⟩
    · rintro ⟨model, mem, paths, explicit, p, here, unknown⟩
      exact ⟨p, ⟨model, mem, by simpa [explicit] using here⟩, unknown⟩
  · next uninstalled => simp [uninstalled]

/-! ## Modules that do not fail -/

namespace Snapshot

/-- The modules that are installed and have a listed path that no model has. -/
def failing (s : Snapshot) : List SourceModule :=
  s.moduleList.filter fun m => (s.missing? m).isSome

/-- The snapshot with a table that does not list the models of failing modules. -/
def withoutFailing (s : Snapshot) : Snapshot :=
  { s with explicit := s.explicit.map fun table => table.filter fun p _ =>
      s.failing.all fun m => m.models.values.all fun model => model.path ≠ p }

theorem explicit?_withoutFailing {s : Snapshot} (built : s.Built) {m : SourceModule}
    (mem : m ∈ s.moduleList) (none : s.missing? m = none) {model : Model}
    (here : model ∈ m.models.values) :
    s.withoutFailing.explicit? model.path = s.explicit? model.path := by
  -- no failing module has the model, since the modules of a snapshot share none
  have kept : (s.failing.all fun n => n.models.values.all fun other =>
      other.path ≠ model.path) = true := by
    simp only [List.all_eq_true, decide_eq_true_eq]
    intro n failing other mem_other same
    obtain ⟨mem_n, fails⟩ := List.mem_filter.mp failing
    have found_m := built.consistent.mem_moduleList_iff.mp mem
    have found_n := built.consistent.mem_moduleList_iff.mp mem_n
    have paths := built.consistent.model_owner found_n found_m other mem_other model here same
    rw [paths, found_m] at found_n
    cases found_n
    rw [none] at fails
    cases fails
  unfold withoutFailing explicit?
  cases s.explicit with
  | none => rfl
  | some table =>
    rw [Option.map_some, Option.bind_some, Option.bind_some, Table.get?_filter, kept]
    cases table.get? model.path <;> rfl

end Snapshot

theorem concreteTable_congr {s s' : Snapshot} {m : SourceModule}
    (same : ∀ model ∈ m.models.values,
      s.concreteModels model.path = s'.concreteModels model.path) :
    concreteTable s m = concreteTable s' m := by
  unfold concreteTable
  generalize (∅ : ConcreteTable) = start
  generalize m.models.values = models at same
  induction models generalizing start with
  | nil => rfl
  | cons model rest ih =>
    obtain ⟨first, others⟩ := List.forall_mem_cons.mp same
    rw [List.foldlM_cons, List.foldlM_cons, first]
    exact bind_congr fun table => ih table others

/-- What a module gives does not change with the entries of failing modules. -/
theorem artifact_withoutFailing (g : Generator) {s : Snapshot} (built : s.Built) {m : SourceModule}
    (mem : m ∈ s.moduleList) (none : s.missing? m = none) :
    g.artifact s.withoutFailing m = g.artifact s m := by
  have table : concreteTable s.withoutFailing m = concreteTable s m := by
    refine concreteTable_congr fun model here => ?_
    unfold Snapshot.concreteModels
    rw [Snapshot.explicit?_withoutFailing built mem none here]
    rfl
  unfold Generator.artifact Facts.gather
  rw [table]
  rfl

/-! ## Together -/

/-- Where a map that may drop values drops just those that a filter drops, it relates what the
filter keeps to its values, in order. -/
theorem forall₂_filterMap {α β : Type} {R : α → β → Prop} {keep : α → Bool} {f : α → Option β}
    {l : List α} (kept : ∀ a ∈ l, keep a = true → ∃ b, f a = some b ∧ R a b)
    (dropped : ∀ a ∈ l, keep a = false → f a = none) :
    List.Forall₂ R (l.filter keep) (l.filterMap f) := by
  induction l with
  | nil => exact .nil
  | cons a rest ih =>
    obtain ⟨kept_a, kept_rest⟩ := List.forall_mem_cons.mp kept
    obtain ⟨dropped_a, dropped_rest⟩ := List.forall_mem_cons.mp dropped
    have others := ih kept_rest dropped_rest
    cases keeps : keep a with
    | false =>
      rw [List.filter_cons_of_neg (by simp [keeps]), List.filterMap_cons_none (dropped_a keeps)]
      exact others
    | true =>
      obtain ⟨b, found, related⟩ := kept_a keeps
      rw [List.filter_cons_of_pos keeps, List.filterMap_cons_some found]
      exact .cons related others

/-- Every module of an accepted snapshot gives one artifact or one failure, both in the order of
the modules' paths. It fails exactly if it is installed and the table lists a path for one of its
models that no model has, and then with the first such path. The artifacts of all others are as if
the table did not list the models of failing modules, and all the aliases that they register join
with their virtual paths. -/
theorem failures_isolated (g : Generator) {s : Snapshot} (accepted : s.Accepted) :
    (s.moduleList.map (·.path)).Pairwise (· < ·) ∧
      List.Forall₂
        (fun m a => g.artifact s m = .ok a ∧
          a.virtualPath = virtualPath g.settings.nspace m.path ∧
          g.artifact s.withoutFailing m = .ok a)
        (s.moduleList.filter fun m => (s.missing? m).isNone) (g.artifacts s) ∧
      g.failures s = s.moduleList.filterMap
        (fun m => (s.missing? m).map fun p => ⟨m.path, .unknown p⟩) ∧
      (∀ m ∈ s.moduleList, (s.missing? m).isSome = true ↔
        m.installed = true ∧ ∃ model ∈ m.models.values, ∃ paths,
          s.explicit? model.path = some paths ∧ ∃ p ∈ paths, s.model? p = none) ∧
      ∀ a ∈ g.artifacts s, ∀ model path,
        (a.report.Binds .concreteAliases model path →
          a.virtualPath.join ("Concrete__" ++ model.name.text) = .ok path) ∧
        (a.report.Binds .querysetAliases model path →
          a.virtualPath.join ("ConcreteQuerySet__" ++ model.name.text) = .ok path) := by
  have built := accepted.built
  refine ⟨?_, ?_, ?_, fun m _ => Snapshot.isSome_missing?_iff, ?_⟩
  · have keys : s.moduleList.map (·.path) = s.modules.keys := by
      rw [Snapshot.moduleList, Table.values, List.map_map]
      refine List.map_congr_left fun e mem => ?_
      exact built.consistent.module_path (Table.get?_eq_some_iff.mpr mem)
    rw [keys]
    exact s.modules.keys_ascending
  · refine forall₂_filterMap (fun m mem kept => ?_) fun m mem dropped => ?_
    · have none : s.missing? m = none := Option.isNone_iff_eq_none.mp kept
      obtain ⟨a, found⟩ := artifact_of_missing_eq_none (g := g) built mem none
      exact ⟨a, by rw [found]; rfl, found, virtualPath_of_artifact found,
        (artifact_withoutFailing g built mem none).trans found⟩
    · rcases artifact_cases g built mem with ⟨a, none, -⟩ | ⟨p, -, failed⟩
      · simp [none] at dropped
      · rw [failed]
        rfl
  · refine List.filterMap_congr fun m mem => ?_
    rcases artifact_cases g built mem with ⟨a, none, found⟩ | ⟨p, first, failed⟩
    · rw [none, found]
      rfl
    · rw [first, failed]
      rfl
  · intro a mem model path
    obtain ⟨m, -, found⟩ := mem_artifacts_iff.mp mem
    obtain ⟨f, -, rfl⟩ := artifact_ok found
    exact f.join_of_binds

namespace Adoption

/-- The child's module fails for the model that is missing, and the parents' module gives its
artifact. -/
theorem orphaned_isolated : orphaned.Accepted ∧
    generator.failures orphaned = [⟨childModule, .unknown missing⟩] ∧
    ∃ a, generator.artifacts orphaned = [a] ∧ generator.artifact orphaned parentModule = .ok a ∧
      generator.artifact orphaned.withoutFailing parentModule = .ok a := by
  have accepted : orphaned.Accepted := adoption_accepted.withExplicit _
  obtain ⟨-, artifacts, failures, -⟩ := failures_isolated generator accepted
  have fails : orphaned.moduleList.filterMap
      (fun m => (orphaned.missing? m).map fun p => (⟨m.path, .unknown p⟩ : Failure)) =
        [⟨childModule, .unknown missing⟩] := rfl
  have kept : (orphaned.moduleList.filter fun m => (orphaned.missing? m).isNone) =
      [parentModule] := rfl
  rw [kept] at artifacts
  obtain ⟨a, rest, ⟨found, -, same⟩, others, all⟩ := List.forall₂_cons_left_iff.mp artifacts
  cases others
  exact ⟨accepted, failures.trans fails, a, all, found, same⟩

end Adoption

end VirtualModules
