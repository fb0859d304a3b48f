import VirtualModules.Report.Closure
import VirtualModules.Proofs.Namespaces
import VirtualModules.Proofs.ReachableModules

/-!
# The additional dependencies of a file

What a file depends on besides what it names, told without the search: the settings module if the
file reads settings (`DepsRequest.NeedsSettings`), and the virtual modules of all modules reached
from the file, the namespaces of its imports and what it depends on already
(`DepsRequest.Starts`). `Report.additionalDeps_closure` says in which order these are added, that
none is added twice, and that the search for them comes to an end.
-/

namespace VirtualModules

/-- The file lies in a namespace whose files get no additional dependencies. -/
def ClosureSettings.Excludes (s : ClosureSettings) (file : ImportPath) : Prop :=
  file.LiesWithin s.virtualNamespace ∨ ∃ nspace ∈ s.engineNamespaces, file.LiesWithin nspace

theorem ClosureSettings.excludes_iff {s : ClosureSettings} {file : ImportPath} :
    s.excludes file = true ↔ s.Excludes file := by
  simp only [excludes, Excludes, List.any_cons, Bool.or_eq_true, List.any_eq_true,
    ImportPath.isWithin_iff]

namespace DepsRequest

/-- The file, the namespaces of all that it imports, and the modules that it depends on. -/
def Starts (q : DepsRequest) (m : ImportPath) : Prop :=
  m = q.file ∨ (∃ i ∈ q.imports, i.LiesWithin m) ∨ ∃ d ∈ q.superDeps, d.module = m

/-- The settings module, of which an import is the name or lies within an accessor, where the file
does not depend on it yet. -/
def NeedsSettings (q : DepsRequest) (accessors : List ImportPath) (m : ImportPath) : Prop :=
  q.settingsModule = some m ∧
    (∃ i ∈ q.imports, i = m ∨ ∃ accessor ∈ accessors, i.LiesWithin accessor) ∧
    ∀ d ∈ q.superDeps, d.module ≠ m

theorem readsSettings_iff {q : DepsRequest} {accessors : List ImportPath} {m : ImportPath} :
    q.readsSettings accessors m = true ↔
      ∃ i ∈ q.imports, i = m ∨ ∃ accessor ∈ accessors, i.LiesWithin accessor := by
  simp only [readsSettings, List.any_eq_true, Bool.or_eq_true, beq_iff_eq, ImportPath.isWithin_iff]

end DepsRequest

/-! ## Adding dependencies -/

/-- A list of dependencies has one on the module. -/
def Listed (deps : List Dep) (m : ImportPath) : Prop := ∃ d ∈ deps, d.module = m

theorem not_listed_iff {deps : List Dep} {m : ImportPath} :
    ¬ Listed deps m ↔ ∀ d ∈ deps, d.module ≠ m := by
  simp only [Listed, not_exists, not_and, ne_eq]

theorem addDep_of_listed {priority : Int} {deps : List Dep} {m : ImportPath}
    (listed : ∃ d ∈ deps, d.module = m) : addDep priority deps m = deps :=
  if_pos (by simpa only [List.any_eq_true, beq_iff_eq] using listed)

theorem addDep_of_unlisted {priority : Int} {deps : List Dep} {m : ImportPath}
    (unlisted : ∀ d ∈ deps, d.module ≠ m) :
    addDep priority deps m = deps ++ [.unplaced priority m] :=
  if_neg (by simpa only [List.any_eq_true, beq_iff_eq, not_exists, not_and] using unlisted)

/-- Different modules are added one after the other, except those that are listed. -/
theorem foldl_addDep (priority : Int) {l : List ImportPath} (distinct : l.Nodup) (deps : List Dep) :
    l.foldl (addDep priority) deps =
      deps ++ (l.filter fun m => ∀ d ∈ deps, d.module ≠ m).map (.unplaced priority) := by
  induction l generalizing deps with
  | nil => simp
  | cons m rest ih =>
    obtain ⟨fresh, distinct⟩ := List.nodup_cons.mp distinct
    rw [List.foldl_cons, ih distinct]
    by_cases unlisted : ∀ d ∈ deps, d.module ≠ m
    · -- being listed now or before is the same for all others
      have others : (rest.filter fun n => ∀ d ∈ deps ++ [.unplaced priority m], d.module ≠ n) =
          rest.filter fun n => ∀ d ∈ deps, d.module ≠ n := by
        refine List.filter_congr fun n mem => decide_eq_decide.mpr ?_
        have differs : m ≠ n := fun same => fresh (same ▸ mem)
        simp [or_imp, forall_and, Dep.unplaced, differs]
      rw [addDep_of_unlisted unlisted, others, List.filter_cons_of_pos (by simpa using unlisted),
        List.map_cons, List.append_assoc, List.singleton_append]
    · rw [List.filter_cons_of_neg (by simpa using unlisted), addDep_of_listed (by
        simpa only [not_forall, not_not, exists_prop] using unlisted)]

namespace Report

theorem mem_seeds_iff {r : Report} {q : DepsRequest} {m : ImportPath}
    (known : r.virtualModules.contains m = true) : m ∈ r.seeds q ↔ q.Starts m := by
  simp only [seeds, DepsRequest.Starts, List.cons_append, List.mem_cons, List.mem_append,
    List.mem_flatMap, List.mem_filter, ImportPath.mem_prefixes_iff, known, and_true, List.mem_map]

/-- The virtual modules found are those of the modules that are reached. -/
theorem mem_reachableVirtualModules_iff {r : Report} {q : DepsRequest} {v : ImportPath} :
    v ∈ r.reachableVirtualModules q ↔
      ∃ m, r.Reaches q.Starts m ∧ r.virtualModules.get? m = some v :=
  Search.mem_found_run_iff fun _ => mem_seeds_iff

/-- The settings module, if it is to be added. -/
def addedSettings (q : DepsRequest) (s : ClosureSettings) : Option ImportPath :=
  q.settingsModule.filter fun m =>
    q.readsSettings s.settingsAccessors m && decide (∀ d ∈ q.superDeps, d.module ≠ m)

theorem addedSettings_eq_some_iff {q : DepsRequest} {s : ClosureSettings} {m : ImportPath} :
    addedSettings q s = some m ↔ q.NeedsSettings s.settingsAccessors m := by
  simp only [addedSettings, DepsRequest.NeedsSettings, Option.filter_eq_some_iff, Bool.and_eq_true,
    DepsRequest.readsSettings_iff, decide_eq_true_eq]

/-- The virtual modules to be added: those found that the file does not depend on, not even after
the settings module was added. -/
def addedModules (r : Report) (q : DepsRequest) (s : ClosureSettings) : List ImportPath :=
  (r.reachableVirtualModules q).toList.filter fun v =>
    (∀ d ∈ q.superDeps, d.module ≠ v) ∧ addedSettings q s ≠ some v

theorem mem_addedModules_iff {r : Report} {q : DepsRequest} {s : ClosureSettings} {v : ImportPath} :
    v ∈ r.addedModules q s ↔ (∃ m, r.Reaches q.Starts m ∧ r.virtualModules.get? m = some v) ∧
      (∀ d ∈ q.superDeps, d.module ≠ v) ∧ addedSettings q s ≠ some v := by
  rw [addedModules, List.mem_filter, SortedSet.mem_toList, mem_reachableVirtualModules_iff,
    decide_eq_true_eq]

/-- With the settings module added, the virtual modules found go on from there. -/
theorem additionalDeps_eq_foldl {r : Report} {q : DepsRequest} {s : ClosureSettings}
    (included : ¬ s.Excludes q.file) :
    r.additionalDeps q s = (r.reachableVirtualModules q).toList.foldl (addDep s.priority)
      (q.superDeps ++ (addedSettings q s).toList.map (.unplaced s.priority)) := by
  rw [additionalDeps, if_neg fun excluded => included (ClosureSettings.excludes_iff.mp excluded)]
  unfold addedSettings
  cases q.settingsModule with
  | none => simp
  | some m =>
    dsimp only
    by_cases reads : q.readsSettings s.settingsAccessors m = true
    · by_cases unlisted : ∀ d ∈ q.superDeps, d.module ≠ m
      · rw [Option.filter_some_pos (by simpa [reads] using unlisted), if_pos reads,
          addDep_of_unlisted unlisted]
        rfl
      · have listed : ∃ d ∈ q.superDeps, d.module = m := by simpa using unlisted
        rw [Option.filter_some_neg (by simpa [reads] using listed), if_pos reads,
          addDep_of_listed listed, Option.toList_none, List.map_nil, List.append_nil]
    · rw [Option.filter_some_neg (by simp [reads]), if_neg reads, Option.toList_none,
        List.map_nil, List.append_nil]

theorem additionalDeps_of_included {r : Report} {q : DepsRequest} {s : ClosureSettings}
    (included : ¬ s.Excludes q.file) :
    r.additionalDeps q s = q.superDeps ++
      ((addedSettings q s).toList ++ r.addedModules q s).map (.unplaced s.priority) := by
  have distinct := (r.reachableVirtualModules q).ascending.imp Std.ne_of_lt
  rw [additionalDeps_eq_foldl included, foldl_addDep _ distinct, List.append_assoc,
    ← List.map_append]
  congr 3
  refine List.filter_congr fun v _ => decide_eq_decide.mpr ?_
  cases addedSettings q s <;> simp [or_imp, forall_and, Dep.unplaced]

theorem additionalDeps_of_excluded {r : Report} {q : DepsRequest} {s : ClosureSettings}
    (excluded : s.Excludes q.file) :
    r.additionalDeps q s = q.superDeps := by
  rw [additionalDeps, if_pos (ClosureSettings.excludes_iff.mpr excluded)]

/-- An answer lists what was listed before, the settings module of a file that reads settings, and
the virtual modules of all that is reached. -/
theorem listed_additionalDeps_iff {r : Report} {q : DepsRequest} {s : ClosureSettings}
    {m : ImportPath} (included : ¬ s.Excludes q.file) :
    Listed (r.additionalDeps q s) m ↔ Listed q.superDeps m ∨
      (q.settingsModule = some m ∧ q.readsSettings s.settingsAccessors m = true) ∨
      ∃ n, r.Reaches q.Starts n ∧ r.virtualModules.get? n = some m := by
  have added : Listed (r.additionalDeps q s) m ↔
      Listed q.superDeps m ∨ addedSettings q s = some m ∨ m ∈ r.addedModules q s := by
    rw [additionalDeps_of_included included]
    simp [Listed, or_and_right, exists_or, Dep.unplaced]
  rw [added, mem_addedModules_iff, ne_eq, addedSettings_eq_some_iff, DepsRequest.NeedsSettings,
    ← DepsRequest.readsSettings_iff, ← not_listed_iff]
  by_cases before : Listed q.superDeps m
  · simp [before]
  · -- the settings module is not added once more as a virtual module
    by_cases settings : q.settingsModule = some m ∧ q.readsSettings s.settingsAccessors m = true
    · simp [before, settings]
    · simp only [before, settings, not_false_eq_true, and_true, false_or]

/-- A file in the virtual namespace or in one of the engine keeps the dependencies it has. Any other
file has after these the settings module if it needs it, then in ascending order the virtual modules
not listed so far of the modules reached from it, all with the same priority and in no line. The
search for them ends after some rounds. -/
theorem additionalDeps_closure (r : Report) (q : DepsRequest) (s : ClosureSettings) :
    (s.Excludes q.file → r.additionalDeps q s = q.superDeps) ∧
    (¬ s.Excludes q.file → ∃ (settings : Option ImportPath) (found : List ImportPath),
      r.additionalDeps q s =
        q.superDeps ++ (settings.toList ++ found).map (fun m => ⟨s.priority, m, -1⟩) ∧
      (∀ m, settings = some m ↔ q.NeedsSettings s.settingsAccessors m) ∧
      found.Pairwise (· < ·) ∧
      ∀ v, v ∈ found ↔ (∃ m, r.Reaches q.Starts m ∧ r.virtualModules.get? m = some v) ∧
        (∀ d ∈ q.superDeps, d.module ≠ v) ∧ settings ≠ some v) ∧
    ∃ rounds ≤ (Search.start (r.seeds q)).work r,
      ((Search.step r)^[rounds] (.start (r.seeds q))).pending = [] ∧
      ((Search.step r)^[rounds] (.start (r.seeds q))).found = r.reachableVirtualModules q := by
  refine ⟨fun excluded => ?_, fun included => ?_, ?_⟩
  · rw [additionalDeps, if_pos (ClosureSettings.excludes_iff.mpr excluded)]
  · exact ⟨addedSettings q s, r.addedModules q s, additionalDeps_of_included included,
      fun _ => addedSettings_eq_some_iff, (r.reachableVirtualModules q).ascending.filter _,
      fun _ => mem_addedModules_iff⟩
  · obtain ⟨rounds, bound, same, ended⟩ := Search.run_eq_iterate r (.start (r.seeds q))
    exact ⟨rounds, bound, same ▸ ended, by rw [← same, reachableVirtualModules]⟩

end Report

end VirtualModules
