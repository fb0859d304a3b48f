import VirtualModules.Proofs.DependencyClosures

/-!
# Repeated dependencies

What an answer adds to the dependencies of a file stands in it once and was not among them
(`modules_additionalDeps`), so a module stands in it twice only where the dependencies before repeat
it (`Report.additionalDeps_once`). A file that gets no additional dependencies keeps such a repeated
one (`Adoption.childTwice_repeated`).
-/

namespace VirtualModules

/-- The modules that a list of dependencies is on, as often as it has them. -/
def modulesOf (deps : List Dep) : List ImportPath := deps.map (·.module)

theorem mem_modulesOf_iff {deps : List Dep} {m : ImportPath} :
    m ∈ modulesOf deps ↔ Listed deps m := List.mem_map

theorem modulesOf_append_unplaced (deps : List Dep) (priority : Int) (added : List ImportPath) :
    modulesOf (deps ++ added.map (.unplaced priority)) = modulesOf deps ++ added := by
  rw [modulesOf, List.map_append, List.map_map]
  exact congrArg _ (List.map_id added)

namespace Report

variable {r : Report} {q : DepsRequest} {s : ClosureSettings}

/-- The settings module is not added once more as a virtual module, and these are in ascending
order. -/
theorem nodup_added : ((addedSettings q s).toList ++ r.addedModules q s).Nodup := by
  have ascending : (r.addedModules q s).Pairwise (· < ·) :=
    (r.reachableVirtualModules q).ascending.filter _
  refine List.nodup_append.mpr ⟨?_, ascending.imp Std.ne_of_lt, ?_⟩
  · cases addedSettings q s with
    | none => exact .nil
    | some m => exact List.nodup_singleton m
  · intro m settings v found same
    obtain ⟨-, -, other⟩ := mem_addedModules_iff.mp found
    exact other (same ▸ Option.mem_toList.mp settings)

theorem not_listed_of_added {m : ImportPath}
    (added : m ∈ (addedSettings q s).toList ++ r.addedModules q s) : ¬ Listed q.superDeps m := by
  rw [not_listed_iff]
  rcases List.mem_append.mp added with settings | found
  · exact (addedSettings_eq_some_iff.mp (Option.mem_toList.mp settings)).2.2
  · exact (mem_addedModules_iff.mp found).2.1

/-- An answer goes on from the dependencies that are there with different modules that are not among
theirs. -/
theorem modules_additionalDeps (r : Report) (q : DepsRequest) (s : ClosureSettings) :
    ∃ added, modulesOf (r.additionalDeps q s) = modulesOf q.superDeps ++ added ∧ added.Nodup ∧
      ∀ m ∈ added, m ∉ modulesOf q.superDeps := by
  by_cases excluded : s.Excludes q.file
  · exact ⟨[], by rw [additionalDeps_of_excluded excluded, List.append_nil], .nil, nofun⟩
  · refine ⟨(addedSettings q s).toList ++ r.addedModules q s, ?_, nodup_added, fun m added => ?_⟩
    · rw [additionalDeps_of_included excluded, modulesOf_append_unplaced]
    · rw [mem_modulesOf_iff]
      exact not_listed_of_added added

/-- A file in an excluded namespace keeps just the dependencies that it had. A module that these do
not repeat stands in the answer once at most, for any file; so no module stands in the answer twice
if none did before. -/
theorem additionalDeps_once (r : Report) (q : DepsRequest) (s : ClosureSettings) :
    (s.Excludes q.file → r.additionalDeps q s = q.superDeps) ∧
    (∀ m, (modulesOf q.superDeps).count m ≤ 1 →
      (modulesOf (r.additionalDeps q s)).count m ≤ 1) ∧
    ((modulesOf q.superDeps).Nodup → (modulesOf (r.additionalDeps q s)).Nodup) := by
  obtain ⟨added, modules, distinct, fresh⟩ := modules_additionalDeps r q s
  rw [modules]
  have once : ∀ m, (modulesOf q.superDeps).count m ≤ 1 →
      (modulesOf q.superDeps ++ added).count m ≤ 1 := by
    intro m before
    have add := List.nodup_iff_count_le_one.mp distinct m
    rw [List.count_append]
    by_cases new : m ∈ added
    · have absent := List.count_eq_zero.mpr (fresh m new)
      omega
    · have none := List.count_eq_zero.mpr new
      omega
  refine ⟨additionalDeps_of_excluded, once, ?_⟩
  intro before
  rw [List.nodup_iff_count_le_one]
  exact fun m => once m (List.nodup_iff_count_le_one.mp before m)

end Report

namespace Adoption

/-- A virtual module depends on the child twice. -/
def childTwice : DepsRequest :=
  ⟨⟨"__virtual_deps__.parents", by decide⟩, [first], [⟨5, child, 3⟩, ⟨5, child, 3⟩], none⟩

theorem childTwice_excluded : generator.settings.closureSettings.Excludes childTwice.file := by
  rw [← ClosureSettings.excludes_iff]
  decide

/-- And so it does in the answer. -/
theorem childTwice_repeated :
    ¬ (modulesOf
      (parentsOffered.additionalDeps childTwice generator.settings.closureSettings)).Nodup := by
  rw [Report.additionalDeps_of_excluded childTwice_excluded]
  decide

/-- A file with one dependency has no module twice in its answer, and the virtual module keeps what
it had. -/
theorem bothImported_once :
    (modulesOf
      (parentsOffered.additionalDeps bothImported generator.settings.closureSettings)).Nodup ∧
    parentsOffered.additionalDeps childTwice generator.settings.closureSettings =
      childTwice.superDeps := by
  obtain ⟨-, -, distinct⟩ :=
    Report.additionalDeps_once parentsOffered bothImported generator.settings.closureSettings
  obtain ⟨kept, -, -⟩ :=
    Report.additionalDeps_once parentsOffered childTwice generator.settings.closureSettings
  exact ⟨distinct (List.nodup_singleton child), kept childTwice_excluded⟩

end Adoption

end VirtualModules
