import VirtualModules.CommandLine.Commands
import VirtualModules.Proofs.FailedModules
import VirtualModules.Proofs.ReportFiles

/-!
# Printed summaries

A pass reads stored summaries with the modules of its snapshot in mind, the command that prints them
with those of the stored report, which are the modules that did not fail (`liveModules_iff`).

* `summary_of_runPass`: a file that has a summary for the pass states one of a module (`States`),
  and the command prints it unless this module failed in the pass. Then it prints that there is
  none.
* `kept_prints_none`: the kept artifact of a module that failed is such a file.
-/

namespace VirtualModules

open CommandLine

/-! ## What a file states -/

/-- The file that names lead to has the extension of artifacts, and its stamp names the module and
the summary. -/
def States (t : FileTree) (extension : String) (names : Location) (module : ImportPath)
    (text : String) : Prop :=
  ∃ content document stamp, t.read? names = some content ∧
    (fileName? names).bind extension? = some extension ∧
    Bytes.toText? content = some document ∧ Stamp.scan document = some stamp ∧
    ImportPath.ofString (String.ofList stamp.module) = .ok module ∧
    text = String.ofList stamp.summary

section States

variable {t : FileTree} {extension : String} {names : Location} {module : ImportPath}
  {text : String}

theorem States.storedSummary? (states : States t extension names module text)
    (resolver : Resolver) : storedSummary? t resolver extension names =
      if resolver t module then some text else none := by
  obtain ⟨content, document, stamp, read, named, readable, scanned, path, rfl⟩ := states
  simp [VirtualModules.storedSummary?, summaryOf?, read, named, readable, scanned, path,
    Except.toOption]

/-- A file has a summary if it states one of a module that is known. -/
theorem storedSummary?_eq_some_iff {resolver : Resolver} :
    storedSummary? t resolver extension names = some text ↔
      ∃ module, States t extension names module text ∧ resolver t module = true := by
  constructor
  · intro stored
    obtain ⟨content, read, stored⟩ := Option.bind_eq_some_iff.mp stored
    split at stored
    · next named =>
      obtain ⟨document, readable, found⟩ := Option.bind_eq_some_iff.mp stored
      obtain ⟨stamp, module, scanned, path, known, same⟩ := summaryOf?_eq_some_iff.mp found
      exact ⟨module, ⟨content, document, stamp, read, named, readable, scanned, path, same⟩,
        known⟩
    · cases stored
  · rintro ⟨module, states, known⟩
    rw [states.storedSummary?, if_pos known]

/-- A file with the artifact of an installed module states its path and its summary. -/
theorem states_of_artifact {g : Generator} {s : Snapshot} {m : SourceModule} {a : Artifact}
    (within : g.policy.WithinLine) (found : g.artifact s m = .ok a)
    (summary : a.summary = some text) (read : t.read? names = some (.ofText a.content))
    (named : (fileName? names).bind extension? = some extension) :
    States t extension names m.path text := by
  have stored : storedSummary? t (.ofNames fun p => decide (p = m.path)) extension names =
      some text := by
    rw [storedSummary?_of_text _ read named]
    exact (summaryOf?_artifact within found (decide_eq_true rfl)).trans summary
  obtain ⟨module, states, here⟩ := storedSummary?_eq_some_iff.mp stored
  rwa [of_decide_eq_true here] at states

end States

/-! ## Modules that did not fail -/

section Pass

variable {g : Generator} {s : Snapshot}

theorem mem_failures_iff {module : ImportPath} : module ∈ (g.failures s).map (·.module) ↔
    ∃ m ∈ s.moduleList, m.path = module ∧ ∃ e, g.artifact s m = .error e := by
  simp only [Generator.failures, List.mem_map, List.mem_filterMap]
  constructor
  · rintro ⟨failure, ⟨m, mem, failed⟩, rfl⟩
    split at failed
    · cases failed
    · next e found =>
      cases failed
      exact ⟨m, mem, rfl, e, found⟩
  · rintro ⟨m, mem, rfl, e, found⟩
    exact ⟨⟨m.path, e⟩, ⟨m, mem, by rw [found]⟩, rfl⟩

/-- The modules of the combined report are those of the snapshot that did not fail. -/
theorem binds_module_iff (built : s.Built) {c : Combined}
    (merged : combine (g.artifacts s) = .ok c) {module : ImportPath} :
    (∃ virtual, c.report.Binds .virtualModules module virtual) ↔
      s.HasPath module ∧ module ∉ (g.failures s).map (·.module) := by
  rw [mem_failures_iff]
  constructor
  · rintro ⟨virtual, binds⟩
    obtain ⟨m, mem, ⟨a, found⟩, ⟨-, -, aliased⟩ | ⟨-, rfl, -⟩⟩ :=
      (binds_combined_iff merged).mp binds
    · cases aliased
    · refine ⟨⟨m, mem, rfl⟩, ?_⟩
      rintro ⟨n, mem_n, path, e, failed⟩
      have found_m := built.consistent.mem_moduleList_iff.mp mem
      have found_n := built.consistent.mem_moduleList_iff.mp mem_n
      rw [path, found_m] at found_n
      cases found_n
      cases found.symm.trans failed
  · rintro ⟨⟨m, mem, rfl⟩, sound⟩
    have found : ∃ a, g.artifact s m = .ok a := by
      cases ended : g.artifact s m with
      | ok a => exact ⟨a, rfl⟩
      | error e => exact absurd ⟨m, mem, rfl, e, ended⟩ sound
    exact ⟨_, (binds_combined_iff merged).mpr ⟨m, mem, found, .inr ⟨rfl, rfl, rfl⟩⟩⟩

end Pass

/-! ## What is printed -/

section Printed

variable {p : Project} {t : FileTree}

theorem searchRoots_nil (none : p.settings.searchPaths = []) : p.searchRoots = [] := by
  rw [Project.searchRoots, none, List.filterMap_nil]

/-- Without search paths the command knows the modules of the stored report. -/
theorem liveModules_of_loadReport (none : p.settings.searchPaths = []) {c : Combined}
    (loaded : loadReport t p.destination = some c) (u : FileTree) {module : ImportPath} :
    liveModules t p u module = true ↔
      ∃ virtual, c.report.Binds .virtualModules module virtual := by
  simp only [liveModules, Resolver.either, Resolver.ofSet, Resolver.ofNames, Resolver.ofSearchPaths,
    searchRoots_nil none, loaded, List.any_nil, Bool.or_false, decide_eq_true_eq,
    SortedSet.mem_ofList, Option.map_some, Option.getD_some]
  rw [← Table.contains_iff_mem_keys, Table.contains, Option.isSome_iff_exists]
  rfl

/-- After a pass that stored its report these are the modules that did not fail. -/
theorem liveModules_iff (none : p.settings.searchPaths = []) {g : Generator} {s : Snapshot}
    (built : s.Built) {resolver : Resolver} {outcome : PassOutcome} {t₀ : FileTree}
    (ended : g.runPass s p.destination resolver t₀ = .ok outcome t)
    (fits : Stored.Fits outcome.combined) (u : FileTree) (module : ImportPath) :
    liveModules t p u module = true ↔
      s.HasPath module ∧ module ∉ outcome.failures.map (·.module) := by
  obtain ⟨merged, failures, t₁, -, saved⟩ := of_runPass_ok ended
  rw [liveModules_of_loadReport none ((loadReport_saveReport_iff saved).mpr fits) u,
    binds_module_iff built merged, failures]

/-- The command prints what the file states, if it knows the module. -/
theorem summary_of_states {artifact : String} {names : Location} {module : ImportPath}
    {text : String} (leads : namesFrom p.directory ⟨artifact⟩ = some names)
    (states : States t p.settings.extension names module text) :
    summary t p artifact =
      .ofOutput 0 [if liveModules t p t module then text else "None"] := by
  rw [summary, leads, Option.bind_some, states.storedSummary?]
  split <;> rfl

end Printed

/-- After a pass without search paths, each file that has a summary for the pass states one of a
module of the snapshot, and the command prints it unless this module failed in the pass. Then it
prints that the file has none. -/
theorem summary_of_runPass {p : Project} (none : p.settings.searchPaths = []) {s : Snapshot}
    (built : s.Built) {token : String} {t t' : FileTree} {outcome : PassOutcome}
    (ended : (Generator.ofSettings p.settings token).runPass s p.destination
      (passResolver p.settings.extension s p.searchRoots) t = .ok outcome t')
    (fits : Stored.Fits outcome.combined) {artifact : String} {names : Location}
    (leads : namesFrom p.directory ⟨artifact⟩ = some names) {text : String}
    (stored : storedSummary? t' (passResolver p.settings.extension s p.searchRoots)
      p.settings.extension names = some text) :
    ∃ module, States t' p.settings.extension names module text ∧ s.HasPath module ∧
      ∀ options token', runCommand t' p options token' (.summary artifact) =
        (t', .ofOutput 0 [if module ∈ outcome.failures.map (·.module) then "None" else text]) := by
  obtain ⟨module, states, known⟩ := storedSummary?_eq_some_iff.mp stored
  rw [searchRoots_nil none, passResolver_nil] at known
  have here : s.HasPath module := built.knows_iff.mp known
  refine ⟨module, states, here, fun options token' => ?_⟩
  have live := liveModules_iff none built ended fits t' module
  rw [runCommand, summary_of_states leads states]
  by_cases failed : module ∈ outcome.failures.map (·.module)
  · have unknown : ¬ liveModules t' p t' module = true := fun found => (live.mp found).2 failed
    rw [if_pos failed, if_neg unknown]
  · rw [if_neg failed, if_pos (live.mpr ⟨here, failed⟩)]

namespace Adoption

/-- A project of the generator's settings. -/
def shop : Project where
  directory := []
  config := { name := "shop", destination := ⟨"out"⟩, settings := generator.settings }

/-- How the file of the child's module is named on the command line, and what it states. -/
def childPath : String := "out/__virtual_deps__/mod_f0ee7da8b3b12a97.py"

def childSummary : String :=
  "__virtual_deps__.mod_f0ee7da8b3b12a97::ext.models" ++
    "::installed_apps=0e069c684d23fb35f5534b95ffd6c825" ++
    "::significant=e5ff5cea0b8cba438ddd00cc853b9363"

theorem namesFrom_childPath :
    namesFrom shop.directory ⟨childPath⟩ = some (["out"] ++ childFile) := by
  decide +kernel

theorem artifact_child : ∃ a,
    generator.artifact (adoption first) (childModuleOf first true) = .ok a ∧
      a.summary = some childSummary := by
  have table : concreteTable (adoption first) (childModuleOf first true) =
      .ok (.ofList [(child, [childOf first])]) := rfl
  refine ⟨_, artifact_of_concreteTable rfl table, ?_⟩
  decide +kernel

/-- A file with the artifact of the child's module states its summary. -/
theorem states_child {t : FileTree} {a : Artifact}
    (found : generator.artifact (adoption first) (childModuleOf first true) = .ok a)
    (summary : a.summary = some childSummary)
    (read : t.read? (["out"] ++ childFile) = some (.ofText a.content)) :
    States t shop.settings.extension (["out"] ++ childFile) childModule childSummary := by
  have named : (fileName? (["out"] ++ childFile)).bind extension? =
      some shop.settings.extension := by
    decide +kernel
  exact states_of_artifact MarkerPolicy.withinLine_content found summary read named

/-- The reports of such passes are small. -/
theorem fits_of_combine {s : Snapshot} {c : Combined} (h : combine (generator.artifacts s) = .ok c)
    (small : (combine (generator.artifacts s)).toOption.all
      (fun c => decide ((Stored.encodeReport c.report).length < 2 ^ 63)) = true) :
    Stored.Fits c := by
  rw [h] at small
  exact Stored.decode_encode_iff.mp (Stored.decode_encode
    (Stored.countable_encode (version_of_combine h) (of_decide_eq_true small)))

/-- After a pass in which the child's module failed, its file still has its summary for the pass,
and the command prints that it has none. -/
theorem kept_prints_none :
    (shop.settings.searchPaths = [] ∧ orphaned.Built) ∧ ∃ t outcome t',
      (Generator.ofSettings shop.settings "0").runPass orphaned shop.destination
          (passResolver shop.settings.extension orphaned shop.searchRoots) t = .ok outcome t' ∧
        Stored.Fits outcome.combined ∧
        namesFrom shop.directory ⟨childPath⟩ = some (["out"] ++ childFile) ∧
        storedSummary? t' (passResolver shop.settings.extension orphaned shop.searchRoots)
          shop.settings.extension (["out"] ++ childFile) = some childSummary ∧
        childModule ∈ outcome.failures.map (·.module) ∧
        (∀ options token, runCommand t' shop options token (.summary childPath) =
          (t', .ofOutput 0 ["None"])) ∧
        Console.ofOutput 0 ["None"] ≠ Console.ofOutput 0 [childSummary] := by
  obtain ⟨a, found, summary⟩ := artifact_child
  have built := adoption_built first (.inl rfl)
  have built_all : ∀ r ∈ [adoption first] ++ [orphaned], r.Built := by
    simpa using ⟨built, orphaned_built⟩
  have mem : childModuleOf first true ∈ (adoption first).moduleList := by
    simp [moduleList_adoption (.inl rfl)]
  obtain ⟨there, outcome, t', ended⟩ :=
    orphaned_second built (twoModules_adoption (.inl rfl)) mem found rfl
  have kept := kept_of_installed startsEmpty built_all (by decide) MarkerPolicy.withinLine_content
    artifact_orphaned alone_orphaned ended childModule_mem_orphaned there rfl rfl found rfl
  have states := states_child found summary kept
  obtain ⟨merged, failures, -⟩ := of_runPass_ok ended
  have fits := fits_of_combine merged (by decide +kernel)
  have known : orphaned.knows childModule = true := by decide
  have failed : childModule ∈ outcome.failures.map (·.module) := by
    rw [failures]
    exact mem_failures_iff.mpr ⟨_, childModule_mem_orphaned, rfl, _, artifact_orphaned⟩
  have no_search : shop.settings.searchPaths = [] := rfl
  have live := liveModules_iff no_search orphaned_built ended fits t' childModule
  refine ⟨⟨rfl, orphaned_built⟩, _, outcome, t', ended, fits, namesFrom_childPath, ?_, failed, ?_,
    by decide +kernel⟩
  · rw [states.storedSummary?]
    exact if_pos known
  · intro options token
    rw [runCommand, summary_of_states namesFrom_childPath states,
      if_neg fun found => (live.mp found).2 failed]

/-- After a pass in which no module failed the command prints the summary of the same file. -/
theorem adoption_prints_summary :
    (shop.settings.searchPaths = [] ∧ (adoption first).Built) ∧ ∃ outcome t',
      (Generator.ofSettings shop.settings "0").runPass (adoption first) shop.destination
          (passResolver shop.settings.extension (adoption first) shop.searchRoots) ∅ =
            .ok outcome t' ∧
        Stored.Fits outcome.combined ∧
        namesFrom shop.directory ⟨childPath⟩ = some (["out"] ++ childFile) ∧
        storedSummary? t' (passResolver shop.settings.extension (adoption first) shop.searchRoots)
          shop.settings.extension (["out"] ++ childFile) = some childSummary ∧
        ∀ options token, runCommand t' shop options token (.summary childPath) =
          (t', .ofOutput 0 [childSummary]) := by
  obtain ⟨a, found, summary⟩ := artifact_child
  have built := adoption_built first (.inl rfl)
  have mem : childModuleOf first true ∈ (adoption first).moduleList := by
    simp [moduleList_adoption (.inl rfl)]
  obtain ⟨outcome, t', ended, -⟩ := runPass_of_allShort (pass first).2
    (sound_start (g := generator) startsEmpty) built ((twoModules_adoption (.inl rfl)).allShort rfl)
  have top := built.latest_eq (twoModules_adoption (.inl rfl)).distinct
    (mem_artifacts_iff.mpr ⟨_, mem, found⟩)
  rw [virtualPath_of_artifact found] at top
  have read := read?_first (pass first).2 startsEmpty built
    ((twoModules_adoption (.inl rfl)).allShort rfl) top
  rw [tree_of_runPass ended] at read
  have states := states_child found summary read
  obtain ⟨merged, failures, -⟩ := of_runPass_ok ended
  have fits := fits_of_combine merged (by decide +kernel)
  have known : (adoption first).knows childModule = true := by decide
  have stored : storedSummary? t' (pass first).2 shop.settings.extension (["out"] ++ childFile) =
      some childSummary := by
    rw [states.storedSummary?]
    exact if_pos known
  refine ⟨⟨rfl, built⟩, outcome, t', ended, fits, namesFrom_childPath, stored, ?_⟩
  have no_search : shop.settings.searchPaths = [] := rfl
  have ended' : (Generator.ofSettings shop.settings "0").runPass (adoption first) shop.destination
      (passResolver shop.settings.extension (adoption first) shop.searchRoots) ∅ =
        .ok outcome t' := ended
  obtain ⟨module, -, -, prints⟩ :=
    summary_of_runPass no_search built ended' fits namesFrom_childPath stored
  have sound : module ∉ outcome.failures.map (·.module) := by
    rw [failures, adoption_failures _ (.inl rfl)]
    exact List.not_mem_nil
  intro options token
  rw [prints, if_neg sound]

end Adoption

end VirtualModules
