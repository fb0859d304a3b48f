import VirtualModules.Proofs.AdditionalDependencies
import VirtualModules.Proofs.Merging
import VirtualModules.Proofs.SummaryKeys

/-!
# Additional dependencies as a closure

Which modules an answer lists is told in `listed_additionalDeps_iff`: those that were listed before,
the settings module of a file that reads settings, and the virtual modules of what is reached. So an
answer goes on from the dependencies that were there, it lists no less if more is asked for
(`DepsRequest.Widens`) or more is known (`Report.Extends`), and what it adds leads to nothing else
as long as virtual modules have no virtual modules themselves (`additionalDeps_closed`).
-/

namespace VirtualModules

/-- The request `q'` is for the same file as `q`, with all its imports and all modules that the file
depends on already, and maybe more. -/
structure DepsRequest.Widens (q' q : DepsRequest) : Prop where
  file : q'.file = q.file
  settingsModule : q'.settingsModule = q.settingsModule
  imports : ∀ i ∈ q.imports, i ∈ q'.imports
  superDeps : ∀ {m}, Listed q.superDeps m → Listed q'.superDeps m

namespace Report

variable {r r' : Report} {q q' : DepsRequest} {s : ClosureSettings} {m : ImportPath}

/-- An answer goes on from the dependencies that are there. -/
theorem superDeps_prefix (r : Report) (q : DepsRequest) (s : ClosureSettings) :
    q.superDeps <+: r.additionalDeps q s := by
  by_cases excluded : s.Excludes q.file
  · rw [additionalDeps_of_excluded excluded]
  · rw [additionalDeps_of_included excluded]
    exact List.prefix_append _ _

/-! ## More asked for, and more known -/

theorem extends_of_merge? {incoming : Report} (merged : r.merge? incoming = .ok r') :
    r'.Extends r where
  virtualModules {key value} found :=
    ((merge?_ok merged).1 .virtualModules key value).mpr (.inl found)
  related {a b} related := ((merge?_ok merged).2.1 a b).mpr (.inl related)

theorem starts_of_widens (wider : q'.Widens q) (starts : q.Starts m) : q'.Starts m := by
  rcases starts with rfl | ⟨i, mem, within⟩ | listed
  · exact .inl wider.file.symm
  · exact .inr (.inl ⟨i, wider.imports i mem, within⟩)
  · exact .inr (.inr (wider.superDeps listed))

theorem readsSettings_of_widens (wider : q'.Widens q) {accessors : List ImportPath}
    (reads : q.readsSettings accessors m = true) : q'.readsSettings accessors m = true := by
  obtain ⟨i, mem, names⟩ := DepsRequest.readsSettings_iff.mp reads
  exact DepsRequest.readsSettings_iff.mpr ⟨i, wider.imports i mem, names⟩

/-- What an answer lists is listed as well where more is asked for and more is known. -/
theorem listed_of_widens (more : r'.Extends r) (wider : q'.Widens q)
    (listed : Listed (r.additionalDeps q s) m) : Listed (r'.additionalDeps q' s) m := by
  by_cases excluded : s.Excludes q.file
  · rw [additionalDeps_of_excluded excluded] at listed
    rw [additionalDeps_of_excluded (wider.file ▸ excluded)]
    exact wider.superDeps listed
  rw [listed_additionalDeps_iff excluded] at listed
  rw [listed_additionalDeps_iff (wider.file ▸ excluded)]
  rcases listed with before | ⟨module, reads⟩ | ⟨n, reached, found⟩
  · exact .inl (wider.superDeps before)
  · exact .inr (.inl ⟨wider.settingsModule.trans module, readsSettings_of_widens wider reads⟩)
  · have from_more : r'.Reaches q'.Starts n := reached.extend more fun _ starts known =>
      .seed (starts_of_widens wider starts) (more.contains known)
    exact .inr (.inr ⟨n, from_more, more.virtualModules found⟩)

/-! ## Asking again -/

/-- No virtual module and no settings module of the file has a virtual module itself. -/
structure Grounded (r : Report) (q : DepsRequest) : Prop where
  virtualModules : ∀ {n v}, r.virtualModules.get? n = some v → r.virtualModules.contains v = false
  settingsModule : ∀ {m}, q.settingsModule = some m → r.virtualModules.contains m = false

/-- Where an answer is asked about in turn, its additions lead nowhere, so nothing else is
reached. -/
theorem reaches_of_answer (grounded : r.Grounded q) (included : ¬ s.Excludes q.file)
    (reached : r.Reaches { q with superDeps := r.additionalDeps q s }.Starts m) :
    r.Reaches q.Starts m := by
  refine reached.extend (.refl r) fun n starts known => ?_
  rcases starts with file | imported | listed
  · exact .seed (.inl file) known
  · exact .seed (.inr (.inl imported)) known
  rcases (listed_additionalDeps_iff included).mp listed with before | ⟨module, -⟩ | ⟨_, -, found⟩
  · exact .seed (.inr (.inr before)) known
  · rw [grounded.settingsModule module] at known
    cases known
  · rw [grounded.virtualModules found] at known
    cases known

/-- Where all that an answer lists was listed before, nothing is added. -/
theorem additionalDeps_of_complete
    (complete : ∀ {m}, Listed (r.additionalDeps q s) m → Listed q.superDeps m) :
    r.additionalDeps q s = q.superDeps := by
  by_cases excluded : s.Excludes q.file
  · exact additionalDeps_of_excluded excluded
  have no_settings : addedSettings q s = none := by
    refine Option.eq_none_iff_forall_ne_some.mpr fun m added => ?_
    obtain ⟨module, reads, fresh⟩ := addedSettings_eq_some_iff.mp added
    refine not_listed_iff.mpr fresh (complete ((listed_additionalDeps_iff excluded).mpr ?_))
    exact .inr (.inl ⟨module, DepsRequest.readsSettings_iff.mpr reads⟩)
  have no_modules : r.addedModules q s = [] := by
    refine List.eq_nil_iff_forall_not_mem.mpr fun m added => ?_
    obtain ⟨found, fresh, -⟩ := mem_addedModules_iff.mp added
    exact not_listed_iff.mpr fresh
      (complete ((listed_additionalDeps_iff excluded).mpr (.inr (.inr found))))
  rw [additionalDeps_of_included excluded, no_settings, no_modules]
  simp

/-- Asking again with an answer gives just this answer. -/
theorem additionalDeps_again (grounded : r.Grounded q) :
    r.additionalDeps { q with superDeps := r.additionalDeps q s } s = r.additionalDeps q s := by
  by_cases excluded : s.Excludes q.file
  · exact additionalDeps_of_excluded excluded
  refine additionalDeps_of_complete fun {m} listed => ?_
  rcases (listed_additionalDeps_iff (q := { q with superDeps := r.additionalDeps q s })
    excluded).mp listed with before | settings | ⟨n, reached, found⟩
  · exact before
  · exact (listed_additionalDeps_iff excluded).mpr (.inr (.inl settings))
  · have reached_first := reaches_of_answer grounded excluded reached
    exact (listed_additionalDeps_iff excluded).mpr (.inr (.inr ⟨n, reached_first, found⟩))

/-- Additional dependencies are a closure. More imports, more dependencies and a report that others
were merged into never list less. The dependencies that are there come first. And an answer is
closed, unless a module that it adds has a virtual module itself. -/
theorem additionalDeps_closed (r : Report) (q : DepsRequest) (s : ClosureSettings) :
    (∀ incoming r' q', r.merge? incoming = .ok r' → q'.Widens q →
      ∀ m, Listed (r.additionalDeps q s) m → Listed (r'.additionalDeps q' s) m) ∧
    q.superDeps <+: r.additionalDeps q s ∧
    (r.Grounded q →
      r.additionalDeps { q with superDeps := r.additionalDeps q s } s = r.additionalDeps q s) := by
  refine ⟨fun incoming r' q' merged wider m listed => ?_, superDeps_prefix r q s,
    additionalDeps_again⟩
  exact listed_of_widens (extends_of_merge? merged) wider listed

end Report

namespace Adoption

/-- The parents' module has a virtual module, and it is related to the child's. -/
def parentsOffered : Report where
  concreteAliases := ∅
  querysetAliases := ∅
  virtualModules := .ofList [(parents, ⟨"offered.parents", by decide⟩)]
  relatedModules := .ofList [(parents, .ofList [childModule])]

/-- The child's module has a virtual module. -/
def childOffered : Report where
  concreteAliases := ∅
  querysetAliases := ∅
  virtualModules := .ofList [(childModule, ⟨"offered.child", by decide⟩)]
  relatedModules := ∅

def bothOffered : Report where
  concreteAliases := ∅
  querysetAliases := ∅
  virtualModules := .ofList [(parents, ⟨"offered.parents", by decide⟩),
    (childModule, ⟨"offered.child", by decide⟩)]
  relatedModules := .ofList [(parents, .ofList [childModule])]

/-- A file imports the first parent. -/
def firstImported : DepsRequest := ⟨⟨"site.views", by decide⟩, [first], [], none⟩

/-- It imports the second parent, too, and depends on the child. -/
def bothImported : DepsRequest :=
  ⟨⟨"site.views", by decide⟩, [second, first], [⟨5, child, 3⟩], none⟩

theorem offered_merged : parentsOffered.merge? childOffered = .ok bothOffered := rfl

theorem bothImported_widens : bothImported.Widens firstImported where
  file := rfl
  settingsModule := rfl
  imports _ mem := List.mem_cons_of_mem _ mem
  superDeps := fun ⟨_, mem, _⟩ => absurd mem List.not_mem_nil

theorem parentsOffered_grounded : parentsOffered.Grounded firstImported where
  virtualModules {n v} found := by
    have none_known : ∀ e ∈ parentsOffered.virtualModules.entries,
        parentsOffered.virtualModules.contains e.2 = false := by decide
    exact none_known (n, v) (Table.get?_eq_some_iff.mp found)
  settingsModule := nofun

/-- The import lies within the parents' module, so the file depends on the virtual module of it. -/
theorem parentsOffered_listed :
    Listed (parentsOffered.additionalDeps firstImported generator.settings.closureSettings)
      ⟨"offered.parents", by decide⟩ := by
  have included : ¬ generator.settings.closureSettings.Excludes firstImported.file := by
    rw [← ClosureSettings.excludes_iff]
    decide
  have imported : firstImported.Starts parents :=
    .inr (.inl ⟨first, List.mem_cons_self, ImportPath.isWithin_iff.mp (by decide)⟩)
  exact (Report.listed_additionalDeps_iff included).mpr
    (.inr (.inr ⟨parents, .seed imported (by decide), rfl⟩))

/-- The file keeps the dependency when it imports more and the child's module has a virtual module,
too, and it gets no others when it has this one already. -/
theorem parentsOffered_closed :
    (parentsOffered.merge? childOffered = .ok bothOffered ∧ bothImported.Widens firstImported ∧
      parentsOffered.Grounded firstImported) ∧
    Listed (bothOffered.additionalDeps bothImported generator.settings.closureSettings)
      ⟨"offered.parents", by decide⟩ ∧
    ∃ deps, parentsOffered.additionalDeps firstImported generator.settings.closureSettings = deps ∧
      Listed deps ⟨"offered.parents", by decide⟩ ∧
      parentsOffered.additionalDeps { firstImported with superDeps := deps }
        generator.settings.closureSettings = deps := by
  obtain ⟨monotone, -, closed⟩ := Report.additionalDeps_closed parentsOffered firstImported
    generator.settings.closureSettings
  refine ⟨⟨offered_merged, bothImported_widens, parentsOffered_grounded⟩, ?_, _, rfl,
    parentsOffered_listed, closed parentsOffered_grounded⟩
  exact monotone childOffered bothOffered bothImported offered_merged bothImported_widens _
    parentsOffered_listed

end Adoption

end VirtualModules
