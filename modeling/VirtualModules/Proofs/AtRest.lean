import VirtualModules.Proofs.Rereading

/-!
# Installs with nothing to do

An install is `AtRest` if all its artifacts are up to date and nothing in the namespace has to go.
Then it changes nothing (`AtRest.install_ok`). Where modules are known by their names, this depends
on what stands in the namespace alone (`AtRest.congr`), and every install that went through with
artifacts that read as what they are comes to rest (`Stages.atRest`).
-/

namespace VirtualModules

open FileTree

namespace InstallPlan

variable {p : InstallPlan} {d : Location} {nspace : ImportPath} {t u : FileTree}
  {summaries : Table Location (Option String)} {items : List (Location × Option String)}

/-- There is nothing to do: all artifacts are up to date, and everything in the namespace can be
reached and stays. -/
structure AtRest (p : InstallPlan) (d : Location) (nspace : ImportPath)
    (summaries : Table Location (Option String)) (t : FileTree) : Prop where
  free : t.LinkFree p.destination d
  upToDate : ∀ e ∈ summaries.entries, p.upToDate t (p.destination ++ e.1) e.2 = true
  within : ∀ item ∈ sweepList t (p.sweepRoot nspace),
    p.Within nspace (p.keptFiles summaries) item
  stays : ∀ item ∈ sweepList t (p.sweepRoot nspace),
    p.Stays d nspace (p.keptFiles summaries) t item

/-- Artifacts that are up to date are left alone. -/
theorem placeAll_of_upToDate
    (current : ∀ e ∈ items, p.upToDate t (p.destination ++ e.1) e.2 = true) :
    p.placeAll items t = .ok ([], items.map fun e => p.destination ++ e.1) t := by
  induction items with
  | nil => rfl
  | cons e rest ih =>
    have here := current e List.mem_cons_self
    have one : p.placeOne e.1 e.2 t = .ok false t := by
      simp only [placeOne]
      rw [DiskAction.get_bind, if_pos here]
      rfl
    exact placeAll_cons_of_ok one (ih fun e' mem => current e' (List.mem_cons_of_mem _ mem))

/-- At rest, an install goes through and changes nothing. -/
theorem AtRest.install_ok (rest : p.AtRest d nspace summaries t) :
    p.install summaries nspace t = .ok ⟨[], p.keptFiles summaries, []⟩ t := by
  have kept : summaries.entries.map (fun e => p.destination ++ e.1) = p.keptFiles summaries := by
    rw [keptFiles, Table.keys, List.map_map]
    rfl
  have swept : p.sweepAll (p.keptFiles summaries) (p.sweepRoot nspace)
      (sweepList t (p.sweepRoot nspace)) t = .ok [] t :=
    sweepAll_of_stays rest.free.toRoot (fun item mem => listed_of_mem_sweepList rest.free mem)
      rest.within rest.stays
  rw [install_eq, DiskAction.bind_of_ok (placeAll_of_upToDate rest.upToDate), DiskAction.get_bind,
    DiskAction.bind_of_ok swept, kept, List.mergeSort_nil]
  rfl

section Names

variable {known : ImportPath → Bool} (by_name : p.resolver = .ofNames known)

include by_name

/-- Whether an install is at rest depends on what stands in the namespace alone. -/
theorem AtRest.congr (rest : p.AtRest d nspace summaries t) (free_u : u.LinkFree p.destination d)
    (direct : ∀ e ∈ summaries.entries, ∃ name, e.1 = nspace.segments ++ [name] ∧ Plain e.1)
    (same : SameBelow (d ++ nspace.segments) t u) : p.AtRest d nspace summaries u := by
  have list : sweepList u (p.sweepRoot nspace) = sweepList t (p.sweepRoot nspace) :=
    (same.sweepList_eq rest.free.toRoot free_u.toRoot).symm
  refine ⟨free_u, fun e mem => ?_, list ▸ rest.within, fun item mem => ?_⟩
  · obtain ⟨name, direct, plain⟩ := direct e mem
    rw [← rest.upToDate e mem]
    exact upToDate_congr by_name free_u.toRoot rest.free.toRoot plain (by simp [direct])
      (direct ▸ (same.get?_append [name]).symm) e.2
  · rw [list] at mem
    refine (rest.stays item mem).congr by_name rest.free.toRoot free_u.toRoot
      (listed_of_mem_sweepList rest.free mem) (same.get?_append _).symm fun filled => ?_
    rwa [← below_congr (t := t) fun names _ => ?_]
    rw [List.append_assoc, List.append_assoc]
    exact same.get?_append _

/-- Once they are placed, artifacts that read as what they are are up to date. -/
theorem Placed.upToDate {scratch : String} {t' : FileTree} {installed : List Location}
    (placed : p.Placed d scratch nspace t t' items installed)
    (ready : p.Ready d scratch nspace t items)
    (rereads : ∀ e ∈ items, p.Rereads d scratch known t e) :
    ∀ e ∈ items, p.upToDate t' (p.destination ++ e.1) e.2 = true := by
  intro e mem
  have placeable := ready.placeable e mem
  obtain ⟨v, root_v, same, ⟨-, -, moved⟩ | ⟨current, -, unchanged⟩⟩ := placed.settled e mem
  · exact (rereads e mem).upToDate by_name placed.free.toRoot placeable.plain_file
      placeable.nonempty placeable.short.of_cons moved
  · rw [← current]
    exact upToDate_congr by_name placed.free.toRoot root_v placeable.plain_file placeable.nonempty
      (unchanged.trans same.symm) e.2

/-- And they are so wherever they are still in their places. -/
theorem Placed.upToDate_kept {scratch : String} {t' : FileTree} {installed : List Location}
    (placed : p.Placed d scratch nspace t t' items installed)
    (ready : p.Ready d scratch nspace t items)
    (rereads : ∀ e ∈ items, p.Rereads d scratch known t e) (root_u : u.Root p.destination d)
    (kept : ∀ e ∈ items, u.entries.get? (d ++ e.1) = t'.entries.get? (d ++ e.1)) :
    ∀ e ∈ items, p.upToDate u (p.destination ++ e.1) e.2 = true := by
  intro e mem
  have placeable := ready.placeable e mem
  rw [← placed.upToDate by_name ready rereads e mem]
  exact upToDate_congr by_name root_u placed.free.toRoot placeable.plain_file placeable.nonempty
    (kept e mem) e.2

/-- An install that went through is at rest, if its artifacts read as what they are. -/
theorem Stages.atRest {scratch : String} {outcome : Outcome} {t₃ t₄ : FileTree}
    (stages : p.Stages d scratch nspace summaries outcome t t₃ t₄)
    (ready : p.Ready d scratch nspace t summaries.entries)
    (rereads : ∀ e ∈ summaries.entries, p.Rereads d scratch known t e) :
    p.AtRest d nspace summaries t₄ := by
  have free₄ : t₄.LinkFree p.destination d := stages.swept.linkFree stages.placed.free
  have root₃ := stages.placed.free.toRoot
  -- nothing is listed that was not listed before
  have list : sweepList t₄ (p.sweepRoot nspace) = _ :=
    stages.swept.sweepList_eq root₃
  refine ⟨free₄, ?_, fun item mem => ?_, fun item mem => ?_⟩
  · exact stages.placed.upToDate_kept by_name ready rereads free₄.toRoot fun e mem =>
      stages.swept.kept_file mem
  · rw [list] at mem
    exact stages.within item (List.mem_filter.mp mem).1
  · rw [list] at mem
    obtain ⟨mem, found⟩ := List.mem_filter.mp mem
    obtain ⟨removed, all⟩ := stages.sweep
    exact Swept.stays by_name root₃ (contentFirst_sweepList root₃ nspace)
      (fun item mem => listed_of_mem_sweepList stages.placed.free mem) all item mem
      (of_decide_eq_true found)

end Names

end InstallPlan

end VirtualModules
