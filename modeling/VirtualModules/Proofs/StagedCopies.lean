import VirtualModules.Proofs.Stages

/-!
# Staged copies

Artifacts of any virtual modules may be staged below any scratch directory, which is made with the
first one if it is not there (`Root.makeParent_after`). Where that goes through, the scratch
directory holds a copy of the last artifact of every file, and the staging knows its summary
(`Copied`, `copied_of_stageAll`).
-/

namespace VirtualModules

open FileTree

variable {t t' : FileTree}

/-- Below a root, making the directory of a file enters directories on the way. -/
theorem FileTree.Root.of_makeParent {destination d init : Location} {name : String}
    (root : t.Root destination d) (plain : Plain (init ++ [name]))
    (made : DiskAction.makeDirectories (destination ++ (init ++ [name])).parent t = .ok () t') :
    MadeOnly d init t t' ∧ HoldsDirectory t'.entries (d ++ init) := by
  have not_blank : ∀ n ∈ init ++ [name], FilePath.isBlankPart n = false := fun n mem =>
    (plain n mem).1
  by_cases top : init = []
  · subst top
    rw [Location.parent_append_concat _ _ (not_blank name (by simp)), List.append_nil,
      makeDirectories_dropBlank root] at made
    cases made
    exact ⟨fun l => .inl rfl, by simpa using root.directory⟩
  · rw [Location.parent_append_plain _ not_blank top] at made
    have entered := root.makeDirectories_made plain.of_append top
    by_cases there :
        (t.makeDirectories (destination ++ init)).isDirectory (destination ++ init) = true
    · rw [DiskAction.makeDirectories_of_isDirectory there] at made
      cases made
      exact ⟨entered, .inr (((entered.root root).isDirectory_iff plain.of_append top).mp there).2⟩
    · rw [DiskAction.makeDirectories_of_not_isDirectory there] at made
      cases made

/-- Where a destination can be made at all, it may be made before the directory of a file in it. -/
theorem FileTree.Root.makeParent_after {destination d init : Location} {name : String}
    (root : (t.makeDirectories destination).Root destination d) (plain : Plain (init ++ [name]))
    (made : DiskAction.makeDirectories (destination ++ (init ++ [name])).parent t = .ok () t') :
    DiskAction.makeDirectories (destination ++ (init ++ [name])).parent
      (t.makeDirectories destination) = .ok () t' := by
  have not_blank : ∀ n ∈ init ++ [name], FilePath.isBlankPart n = false := fun n mem =>
    (plain n mem).1
  rw [Location.parent_append_concat _ _ (not_blank name (by simp))] at made ⊢
  have way : destination.makeable <+: FilePath.dropBlank (destination ++ init) := by
    apply destination.makeable_prefix_dropBlank.trans
    by_cases top : init = []
    · rw [top, List.append_nil]
    · rw [Location.dropBlank_append_plain _ (fun n mem => not_blank n (by simp [mem])) top]
      exact (Location.prefix_of_dropBlank _).trans (List.prefix_append _ _)
  by_cases there : (t.makeDirectories (FilePath.dropBlank (destination ++ init))).isDirectory
      (FilePath.dropBlank (destination ++ init)) = true
  · obtain ⟨loc, found⟩ := locate_of_isDirectory there
    have same := makeDirectories_makeDirectories (root.leads _ (.refl d _))
      (isUsable_of_locate found) (Location.makeable_dropBlank _) way
    rw [DiskAction.makeDirectories_of_isDirectory there, ← same] at made
    rwa [DiskAction.makeDirectories_of_isDirectory (same.symm ▸ there)]
  · rw [DiskAction.makeDirectories_of_not_isDirectory there] at made
    cases made

/-- After staging the artifacts `done`, the scratch directory holds a copy of the last one of every
file. It is there at the latest since the first one. -/
structure Copied (extension : String) (scratch c : Location) (done : List Artifact)
    (staging : Staging) (t : FileTree) : Prop where
  root : (t.makeDirectories scratch).Root scratch c
  there : done ≠ [] → t.makeDirectories scratch = t
  extension_eq : staging.extension = extension
  summaries : ∀ file, staging.summaries.get? file = (latest extension file done).map (·.summary)
  copies : ∀ file a, latest extension file done = some a →
    t.entries.get? (c ++ file) = some (.file (.ofText a.content))

section Copied

variable {extension : String} {scratch c : Location} {done artifacts : List Artifact}
  {staging staging' : Staging}

theorem copied_nil (extension : String) (root : (t.makeDirectories scratch).Root scratch c) :
    Copied extension scratch c [] (.new extension) t where
  root := root
  there none := absurd rfl none
  extension_eq := rfl
  summaries _ := rfl
  copies _ _ found := nomatch found

/-- Staging one more artifact leaves the copies of other files alone. -/
theorem Copied.stage (copied : Copied extension scratch c done staging t)
    (extended : extension ≠ "") {a : Artifact}
    (staged : staging.stage scratch a.virtualPath (.ofText a.content) a.summary t =
      .ok staging' t') : Copied extension scratch c (done ++ [a]) staging' t' := by
  have dotted := dottedLast_artifactFile extended a.virtualPath
  have plain := dotted.plain
  obtain ⟨init, name, split, -⟩ := dotted.split
  simp only [Staging.stage_eq, copied.extension_eq, split] at staged
  rw [split] at plain
  obtain ⟨_, t₁, made, staged⟩ := DiskAction.of_bind_eq_ok staged
  obtain ⟨_, t₂, written, staged⟩ := DiskAction.of_bind_eq_ok staged
  cases staged
  have entered := (copied.root.of_makeParent plain (copied.root.makeParent_after plain made)).1
  have root₁ := entered.root copied.root
  have nonempty : init ++ [name] ≠ [] := by simp
  obtain ⟨-, -, spec⟩ := root₁.write?_ok plain nonempty (DiskAction.of_change_eq_ok written)
  have root' : t'.Root scratch c := by
    refine root₁.of_entered nonempty spec fun target same => ?_
    cases same
  have there := makeDirectories_found (root'.leads _ (.refl c _))
  refine ⟨there.symm ▸ root', fun _ => there, rfl, fun file => ?_, fun file b last => ?_⟩
  · rw [latest_concat, split]
    by_cases here : init ++ [name] = file
    · subst here
      rw [Table.get?_insert_self, if_pos rfl]
      rfl
    · rw [Table.get?_insert_ne _ (Ne.symm here), if_neg here, copied.summaries]
  · rw [latest_concat, split] at last
    rw [spec]
    by_cases here : init ++ [name] = file
    · subst here
      rw [if_pos rfl] at last ⊢
      cases last
      rfl
    · rw [if_neg here] at last
      rw [if_neg (by simpa using Ne.symm here)]
      exact entered.kept (get?_makeDirectories_of_some (copied.copies file b last))

theorem Copied.stageAll (copied : Copied extension scratch c done staging t)
    (extended : extension ≠ "")
    (staged : stageAll scratch staging artifacts t = .ok staging' t') :
    Copied extension scratch c (done ++ artifacts) staging' t' := by
  unfold VirtualModules.stageAll at staged
  induction artifacts generalizing done staging t with
  | nil =>
    cases staged
    simpa using copied
  | cons a rest ih =>
    rw [List.foldlM_cons] at staged
    obtain ⟨staging₁, t₁, first, staged⟩ := DiskAction.of_bind_eq_ok staged
    have later := ih (copied.stage extended first) staged
    simpa using later

/-- What staging leaves in the scratch directory, if it goes through. -/
theorem copied_of_stageAll (extended : extension ≠ "")
    (root : (t.makeDirectories scratch).Root scratch c)
    (staged : stageAll scratch (.new extension) artifacts t = .ok staging t') :
    Copied extension scratch c artifacts staging t' :=
  (copied_nil extension root).stageAll extended staged

/-! ## What is staged -/

variable (copied : Copied extension scratch c done staging t)

include copied

/-- The scratch directory is there if anything was staged. -/
theorem Copied.root_of_ne_nil (some : done ≠ []) : t.Root scratch c :=
  copied.there some ▸ copied.root

/-- The copies stay where they are wherever directories are made. -/
theorem Copied.after_makeDirectories (some : done ≠ []) (names : Location) :
    Copied extension scratch c done staging (t.makeDirectories names) where
  root := ((copied.root_of_ne_nil some).after_makeDirectories names).after_makeDirectories scratch
  there _ :=
    makeDirectories_found (((copied.root_of_ne_nil some).after_makeDirectories names).leads _
      (.refl c _))
  extension_eq := copied.extension_eq
  summaries := copied.summaries
  copies file a last := get?_makeDirectories_of_some (copied.copies file a last)

/-- The last artifact of each file is staged. -/
theorem Copied.mem_entries_iff {e : Location × Option String} :
    e ∈ staging.summaries.entries ↔ ∃ a, latest extension e.1 done = some a ∧ a.summary = e.2 := by
  rw [← Table.get?_eq_some_iff, copied.summaries, Option.map_eq_some_iff]

theorem Copied.mem_of_latest {file : Location} {a : Artifact}
    (last : latest extension file done = some a) : (file, a.summary) ∈ staging.summaries.entries :=
  copied.mem_entries_iff.mpr ⟨a, last, rfl⟩

theorem Copied.exists_copy {e : Location × Option String}
    (mem : e ∈ staging.summaries.entries) :
    ∃ content, t.entries.get? (c ++ e.1) = some (.file content) := by
  obtain ⟨a, last, -⟩ := copied.mem_entries_iff.mp mem
  exact ⟨_, copied.copies _ a last⟩

theorem Copied.entries_eq_nil_iff : staging.summaries.entries = [] ↔ done = [] := by
  simp only [List.eq_nil_iff_forall_not_mem]
  constructor
  · intro none a mem
    obtain ⟨b, last⟩ := latest_of_mem extension mem
    exact none _ (copied.mem_of_latest last)
  · intro none e mem
    obtain ⟨a, last, -⟩ := copied.mem_entries_iff.mp mem
    exact none a (of_latest last).1

theorem Copied.root_of_entries (some : staging.summaries.entries ≠ []) : t.Root scratch c :=
  copied.root_of_ne_nil (mt copied.entries_eq_nil_iff.mpr some)

/-- With an extension, every file that is staged has one. -/
theorem Copied.dottedLast (extended : extension ≠ "") {e : Location × Option String}
    (mem : e ∈ staging.summaries.entries) : DottedLast e.1 := by
  obtain ⟨a, last, -⟩ := copied.mem_entries_iff.mp mem
  rw [← (of_latest last).2]
  exact dottedLast_artifactFile extended a.virtualPath

end Copied

end VirtualModules
