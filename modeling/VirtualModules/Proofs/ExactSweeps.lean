import Mathlib.Data.List.Sort
import VirtualModules.Proofs.MovedArtifacts

/-!
# Sweeping is exact

The things a sweep tells to have removed are those it went through that are gone (`removed_eq`), and
what states a summary before it does so after it. Hence an install that goes through leaves in the
namespace what was placed there and what reads as an artifact, with the directories of these, and
lists exactly what else was there (`SweptExactly`, `swept_exactly_of_install`).
-/

namespace VirtualModules

open FileTree

/-- What lies below the directory that names lead to, each with the names that lead there. -/
def FileTree.contents (t : FileTree) (names : Location) : List (Location × Entry) :=
  match t.find? names with
  | some (loc, .directory) => t.below loc
  | _ => []

namespace InstallPlan

variable {p : InstallPlan} {t t' : FileTree} {d : Location} {nspace : ImportPath}
  {kept : List Location} {items : List (Location × Entry)} {known : ImportPath → Bool}

/-! ## What is gone -/

/-- A sweep that goes through tells of exactly what is gone. -/
theorem removed_eq (root : t.Root p.destination d) (order : ContentFirst items)
    (listed : ∀ item ∈ items, Listed d nspace t item) {removed : List Location}
    (all : p.sweepAll kept (p.destination ++ nspace.segments) items t = .ok removed t') :
    removed = (items.filter fun item =>
        (t'.entries.get? (d ++ (nspace.segments ++ item.1))).isNone).map fun item =>
      p.destination ++ (nspace.segments ++ item.1) := by
  induction items generalizing t removed with
  | nil =>
    cases all
    rfl
  | cons item rest ih =>
    obtain ⟨t₁, removed₁, all₁, root₁, listed₁, swept, change⟩ :=
      of_sweepAll_cons root order.nodup listed all
    have later := ih root₁ (List.pairwise_cons.mp order).2 listed₁ all₁
    have here := swept.keeps_first order
    rcases change with ⟨-, rfl, listing⟩ | ⟨-, gone, listing⟩
    · rw [(listed item List.mem_cons_self).found] at here
      rw [listing, later, List.filter_cons_of_neg (by simp [here])]
    · rw [gone, if_pos rfl] at here
      rw [listing, later, List.filter_cons_of_pos (by simp [here]), List.map_cons]

theorem nodup_removed (root : t.Root p.destination d) (order : ContentFirst items)
    (listed : ∀ item ∈ items, Listed d nspace t item) {removed : List Location}
    (all : p.sweepAll kept (p.destination ++ nspace.segments) items t = .ok removed t') :
    removed.Nodup := by
  rw [removed_eq root order listed all, List.Nodup, List.pairwise_map]
  refine (order.filter _).imp fun off same => off ?_
  rw [List.append_cancel_left (List.append_cancel_left same)]

/-! ## The contents of a namespace -/

theorem mem_contents_iff {destination : Location} (root : t.Root destination d)
    {item : Location × Entry} :
    item ∈ t.contents (destination ++ nspace.segments) ↔
      Short destination nspace.segments ∧ item.1 ≠ [] ∧
        t.entries.get? (d ++ (nspace.segments ++ item.1)) = some item.2 := by
  have found_iff {loc : Location} {entry : Entry} :
      t.find? (destination ++ nspace.segments) = some (loc, entry) ↔
        loc = d ++ nspace.segments ∧ Short destination nspace.segments ∧
          t.entries.get? (d ++ nspace.segments) = some entry :=
    root.find?_eq_some_iff (plain_segments nspace) nspace.segments_ne_nil
  unfold contents
  split
  · next found =>
    obtain ⟨rfl, short, -⟩ := found_iff.mp found
    rw [mem_below_iff, List.append_assoc]
    exact (and_iff_right short).symm
  · next no_directory =>
    rw [iff_false_left List.not_mem_nil]
    rintro ⟨short, nonempty, found⟩
    rw [← List.append_assoc] at found
    have directory := (holdsDirectory_of_get? nonempty found).resolve_left
      (List.append_ne_nil_of_right_ne_nil _ nspace.segments_ne_nil)
    exact no_directory _ (found_iff.mpr ⟨rfl, short, directory⟩)

/-- Sweeping goes through the contents of the namespace. -/
theorem mem_sweepList_iff {destination : Location} (root : t.Root destination d)
    {item : Location × Entry} :
    item ∈ sweepList t (destination ++ nspace.segments) ↔
      item ∈ t.contents (destination ++ nspace.segments) := by
  rw [mem_contents_iff root, mem_sweepList_iff_found root]

/-! ## What remains -/

/-- Of what lay below a directory, what was to be kept remains, and what reads as an artifact, and
the directories that hold such things; the rest is listed. -/
structure SweptExactly (p : InstallPlan) (kept : Location → Prop) (root : Location)
    (t t' : FileTree) (removed : List Location) : Prop where
  none_new : ∀ item ∈ t'.contents root, item ∈ t.contents root
  remains_iff : ∀ names entry, (names, entry) ∈ t.contents root → entry ≠ .directory →
    ((names, entry) ∈ t'.contents root ↔
      kept (root ++ names) ∨ (p.stored? t (root ++ names)).isSome = true)
  filled : ∀ names, (names, .directory) ∈ t'.contents root → ¬ kept (root ++ names) →
    ∃ more entry, more ≠ [] ∧ (names ++ more, entry) ∈ t'.contents root
  ascending : removed.Pairwise (· < ·)
  removed_iff : ∀ loc, loc ∈ removed ↔ ∃ names entry, loc = root ++ names ∧
    (names, entry) ∈ t.contents root ∧ ∀ entry', (names, entry') ∉ t'.contents root

theorem ascending_mergeSort {l : List Location} (distinct : l.Nodup) :
    (l.mergeSort fun a b => a ≤ b).Pairwise (· < ·) := by
  have sorted : (l.mergeSort fun a b => a ≤ b).Pairwise fun a b => decide (a ≤ b) = true := by
    apply List.pairwise_mergeSort
    · intro a b c less less'
      exact decide_eq_true (Std.le_trans (of_decide_eq_true less) (of_decide_eq_true less'))
    · intro a b
      simpa using Std.le_total
  have distinct' : (l.mergeSort fun a b => a ≤ b).Nodup :=
    (List.mergeSort_perm l _).nodup_iff.mpr distinct
  refine (sorted.and distinct').imp fun ⟨less, differ⟩ => ?_
  exact Std.lt_of_le_of_ne (of_decide_eq_true less) differ

section Sweep

variable (free : t.LinkFree p.destination d) {removed : List Location}
  (all : p.sweepAll kept (p.sweepRoot nspace) (sweepList t (p.sweepRoot nspace)) t =
    .ok removed t')

include free all

theorem mem_removed_iff {loc : Location} : loc ∈ removed ↔
    ∃ item ∈ t.contents (p.sweepRoot nspace), loc = p.sweepRoot nspace ++ item.1 ∧
      t'.entries.get? (d ++ (nspace.segments ++ item.1)) = none := by
  rw [removed_eq free.toRoot (contentFirst_sweepList free.toRoot nspace)
    (fun item mem => listed_of_mem_sweepList free mem) all]
  simp only [List.mem_map, List.mem_filter, mem_sweepList_iff free.toRoot, sweepRoot,
    Option.isNone_iff_eq_none, List.append_assoc, and_assoc]
  constructor
  · rintro ⟨item, mem, gone, rfl⟩
    exact ⟨item, mem, rfl, gone⟩
  · rintro ⟨item, mem, rfl, gone⟩
    exact ⟨item, mem, gone, rfl⟩

/-- What was there is still there, or it is listed. -/
theorem remains_or_removed {l : Location} {entry : Entry}
    (found : t.entries.get? l = some entry) : t'.entries.get? l = some entry ∨
      ∃ names, l = d ++ names ∧ p.destination ++ names ∈ removed := by
  rcases (swept_of_sweepAll_ok free all).1 l with same | ⟨gone, item, mem, -, here, -⟩
  · exact .inl (same.trans found)
  · refine .inr ⟨_, here, (mem_removed_iff free all).mpr ⟨item, ?_, ?_, here ▸ gone⟩⟩
    · exact (mem_sweepList_iff free.toRoot).mp mem
    · rw [sweepRoot, List.append_assoc]

/-- A sweep that lists nothing changes nothing. -/
theorem eq_of_removed_nil (nothing : removed = []) : t' = t := by
  apply ext_get?
  intro l
  cases found : t.entries.get? l with
  | none =>
    rcases (swept_of_sweepAll_ok free all).1 l with same | ⟨gone, -⟩
    · rw [same, found]
    · exact gone
  | some entry =>
    refine (remains_or_removed free all found).resolve_right ?_
    rintro ⟨names, -, mem⟩
    rw [nothing] at mem
    cases mem

theorem linkFree_swept : t'.LinkFree p.destination d :=
  (swept_of_sweepAll_ok free all).1.linkFree free

theorem mem_contents_of_swept {item : Location × Entry}
    (mem : item ∈ t'.contents (p.sweepRoot nspace)) : item ∈ t.contents (p.sweepRoot nspace) := by
  have free' := linkFree_swept free all
  obtain ⟨short, nonempty, found⟩ := (mem_contents_iff free'.toRoot).mp mem
  exact (mem_contents_iff free.toRoot).mpr
    ⟨short, nonempty, (swept_of_sweepAll_ok free all).1.found_before found⟩

/-- Listed is what was there and is there no more. -/
theorem mem_removed_iff_absent {loc : Location} : loc ∈ removed ↔
    ∃ names entry, loc = p.sweepRoot nspace ++ names ∧
      (names, entry) ∈ t.contents (p.sweepRoot nspace) ∧
        ∀ entry', (names, entry') ∉ t'.contents (p.sweepRoot nspace) := by
  have free' := linkFree_swept free all
  rw [mem_removed_iff free all]
  constructor
  · rintro ⟨⟨names, entry⟩, mem, rfl, gone⟩
    refine ⟨names, entry, rfl, mem, fun entry' mem' => ?_⟩
    cases gone.symm.trans ((mem_contents_iff free'.toRoot).mp mem').2.2
  · rintro ⟨names, entry, rfl, mem, gone⟩
    obtain ⟨short, nonempty, -⟩ := (mem_contents_iff free.toRoot).mp mem
    refine ⟨(names, entry), mem, rfl, ?_⟩
    rw [Option.eq_none_iff_forall_ne_some]
    intro entry' found
    exact gone entry' ((mem_contents_iff free'.toRoot).mpr ⟨short, nonempty, found⟩)

section Remains

variable (by_name : p.resolver = .ofNames known)

include by_name

theorem stays_of_mem_contents {item : Location × Entry}
    (mem : item ∈ t'.contents (p.sweepRoot nspace)) : p.Stays d nspace kept t' item := by
  have before := (mem_sweepList_iff free.toRoot).mpr (mem_contents_of_swept free all mem)
  have found := ((mem_contents_iff (linkFree_swept free all).toRoot).mp mem).2.2
  exact Swept.stays by_name free.toRoot (contentFirst_sweepList free.toRoot nspace)
    (fun _ mem => listed_of_mem_sweepList free mem) all item before found

/-- What is no directory remains if it was to be kept or reads as an artifact. -/
theorem remains_iff {names : Location} {entry : Entry}
    (mem : (names, entry) ∈ t.contents (p.sweepRoot nspace)) (no_directory : entry ≠ .directory) :
    (names, entry) ∈ t'.contents (p.sweepRoot nspace) ↔
      p.sweepRoot nspace ++ names ∈ kept ∨
        (p.stored? t (p.sweepRoot nspace ++ names)).isSome = true := by
  have free' := linkFree_swept free all
  obtain ⟨short, nonempty, found⟩ := (mem_contents_iff free.toRoot).mp mem
  have item_mem := (mem_sweepList_iff free.toRoot).mpr mem
  have plain := (listed_of_mem_sweepList free item_mem).plain
  have not_nil : nspace.segments ++ names ≠ [] :=
    List.append_ne_nil_of_left_ne_nil nspace.segments_ne_nil _
  rw [sweepRoot, List.append_assoc]
  constructor
  · intro mem'
    refine (stays_of_mem_contents free all by_name mem').imp_right fun stays => ?_
    split at stays
    · next directory => exact absurd directory no_directory
    · have found' := ((mem_contents_iff free'.toRoot).mp mem').2.2
      have same := found.trans found'.symm
      rwa [stored?_congr by_name free.toRoot free'.toRoot plain not_nil same]
  · intro reason
    refine (mem_contents_iff free'.toRoot).mpr ⟨short, nonempty, ?_⟩
    rcases reason with keep | stored
    · rw [(swept_of_sweepAll_ok free all).1.keeps keep, found]
    · exact Swept.keeps_stored by_name free.toRoot (contentFirst_sweepList free.toRoot nspace)
        (fun _ mem => listed_of_mem_sweepList free mem) all item_mem no_directory stored

/-- A directory that was not to be kept remains for something in it. -/
theorem filled_of_mem_contents {names : Location}
    (mem : (names, Entry.directory) ∈ t'.contents (p.sweepRoot nspace))
    (not_kept : p.sweepRoot nspace ++ names ∉ kept) :
    ∃ more entry, more ≠ [] ∧ (names ++ more, entry) ∈ t'.contents (p.sweepRoot nspace) := by
  have free' := linkFree_swept free all
  rw [sweepRoot, List.append_assoc] at not_kept
  have filled := (stays_of_mem_contents free all by_name mem).resolve_left not_kept
  obtain ⟨more, not_nil, there⟩ := below_ne_nil_iff.mp filled
  obtain ⟨entry, found⟩ := Option.isSome_iff_exists.mp there
  obtain ⟨short, -⟩ := (mem_contents_iff free'.toRoot).mp mem
  refine ⟨more, entry, not_nil, (mem_contents_iff free'.toRoot).mpr
    ⟨short, List.append_ne_nil_of_right_ne_nil _ not_nil, ?_⟩⟩
  simpa using found

theorem sweptExactly {target : Location → Prop} (kept_iff : ∀ loc, loc ∈ kept ↔ target loc) :
    p.SweptExactly target (p.sweepRoot nspace) t t' (removed.mergeSort fun a b => a ≤ b) where
  none_new _ mem := mem_contents_of_swept free all mem
  remains_iff names entry mem no_directory := by
    rw [← kept_iff]
    exact remains_iff free all by_name mem no_directory
  filled names mem not_target :=
    filled_of_mem_contents free all by_name mem (mt (kept_iff _).mp not_target)
  ascending := ascending_mergeSort (nodup_removed free.toRoot
    (contentFirst_sweepList free.toRoot nspace)
    (fun _ mem => listed_of_mem_sweepList free mem) all)
  removed_iff loc := by
    rw [List.mem_mergeSort]
    exact mem_removed_iff_absent free all

end Remains

end Sweep

/-- Where there is no destination, there is nothing to sweep. -/
theorem of_sweepAll_missing (missing : ¬ t.isDirectory p.destination = true)
    {removed : List Location}
    (all : p.sweepAll kept (p.sweepRoot nspace) (sweepList t (p.sweepRoot nspace)) t =
      .ok removed t') : removed = [] ∧ t' = t ∧ t.contents (p.sweepRoot nspace) = [] := by
  have absent : t.find? (p.sweepRoot nspace) = none := by
    rw [Option.eq_none_iff_forall_ne_some]
    intro (loc, entry) found
    exact not_found_of_missing missing nspace.segments_ne_nil (locate_of_find? found)
  have nothing : sweepList t (p.sweepRoot nspace) = [] := by
    unfold sweepList
    rw [absent]
  rw [nothing] at all
  cases all
  refine ⟨rfl, rfl, ?_⟩
  unfold contents
  rw [absent]

theorem sweptExactly_of_contents_nil {target : Location → Prop} {root : Location}
    (nothing : t.contents root = []) : p.SweptExactly target root t t [] where
  none_new item mem := mem
  remains_iff names entry mem := by
    rw [nothing] at mem
    cases mem
  filled names mem := by
    rw [nothing] at mem
    cases mem
  ascending := .nil
  removed_iff loc := by
    simp [nothing]

/-! ## Installs that went through -/

/-- The places of the files of some artifacts. -/
def IsTarget (p : InstallPlan) (artifacts : List Artifact) (loc : Location) : Prop :=
  ∃ a ∈ artifacts, loc = p.destination ++ artifactFile p.extension a.virtualPath

section Install

variable {c : Location} {artifacts : List Artifact} {staging : Staging}

/-- The places of artifacts are those of what was staged. -/
theorem isTarget_iff (copied : Copied p.extension p.scratch c artifacts staging t)
    (loc : Location) : p.IsTarget artifacts loc ↔
      ∃ e ∈ staging.summaries.entries, loc = p.destination ++ e.1 := by
  constructor
  · rintro ⟨a, mem, rfl⟩
    obtain ⟨b, last⟩ := latest_of_mem p.extension mem
    exact ⟨_, copied.mem_of_latest last, rfl⟩
  · rintro ⟨e, mem, rfl⟩
    obtain ⟨a, last, -⟩ := copied.mem_entries_iff.mp mem
    obtain ⟨mem_a, file⟩ := of_latest last
    exact ⟨a, mem_a, by rw [file]⟩

theorem mem_keptFiles_iff (copied : Copied p.extension p.scratch c artifacts staging t)
    (loc : Location) : loc ∈ p.keptFiles staging.summaries ↔ p.IsTarget artifacts loc := by
  rw [isTarget_iff copied, keptFiles, Table.keys, List.map_map, List.mem_map]
  simp only [Function.comp_apply, eq_comm]

/-- Once staged artifacts were placed, the destination is there and free of links, unless there were
none and it was not there before. -/
theorem linkFree_of_copied (extended : p.extension ≠ "")
    (copied : Copied p.extension p.scratch c artifacts staging t)
    (free : (t.makeDirectories p.destination).LinkFree p.destination d)
    {r : List Location × List Location} {t₃ : FileTree}
    (placed : p.placeAll staging.summaries.entries t = .ok r t₃) : t₃.LinkFree p.destination d ∨
      (artifacts = [] ∧ t₃ = t ∧ ¬ t.isDirectory p.destination = true) := by
  rw [← copied.entries_eq_nil_iff]
  exact linkFree_placed free copied.root_of_entries (fun e mem => copied.dottedLast extended mem)
    (fun e mem => copied.exists_copy mem) placed

/-- An install of staged artifacts that goes through sweeps the namespace exactly, once the last
artifact was placed. The scratch directory and the destination may have to be made first. -/
theorem swept_exactly_of_install {base : FileTree} {outcome : Outcome}
    (by_name : p.resolver = .ofNames known) (extended : p.extension ≠ "")
    (scratch : (base.makeDirectories p.scratch).Root p.scratch c)
    (staged : stageAll p.scratch (.new p.extension) artifacts base = .ok staging t)
    (free : (t.makeDirectories p.destination).LinkFree p.destination d)
    (installed : p.install staging.summaries nspace t = .ok outcome t') :
    ∃ t₃, p.placeAll staging.summaries.entries t = .ok (outcome.installed, outcome.unchanged) t₃ ∧
      p.SweptExactly (p.IsTarget artifacts) (p.sweepRoot nspace) t₃ t' outcome.removed := by
  have copied := copied_of_stageAll extended scratch staged
  obtain ⟨t₃, removed, placed, swept, listing⟩ := of_install_ok installed
  refine ⟨t₃, placed, ?_⟩
  rcases linkFree_of_copied extended copied free placed with free₃ | ⟨-, rfl, missing⟩
  · rw [listing]
    exact sweptExactly free₃ swept by_name (mem_keptFiles_iff copied)
  · obtain ⟨rfl, rfl, nothing⟩ := of_sweepAll_missing missing swept
    rw [List.mergeSort_nil] at listing
    rw [listing]
    exact sweptExactly_of_contents_nil nothing

end Install

end InstallPlan

/-! ## A stale directory -/

namespace Adoption

def spare : Artifact := ⟨⟨"v.a", by decide⟩, some "1", "", ∅⟩
def spareNamespace : ImportPath := ⟨"v", by decide⟩
def sparePlan : InstallPlan := ⟨"py", ["tmp"], ["out"], .everything⟩

/-- In the namespace there is a directory with a file that states nothing and an empty directory. -/
def staleTree : FileTree :=
  (((∅ : FileTree).makeDirectories ["out", "v", "old", "deep"]).write?
    ["out", "v", "old", "b.py"] (.ofText "")).getD ∅

def spareStaging : Staging := ⟨"py", .ofList [(["v", "a.py"], some "1")]⟩

def stagedTree : FileTree :=
  ((staleTree.makeDirectories ["tmp", "v"]).write? ["tmp", "v", "a.py"] (.ofText "")).getD ∅

theorem stageAll_spare :
    stageAll ["tmp"] (.new "py") [spare] staleTree = .ok spareStaging stagedTree := rfl

theorem linkFree_staleTree : (staleTree.makeDirectories ["tmp"]).LinkFree ["tmp"] ["tmp"] :=
  linkFree_of_entries (by decide +kernel) (by decide +kernel) (by decide +kernel)

theorem linkFree_stagedTree : (stagedTree.makeDirectories ["out"]).LinkFree ["out"] ["out"] :=
  linkFree_of_entries (by decide +kernel) (by decide +kernel) (by decide +kernel)

/-- The directory goes with all that is in it. -/
theorem stale_swept : (sparePlan.resolver = .ofNames fun _ => true) ∧
    stageAll ["tmp"] (.new "py") [spare] staleTree = .ok spareStaging stagedTree ∧
    ∃ outcome t',
      sparePlan.install spareStaging.summaries spareNamespace stagedTree = .ok outcome t' ∧
      ["out", "v", "old"] ∈ outcome.removed ∧
      ∃ t₃, sparePlan.placeAll spareStaging.summaries.entries stagedTree =
          .ok (outcome.installed, outcome.unchanged) t₃ ∧
        sparePlan.SweptExactly (sparePlan.IsTarget [spare]) (sparePlan.sweepRoot spareNamespace)
          t₃ t' outcome.removed := by
  have by_name : sparePlan.resolver = .ofNames fun _ => true := rfl
  refine ⟨by_name, stageAll_spare, _, _, rfl, List.mem_mergeSort.mpr (by decide +kernel), ?_⟩
  have ended : sparePlan.install spareStaging.summaries spareNamespace stagedTree = .ok _ _ := rfl
  exact InstallPlan.swept_exactly_of_install by_name (by decide) linkFree_staleTree.toRoot
    stageAll_spare linkFree_stagedTree ended

end Adoption

end VirtualModules
