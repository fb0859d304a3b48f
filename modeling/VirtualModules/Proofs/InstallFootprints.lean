import VirtualModules.Proofs.Confinement
import VirtualModules.Proofs.Stages

/-!
# What an install can change

Wherever the destination leads in a tree without links, staging, placing and sweeping change what
lies below the namespace's directory and below the scratch directory (`InstallArea`), and make
directories on the way to them (`InstallWay`). The files that staging names lie directly in the
namespace's directory (`DirectFile`).

The scratch directory is new and goes away again, unless the way to the destination leads through
what lies in the namespace's directory, where sweeping may remove it (`OffNamespace`). So of an
install there is left what lies below that directory, and directories on the way
(`installArtifacts_modifiesOnly`).
-/

namespace VirtualModules

open FileTree DiskAction
open Location (resolve Below OnWay)

/-! ## Where an install works -/

/-- A file that lies directly in the directory of a namespace. -/
def DirectFile (nspace : ImportPath) (file : Location) : Prop :=
  ∃ name, file = nspace.segments ++ [name] ∧ Plain file

/-- What lies below the directory of a namespace or below a scratch directory. -/
def InstallArea (destination : Location) (nspace : ImportPath) (scratch : String) (l : Location) :
    Prop :=
  Below (resolve destination ++ nspace.segments) l ∨ Below (resolve destination ++ [scratch]) l

/-- What is on the way to the directory of a namespace or to a scratch directory. -/
def InstallWay (destination : Location) (nspace : ImportPath) (scratch : String) (l : Location) :
    Prop :=
  OnWay (destination ++ nspace.segments) l ∨ OnWay (destination ++ [scratch]) l

section Area

variable {nspace : ImportPath} {file : Location}

theorem DirectFile.plain (direct : DirectFile nspace file) : Plain file := direct.choose_spec.2

theorem DirectFile.parent_eq (direct : DirectFile nspace file) (destination : Location) :
    (destination ++ file).parent = destination ++ nspace.segments := by
  obtain ⟨name, rfl, plain⟩ := direct
  exact Location.parent_append_plain _ (fun n mem => (plain n mem).1) nspace.segments_ne_nil

theorem DirectFile.below (direct : DirectFile nspace file) (d : Location) :
    Below (d ++ nspace.segments) (d ++ file) := by
  obtain ⟨name, rfl, -⟩ := direct
  exact ⟨[name], by simp, by simp⟩

/-- The name of a copy names something of its own. -/
theorem plain_temporary (name : String) :
    FilePath.isBlankPart (name ++ ".vdep-tmp") = false ∧ name ++ ".vdep-tmp" ≠ ".." := by
  have differs : ∀ other : String, other.toList.length < 9 → name ++ ".vdep-tmp" ≠ other := by
    rintro other short rfl
    simp only [String.toList_append, List.length_append] at short
    have length : ".vdep-tmp".toList.length = 9 := rfl
    omega
  have empty := differs "" (by decide)
  have dot := differs "." (by decide)
  exact ⟨by simp [FilePath.isBlankPart, empty, dot], differs ".." (by decide)⟩

/-- A file is copied next to its place. -/
theorem DirectFile.temporary (direct : DirectFile nspace file) (destination : Location) :
    ∃ copy, temporaryName (destination ++ file) = destination ++ copy ∧ DirectFile nspace copy := by
  have parent := direct.parent_eq destination
  obtain ⟨name, rfl, plain⟩ := direct
  refine ⟨nspace.segments ++ [name ++ ".vdep-tmp"], ?_, _, rfl, ?_⟩
  · rw [temporaryName, parent, ← List.append_assoc, List.getLast?_concat, List.append_assoc]
    rfl
  · exact plain_concat (plain_segments nspace) (plain_temporary name)

variable {destination : Location} {scratch : String}

theorem DirectFile.inside (direct : DirectFile nspace file) :
    ∀ l, resolve (destination ++ file) <+: l → InstallArea destination nspace scratch l := by
  intro l below
  rw [Location.resolve_append_plain destination direct.plain] at below
  exact .inl ((direct.below _).extend below)

theorem DirectFile.staged_inside (direct : DirectFile nspace file) (plain : Plain [scratch]) :
    ∀ l, resolve (destination ++ [scratch] ++ file) <+: l →
      InstallArea destination nspace scratch l := by
  intro l below
  rw [Location.resolve_append_plain _ direct.plain,
    Location.resolve_append_plain destination plain] at below
  obtain ⟨name, rfl, -⟩ := direct
  exact .inr ((Location.below_append _ (by simp)).extend below)

theorem installWay_namespace {l : Location} (on_way : OnWay (destination ++ nspace.segments) l) :
    InstallWay destination nspace scratch l ∨ InstallArea destination nspace scratch l :=
  .inl (.inl on_way)

theorem installWay_scratch (plain : Plain [scratch]) {l : Location}
    (on_way : OnWay (destination ++ [scratch] ++ nspace.segments) l) :
    InstallWay destination nspace scratch l ∨ InstallArea destination nspace scratch l := by
  rcases on_way.of_append_plain (plain_segments nspace) with first | ⟨r, nonempty, -, rfl⟩
  · exact .inl (.inr first)
  · refine .inr (.inr ?_)
    rw [Location.resolve_append_plain destination plain]
    exact Location.below_append _ nonempty

end Area

/-! ## Staging -/

section Staging

variable {destination : Location} {nspace : ImportPath} {scratch : String}

theorem directFile_of_liesIn {a : Artifact} (lies : a.LiesIn nspace) (extension : String) :
    DirectFile nspace (artifactFile extension a.virtualPath) := by
  obtain ⟨name, file, plain⟩ := lies.file extension
  exact ⟨name, file, file ▸ plain⟩

/-- Staging names files that lie directly in the namespace's directory. -/
theorem directFile_of_stageAll {t t' : FileTree} {s s' : Staging} {scratch : Location}
    {artifacts : List Artifact} (lie : ∀ a ∈ artifacts, a.LiesIn nspace)
    (start : ∀ file summary, s.summaries.get? file = some summary → DirectFile nspace file)
    (staged : stageAll scratch s artifacts t = .ok s' t') :
    ∀ file summary, s'.summaries.get? file = some summary → DirectFile nspace file := by
  induction artifacts generalizing s t with
  | nil =>
    cases staged
    exact start
  | cons a rest ih =>
    rw [stageAll, List.foldlM_cons] at staged
    obtain ⟨s₁, t₁, first, staged⟩ := of_bind_eq_ok staged
    have lie_rest := fun b mem => lie b (List.mem_cons_of_mem a mem)
    refine ih lie_rest (fun file summary found => ?_) staged
    rw [Staging.stage_eq] at first
    obtain ⟨⟨⟩, t₂, -, first⟩ := of_bind_eq_ok first
    obtain ⟨⟨⟩, t₃, -, first⟩ := of_bind_eq_ok first
    cases first
    by_cases here : file = artifactFile s.extension a.virtualPath
    · exact here ▸ directFile_of_liesIn (lie a List.mem_cons_self) s.extension
    · rw [Table.get?_insert_ne _ here] at found
      exact start file summary found

variable (plain_scratch : Plain [scratch])

include plain_scratch

theorem stage_writesOnly (s : Staging) {virtualPath : ImportPath} (content : Bytes)
    (summary : Option String) (direct : DirectFile nspace (artifactFile s.extension virtualPath)) :
    WritesOnly (InstallArea destination nspace scratch) (InstallWay destination nspace scratch)
      (s.stage (destination ++ [scratch]) virtualPath content summary) := by
  rw [Staging.stage_eq]
  refine (WritesOnly.makeDirectories fun l on_way => ?_).bind fun _ _ _ _ =>
    (WritesOnly.write (direct.staged_inside plain_scratch _ List.prefix_rfl)).bind fun _ _ _ _ =>
      .pure _
  rw [direct.parent_eq] at on_way
  exact installWay_scratch plain_scratch on_way

theorem stageAll_writesOnly (s : Staging) {artifacts : List Artifact}
    (lie : ∀ a ∈ artifacts, a.LiesIn nspace) :
    WritesOnly (InstallArea destination nspace scratch) (InstallWay destination nspace scratch)
      (stageAll (destination ++ [scratch]) s artifacts) := by
  induction artifacts generalizing s with
  | nil => exact .pure s
  | cons a rest ih =>
    rw [stageAll, List.foldlM_cons]
    exact (stage_writesOnly plain_scratch s _ _
      (directFile_of_liesIn (lie a List.mem_cons_self) _)).bind fun s' _ _ _ =>
        ih s' fun b mem => lie b (List.mem_cons_of_mem _ mem)

end Staging

/-! ## Placing and sweeping -/

namespace InstallPlan

section Plan

variable {p : InstallPlan} {nspace : ImportPath} {scratch : String}

theorem moveFile_writesOnly {area way : Location → Prop} {source target : Location}
    (not_top : resolve source ≠ []) (from_inside : ∀ l, resolve source <+: l → area l)
    (to_inside : ∀ l, resolve target <+: l → area l)
    (over_inside : ∀ l, resolve (temporaryName target) <+: l → area l)
    (copy_not_top : resolve (temporaryName target) ≠ []) :
    WritesOnly area way (moveFile source target) := by
  unfold moveFile
  refine .get_bind fun t tree => ?_
  split
  · next renamed => exact tree.rename? renamed not_top from_inside to_inside
  · have copied : WritesOnly area way
        (DiskAction.change (temporaryName target) (·.copy? source (temporaryName target))) :=
      .change fun _ _ tree' copied => tree'.copy? copied (over_inside _ List.prefix_rfl)
    exact (copied.bind fun _ _ _ _ => .change fun _ _ tree' renamed =>
      tree'.rename? renamed copy_not_top over_inside to_inside) t tree

section Placing

variable (scratch_eq : p.scratch = p.destination ++ [scratch]) (plain_scratch : Plain [scratch])

include scratch_eq plain_scratch

theorem replace_writesOnly {file : Location} (direct : DirectFile nspace file) :
    WritesOnly (InstallArea p.destination nspace scratch)
      (InstallWay p.destination nspace scratch) (p.replace file) := by
  rw [replace_eq, direct.parent_eq]
  refine (WritesOnly.makeDirectories fun l => installWay_namespace).bind fun _ _ _ _ =>
    .get_bind fun t tree => ?_
  have cleared : WritesOnly (InstallArea p.destination nspace scratch)
      (InstallWay p.destination nspace scratch)
      (if t.isDirectory (p.destination ++ file) then DiskAction.removeTree (p.destination ++ file)
        else pure () : DiskAction DiskError Unit) := by
    split
    · exact .removeTree direct.inside
    · exact .pure ()
  obtain ⟨copy, temporary, direct_copy⟩ := direct.temporary p.destination
  have resolved {q : Location} (direct : DirectFile nspace q) (names : Location) :
      resolve (names ++ q) ≠ [] := by
    obtain ⟨name, rfl, plain⟩ := direct
    rw [Location.resolve_append_plain names plain]
    simp
  refine (cleared.bind fun _ _ _ _ => ?_) t tree
  rw [scratch_eq]
  exact moveFile_writesOnly (resolved direct _) (direct.staged_inside plain_scratch) direct.inside
    (temporary ▸ direct_copy.inside) (temporary ▸ resolved direct_copy _)

theorem placeOne_writesOnly {file : Location} (direct : DirectFile nspace file)
    (summary : Option String) :
    WritesOnly (InstallArea p.destination nspace scratch)
      (InstallWay p.destination nspace scratch) (p.placeOne file summary) := by
  unfold placeOne
  refine .get_bind fun t tree => ?_
  split
  · exact .refl tree
  · exact ((replace_writesOnly scratch_eq plain_scratch direct).bind fun _ _ _ _ => .pure true)
      t tree

theorem placeAll_writesOnly {items : List (Location × Option String)}
    (direct : ∀ e ∈ items, DirectFile nspace e.1) :
    WritesOnly (InstallArea p.destination nspace scratch)
      (InstallWay p.destination nspace scratch) (p.placeAll items) := by
  induction items with
  | nil => exact .pure ([], [])
  | cons e rest ih =>
    exact (placeOne_writesOnly scratch_eq plain_scratch (direct e List.mem_cons_self) e.2).bind
      fun _ _ _ _ => (ih fun e' mem => direct e' (List.mem_cons_of_mem _ mem)).bind
        fun _ _ _ _ => .pure _

end Placing

theorem sweepItem_writesOnly (kept : List Location) {names : Location}
    (inside : ∀ l, resolve names <+: l → InstallArea p.destination nspace scratch l)
    (entry : Entry) :
    WritesOnly (InstallArea p.destination nspace scratch)
      (InstallWay p.destination nspace scratch) (p.sweepItem kept names entry) := by
  unfold sweepItem
  split
  · exact .pure false
  have file : WritesOnly (InstallArea p.destination nspace scratch)
      (InstallWay p.destination nspace scratch)
      (do
        if (p.stored? (← get) names).isSome then return false
        else
          DiskAction.removeFile names
          return true : DiskAction DiskError Bool) := by
    refine .get_bind fun t tree => ?_
    split
    · exact .refl tree
    · exact ((WritesOnly.removeFile inside).bind fun _ _ _ _ => .pure true) t tree
  cases entry with
  | directory =>
    refine .get_bind fun t tree => ?_
    split
    · split
      · next removed => exact tree.removeDirectory? inside removed
      · exact .refl tree
    · exact .refl tree
  | file content => exact file
  | link target => exact file

theorem sweepAll_writesOnly (kept : List Location) {items : List (Location × Entry)}
    (named : ∀ item ∈ items, item.1 ≠ [] ∧ Plain item.1) :
    WritesOnly (InstallArea p.destination nspace scratch)
      (InstallWay p.destination nspace scratch)
      (p.sweepAll kept (p.destination ++ nspace.segments) items) := by
  induction items with
  | nil => exact .pure []
  | cons item rest ih =>
    obtain ⟨nonempty, plain⟩ := named item List.mem_cons_self
    have inside : ∀ l, resolve (p.destination ++ nspace.segments ++ item.1) <+: l →
        InstallArea p.destination nspace scratch l := by
      intro l below
      rw [Location.resolve_append_plain _ plain,
        Location.resolve_append_plain _ (plain_segments nspace)] at below
      exact .inl ((Location.below_append _ nonempty).extend below)
    exact (sweepItem_writesOnly kept inside item.2).bind fun _ _ _ _ =>
      (ih fun i mem => named i (List.mem_cons_of_mem _ mem)).bind fun _ _ _ _ => .pure _

/-- What there is to sweep has names of its own. -/
theorem plain_of_mem_sweepList {t : FileTree} (tree : t.Linkless) {root : Location}
    {item : Location × Entry} (mem : item ∈ sweepList t root) : item.1 ≠ [] ∧ Plain item.1 := by
  have of_below {loc : Location} (mem : item ∈ t.below loc) : item.1 ≠ [] ∧ Plain item.1 := by
    obtain ⟨nonempty, found⟩ := mem_below_iff.mp mem
    refine ⟨nonempty, fun name mem_name => ?_⟩
    exact (linkless_iff.mp tree _ _ found).1 name (List.mem_append_right _ mem_name)
  unfold sweepList at mem
  split at mem
  · exact of_below (List.mem_of_mem_eraseP (List.mem_reverse.mp mem))
  · exact of_below (List.mem_reverse.mp mem)
  · cases mem

theorem install_writesOnly (scratch_eq : p.scratch = p.destination ++ [scratch])
    (plain_scratch : Plain [scratch]) {summaries : Table Location (Option String)}
    (direct : ∀ file summary, summaries.get? file = some summary → DirectFile nspace file) :
    WritesOnly (InstallArea p.destination nspace scratch)
      (InstallWay p.destination nspace scratch) (p.install summaries nspace) := by
  rw [install_eq]
  have direct_entries : ∀ e ∈ summaries.entries, DirectFile nspace e.1 := fun e mem =>
    direct e.1 e.2 (Table.get?_eq_some_iff.mpr mem)
  refine (placeAll_writesOnly scratch_eq plain_scratch direct_entries).bind fun _ _ _ _ =>
    .get_bind fun t tree => ?_
  exact ((sweepAll_writesOnly _ fun _ mem => plain_of_mem_sweepList tree mem).bind
    fun _ _ _ _ => .pure _) t tree

end Plan

end InstallPlan

/-! ## The scratch directory -/

/-- The way to a destination does not lead through what lies in the namespace's directory. -/
def OffNamespace (destination : Location) (nspace : ImportPath) : Prop :=
  ∀ p, p <+: destination → ¬ Below (resolve destination ++ nspace.segments) (resolve p)

instance (destination : Location) (nspace : ImportPath) :
    Decidable (OffNamespace destination nspace) :=
  decidable_of_iff (∀ p ∈ destination.inits,
      ¬ Below (resolve destination ++ nspace.segments) (resolve p)) (by
    simp only [OffNamespace, List.mem_inits])

/-- Something that has the name of a scratch directory in a directory, or lies below it. -/
def UnderScratch (d l : Location) : Prop :=
  ∃ name, isScratchName name = true ∧ d ++ [name] <+: l

/-- A tree with a new scratch directory in the destination. -/
structure NewScratch (destination : Location) (scratch : String) (t t' : FileTree) : Prop where
  is_scratch : isScratchName scratch = true
  short : Short destination [scratch]
  directory : t.isDirectory destination = true
  absent : t.entries.get? (resolve destination ++ [scratch]) = none
  spec : ∀ l, t'.entries.get? l =
    if l = resolve destination ++ [scratch] then some .directory else t.entries.get? l

section Scratch

variable {t : FileTree} {destination : Location} {α : Type}
  {action : Location → DiskAction DiskError α}

/-- Unless no scratch directory can be made, an action runs in a new one, which is removed after
it. -/
theorem withScratch_cases (action : Location → DiskAction DiskError α) (tree : t.Linkless) :
    (∃ e, withScratch destination action t = .error e t) ∨
      ∃ scratch t₁, NewScratch destination scratch t t₁ ∧
        withScratch destination action t = (action (destination ++ [scratch])).always
          (fun t => (t.removeTree? (destination ++ [scratch])).getD t) t₁ := by
  unfold withScratch
  rw [get_bind]
  have is_scratch := isScratchName_fresh (namesIn t destination)
  generalize freshScratchName (namesIn t destination) = scratch at is_scratch
  have plain := plain_scratch is_scratch
  cases made : t.makeDirectory? (destination ++ [scratch]) with
  | none => exact .inl ⟨_, bind_of_error (change_of_none made)⟩
  | some t₁ =>
    obtain ⟨vacant, absent, spec⟩ := tree.of_makeDirectory? made
    rw [Location.resolve_append_plain destination plain] at absent spec
    exact .inr ⟨scratch, t₁, ⟨is_scratch, short_of_follow (.inr vacant) plain,
      tree.isDirectory_of_vacant vacant, absent, spec⟩, bind_of_ok (change_of_some made)⟩

namespace NewScratch

variable {scratch : String} {t₁ : FileTree} (new : NewScratch destination scratch t t₁)

include new

theorem plain : Plain [scratch] := plain_scratch new.is_scratch

/-- Nothing was there below the scratch directory. -/
theorem absent_below {l : Location} (below : resolve destination ++ [scratch] <+: l) :
    t.entries.get? l = none := by
  obtain ⟨rest, rfl⟩ := below
  exact get?_below_none (by simp) new.absent

theorem made (tree : t.Linkless) {area way : Location → Prop}
    (inside : area (resolve destination ++ [scratch])) : ModifiesOnly area way t t₁ := by
  refine .of_entered tree new.spec ?_ (fun _ => Entry.noConfusion) (.inl inside)
  exact plain_concat (Location.plain_resolve _) (plain_of_isScratchName new.is_scratch)

variable {nspace : ImportPath}

theorem outside_namespace {l : Location} (below : resolve destination ++ [scratch] <+: l) :
    ¬ Below (resolve destination ++ nspace.segments) l := by
  rintro ⟨q, -, rfl⟩
  rw [List.append_assoc, List.prefix_append_right_inj] at below
  exact head_ne_of_dot (dot_mem_of_isScratchName new.is_scratch) q below

section Ended

variable {t₂ : FileTree} (modifies : ModifiesOnly (InstallArea destination nspace scratch)
  (InstallWay destination nspace scratch) t₁ t₂)

include modifies

theorem modifies_start (tree : t.Linkless) :
    ModifiesOnly (fun l => Below (resolve destination ++ nspace.segments) l ∨
      resolve destination ++ [scratch] <+: l) (OnWay (destination ++ nspace.segments)) t t₂ := by
  refine (new.made tree (.inr List.prefix_rfl)).trans (modifies.mono ?_ ?_)
  · rintro l (namespace_area | ⟨q, -, rfl⟩)
    · exact .inl namespace_area
    · exact .inr (List.prefix_append _ q)
  · rintro l (on_way | on_way)
    · exact .inl on_way
    · rcases on_way.of_append_plain new.plain with first | ⟨r, nonempty, way, rfl⟩
      · exact .inl (first.append _)
      · have whole : r = [scratch] := by
          rcases List.prefix_concat_iff.mp (show r <+: [] ++ [scratch] from way) with here | none
          · exact here
          · exact absurd (List.prefix_nil.mp none) nonempty
        exact .inr (.inr (by rw [whole]))

/-- What the way to the destination leads through is still there. -/
theorem isDirectory_end (tree : t.Linkless) (off : OffNamespace destination nspace) :
    t₂.isDirectory destination = true := by
  refine tree.isDirectory_of_kept modifies.linkless new.directory ?_
  rintro l ⟨p, way, rfl⟩ (top | found)
  · exact .inl top
  · refine .inr ((new.modifies_start modifies tree).kept found ?_)
    rintro (namespace_area | scratch_area)
    · exact off p way namespace_area
    · cases found.symm.trans (new.absent_below scratch_area)

/-- So the scratch directory is found, and removed. -/
theorem removeTree?_end (tree : t.Linkless) (off : OffNamespace destination nspace) :
    t₂.removeTree? (destination ++ [scratch]) =
      some (t₂.prune (resolve destination ++ [scratch])) := by
  have there : t₂.entries.get? (resolve destination ++ [scratch]) = some .directory := by
    refine modifies.kept (by rw [new.spec, if_pos rfl]) ?_
    rintro (namespace_area | ⟨q, nonempty, here⟩)
    · exact new.outside_namespace List.prefix_rfl namespace_area
    · simp [nonempty] at here
  unfold FileTree.removeTree?
  rw [modifies.linkless.findLast?_concat (new.isDirectory_end modifies tree off) new.plain new.short
    there]

end Ended

end NewScratch

/-- What an action that writes in the install area does from a new scratch directory: it changes
what lies below the namespace's directory and makes directories on the way to it. The scratch
directory is gone in the end unless the way to the destination leads through the namespace. -/
theorem withScratch_footprint {nspace : ImportPath} (tree : t.Linkless)
    (writes : ∀ scratch, Plain [scratch] → WritesOnly (InstallArea destination nspace scratch)
      (InstallWay destination nspace scratch) (action (destination ++ [scratch]))) :
    (withScratch destination action).after t = t ∨
      ∃ scratch t₁, NewScratch destination scratch t t₁ ∧
        ModifiesOnly (fun l => Below (resolve destination ++ nspace.segments) l ∨
            resolve destination ++ [scratch] <+: l)
          (OnWay (destination ++ nspace.segments)) t ((withScratch destination action).after t) ∧
        (OffNamespace destination nspace → ∀ l, resolve destination ++ [scratch] <+: l →
          ((withScratch destination action).after t).entries.get? l = none) := by
  rcases withScratch_cases action tree with ⟨e, stopped⟩ | ⟨scratch, t₁, new, run⟩
  · exact .inl (after_of_error stopped)
  have made : ModifiesOnly (fun _ => True) (fun _ => True) t t₁ := new.made tree trivial
  have tree₁ : t₁.Linkless := made.linkless
  have modifies := writes scratch new.plain t₁ tree₁
  refine .inr ⟨scratch, t₁, new, ?_⟩
  rw [after_congr run, after_always]
  refine ⟨(new.modifies_start modifies tree).trans ?_, fun off l below => ?_⟩
  · cases removed : FileTree.removeTree? _ (destination ++ [scratch]) with
    | none => exact .refl modifies.linkless
    | some t₃ =>
      refine modifies.linkless.removeTree? (fun l below => .inr ?_) removed
      rwa [Location.resolve_append_plain destination new.plain] at below
  · rw [new.removeTree?_end modifies tree off, Option.getD_some, get?_prune, if_pos below]

/-! ## Installs -/

section Installs

variable {settings : Settings} {artifacts : List Artifact} {resolver : Resolver}

theorem isDirectory_of_installArtifacts_ok {outcome : Outcome} {t' : FileTree} (tree : t.Linkless)
    (ended : installArtifacts settings artifacts destination resolver t = .ok outcome t') :
    t.isDirectory destination = true := by
  rcases withScratch_cases _ tree with ⟨e, stopped⟩ | ⟨scratch, t₁, new, -⟩
  · cases ended.symm.trans stopped
  · exact new.directory

/-- Stages artifacts in a scratch directory and installs them from there. -/
def installFrom (settings : Settings) (artifacts : List Artifact) (destination : Location)
    (resolver : Resolver) (scratch : Location) : DiskAction DiskError Outcome := do
  let staging ← stageAll scratch (.new settings.extension) artifacts
  let plan : InstallPlan := ⟨settings.extension, scratch, destination, resolver⟩
  plan.install staging.summaries settings.nspace

theorem installArtifacts_eq (settings : Settings) (artifacts : List Artifact)
    (destination : Location) (resolver : Resolver) :
    installArtifacts settings artifacts destination resolver =
      withScratch destination (installFrom settings artifacts destination resolver) := rfl

variable (lie : ∀ a ∈ artifacts, a.LiesIn settings.nspace)

include lie

theorem installFrom_writesOnly (scratch : String) (plain : Plain [scratch]) :
    WritesOnly (InstallArea destination settings.nspace scratch)
      (InstallWay destination settings.nspace scratch)
      (installFrom settings artifacts destination resolver (destination ++ [scratch])) :=
  (stageAll_writesOnly plain _ lie).bind fun staging _ _ staged =>
    InstallPlan.install_writesOnly (p := passPlan settings destination scratch resolver) rfl plain
      (directFile_of_stageAll lie (fun _ _ found => by cases found) staged)

/-- Wherever the destination leads, an install changes what lies below the namespace's directory,
and else only what is new in a scratch directory. -/
theorem installArtifacts_modifies (destination : Location) (resolver : Resolver)
    (tree : t.Linkless) :
    ModifiesOnly (fun l => Below (resolve destination ++ settings.nspace.segments) l ∨
        (t.entries.get? l = none ∧ UnderScratch (resolve destination) l))
      (OnWay (destination ++ settings.nspace.segments)) t
      ((installArtifacts settings artifacts destination resolver).after t) := by
  rw [installArtifacts_eq]
  rcases withScratch_footprint tree fun scratch => installFrom_writesOnly lie scratch with
    same | ⟨scratch, t₁, new, modifies, -⟩
  · rw [same]
    exact .refl tree
  · refine modifies.mono (fun l => .imp_right fun below => ?_) fun _ => .inl
    exact ⟨new.absent_below below, scratch, new.is_scratch, below⟩

/-- Off the namespace, an install changes what lies below the namespace's directory and makes
directories on the way to it, and nothing else. -/
theorem installArtifacts_modifiesOnly (resolver : Resolver) (tree : t.Linkless)
    (off : OffNamespace destination settings.nspace) :
    ModifiesOnly (Below (resolve destination ++ settings.nspace.segments))
      (OnWay (destination ++ settings.nspace.segments)) t
      ((installArtifacts settings artifacts destination resolver).after t) := by
  rw [installArtifacts_eq]
  rcases withScratch_footprint tree fun scratch => installFrom_writesOnly lie scratch with
    same | ⟨scratch, t₁, new, modifies, gone⟩
  · rw [same]
    exact .refl tree
  · refine ⟨modifies.linkless, fun l outside => ?_⟩
    by_cases scratch_area : resolve destination ++ [scratch] <+: l
    · exact .inl ((gone off l scratch_area).trans (new.absent_below scratch_area).symm)
    · exact modifies.elsewhere l (not_or.mpr ⟨outside, scratch_area⟩)

end Installs

end Scratch

end VirtualModules
