import VirtualModules.Proofs.CombinedReports
import VirtualModules.Proofs.Sweeping

/-!
# The stages of a pass

Below a root, a pass clears the destination of what earlier passes left, stages its artifacts in a
new scratch directory, places them, sweeps the namespace, removes the scratch directory and stores
the report. `PassStages` names the trees between these stages, and a pass that goes through has them
all (`stages_of_runPass`). Where staging stops, nothing but the litter has changed
(`installArtifacts_staged`).
-/

namespace VirtualModules

open FileTree

variable {t t' : FileTree} {destination d : Location}

/-! ## Actions that went through -/

namespace DiskAction

variable {ε ε' α β : Type}

theorem of_bind_eq_ok {x : DiskAction ε α} {f : α → DiskAction ε β} {b : β}
    (h : (x >>= f) t = .ok b t') : ∃ a t₁, x t = .ok a t₁ ∧ f a t₁ = .ok b t' := by
  cases first : x t with
  | ok a t₁ =>
    rw [bind_of_ok first] at h
    exact ⟨a, t₁, rfl, h⟩
  | error e t₁ =>
    rw [bind_of_error first] at h
    cases h

theorem of_change_eq_ok {location : Location} {f : FileTree → Option FileTree} {done : Unit}
    (h : change location f t = .ok done t') : f t = some t' := by
  simp only [change] at h
  split at h <;> simp_all

theorem of_mapError_eq_ok {x : DiskAction ε α} {f : ε → ε'} {a : α}
    (h : x.mapError f t = .ok a t') : x t = .ok a t' := by
  simp only [mapError] at h
  split at h <;> simp_all

theorem of_always_eq_ok {x : DiskAction ε α} {last : FileTree → FileTree} {a : α}
    (h : x.always last t = .ok a t') : ∃ t₁, x t = .ok a t₁ ∧ t' = last t₁ := by
  simp only [always] at h
  split at h
  · next ended =>
    cases h
    exact ⟨_, ended, rfl⟩
  · cases h

/-- The action goes through and ends as checked. -/
def checks (action : DiskAction ε α) (t : FileTree) (check : α → FileTree → Bool) : Bool :=
  match action t with
  | .ok a t' => check a t'
  | .error _ _ => false

theorem exists_of_checks {action : DiskAction ε α} {check : α → FileTree → Bool}
    (h : action.checks t check = true) : ∃ a t', action t = .ok a t' ∧ check a t' = true := by
  unfold checks at h
  split at h
  · next a t' ended => exact ⟨a, t', ended, h⟩
  · cases h

theorem always_congr {x y : DiskAction ε α} (last : FileTree → FileTree) (h : x t = y t') :
    x.always last t = y.always last t' := by
  simp only [always, h]

end DiskAction

/-! ## Preparing the destination -/

theorem makeDirectories_self (root : t.Root destination d) :
    DiskAction.makeDirectories destination t = .ok () t := by
  have same := makeDirectories_found (root.leads t (.refl d t))
  have there : (t.makeDirectories destination).isDirectory destination = true := by
    rw [same, root.isDirectory_self]
  rw [DiskAction.makeDirectories_of_isDirectory there, same]

theorem makeDirectories_of_root (root : (t.makeDirectories destination).Root destination d) :
    DiskAction.makeDirectories destination t = .ok () (t.makeDirectories destination) :=
  DiskAction.makeDirectories_of_isDirectory root.isDirectory_self

/-- Blank names at the end of the destination do not matter. -/
theorem makeDirectories_dropBlank (root : t.Root destination d) :
    DiskAction.makeDirectories (FilePath.dropBlank destination) t = .ok () t := by
  have found := locate_dropBlank (root.leads t (.refl d t))
  have same := makeDirectories_found found
  have there : (t.makeDirectories (FilePath.dropBlank destination)).isDirectory
      (FilePath.dropBlank destination) = true := by
    have self := root.isDirectory_self
    simp only [isDirectory, find?, root.leads t (.refl d t)] at self
    simp only [same, isDirectory, find?, found]
    exact self
  rw [DiskAction.makeDirectories_of_isDirectory there, same]

/-- What a pass does before it stores its report. -/
def Generator.installPass (g : Generator) (s : Snapshot) (destination : Location)
    (resolver : Resolver) : DiskAction DiskError Outcome := do
  DiskAction.makeDirectories destination
  sweepScratch destination (namesIn (← get) destination)
  installArtifacts g.settings (g.artifacts s) destination resolver

section Prepare

variable {g : Generator} {s : Snapshot}

theorem runPass_eq (g : Generator) (s : Snapshot) (destination : Location) (resolver : Resolver) :
    g.runPass s destination resolver = (do
      let install ← DiskAction.mapError .disk (g.installPass s destination resolver)
      match combine (g.artifacts s) with
      | .error conflict => throw (.conflict conflict)
      | .ok combined =>
        DiskAction.mapError .disk (saveReport destination combined)
        return { combined, install, failures := g.failures s }) := rfl

/-- A pass that starts from a tree ends as one does that starts from another tree, if what they do
before they store their reports ends so. -/
theorem runPass_congr {resolver : Resolver}
    (same : g.installPass s destination resolver t = g.installPass s destination resolver t') :
    g.runPass s destination resolver t = g.runPass s destination resolver t' := by
  rw [runPass_eq]
  apply DiskAction.bind_congr
  simp only [DiskAction.mapError, same]

/-- A pass starts by making its destination, so that it may be there already. -/
theorem runPass_made (g : Generator) (s : Snapshot) (resolver : Resolver)
    (root : (t.makeDirectories destination).Root destination d) :
    g.runPass s destination resolver t =
      g.runPass s destination resolver (t.makeDirectories destination) := by
  apply runPass_congr
  unfold Generator.installPass
  rw [DiskAction.bind_of_ok (makeDirectories_of_root root),
    DiskAction.bind_of_ok (makeDirectories_self root)]

/-- Then it clears the destination, and installs what is to be installed. -/
theorem installPass_eq (g : Generator) (s : Snapshot) (resolver : Resolver)
    (root : t.Root destination d) :
    ∃ t₀, Cleared destination d (t.children d) t t₀ ∧
      sweepScratch destination (namesIn t destination) t = .ok () t₀ ∧
      g.installPass s destination resolver t =
        installArtifacts g.settings (g.artifacts s) destination resolver t₀ := by
  obtain ⟨t₀, swept, cleared⟩ := sweepScratch_clears root (t.children d)
  rw [← namesIn_root root] at swept
  refine ⟨t₀, cleared, swept, ?_⟩
  unfold Generator.installPass
  rw [DiskAction.bind_of_ok (makeDirectories_self root), DiskAction.get_bind,
    DiskAction.bind_of_ok swept]

/-- In a clear destination there is nothing to do before installing. -/
theorem installPass_of_clear (g : Generator) (s : Snapshot) (resolver : Resolver)
    (root : t.Root destination d) (clear : Clear t destination d) :
    g.installPass s destination resolver t =
      installArtifacts g.settings (g.artifacts s) destination resolver t := by
  unfold Generator.installPass
  rw [DiskAction.bind_of_ok (makeDirectories_self root), DiskAction.get_bind,
    DiskAction.bind_of_ok (clear.sweepScratch_ok root (namesIn t destination))]

/-- A pass that has installed its artifacts goes through once it has stored its report. -/
theorem runPass_of_installPass {resolver : Resolver} {install : Outcome} {combined : Combined}
    {t₁ : FileTree} (merged : combine (g.artifacts s) = .ok combined)
    (installed : g.installPass s destination resolver t = .ok install t₁)
    (saved : saveReport destination combined t₁ = .ok () t') :
    g.runPass s destination resolver t = .ok ⟨combined, install, g.failures s⟩ t' := by
  rw [runPass_eq, DiskAction.bind_of_ok (DiskAction.mapError_of_ok installed)]
  simp only [merged]
  rw [DiskAction.bind_of_ok (DiskAction.mapError_of_ok saved)]
  rfl

/-- A pass that goes through has installed its artifacts and stored its combined report. -/
theorem of_runPass_ok {resolver : Resolver} {outcome : PassOutcome}
    (ended : g.runPass s destination resolver t = .ok outcome t') :
    combine (g.artifacts s) = .ok outcome.combined ∧ outcome.failures = g.failures s ∧
      ∃ t₁, g.installPass s destination resolver t = .ok outcome.install t₁ ∧
        saveReport destination outcome.combined t₁ = .ok () t' := by
  rw [runPass_eq] at ended
  obtain ⟨install, t₁, installed, ended⟩ := DiskAction.of_bind_eq_ok ended
  cases merged : combine (g.artifacts s) with
  | error conflict =>
    rw [merged] at ended
    cases ended
  | ok combined =>
    rw [merged] at ended
    obtain ⟨⟨⟩, t₂, saved, ended⟩ := DiskAction.of_bind_eq_ok ended
    cases ended
    exact ⟨rfl, rfl, t₁, DiskAction.of_mapError_eq_ok installed, DiskAction.of_mapError_eq_ok saved⟩

end Prepare

/-! ## Staging in a new scratch directory -/

section Staging

variable {settings : Settings} {scratch : String} {artifacts : List Artifact}

/-- Makes a scratch directory and stages artifacts there. -/
def stageIn (settings : Settings) (artifacts : List Artifact) (destination scratch : Location) :
    DiskAction DiskError Staging := do
  DiskAction.change destination (·.makeDirectory? scratch)
  stageAll scratch (.new settings.extension) artifacts

/-- The plan of a pass with a scratch directory. -/
def passPlan (settings : Settings) (destination : Location) (scratch : String)
    (resolver : Resolver) : InstallPlan :=
  ⟨settings.extension, destination ++ [scratch], destination, resolver⟩

/-- The names of everything that is staged are short enough. -/
def ShortBehind (settings : Settings) (destination : Location) (scratch : String)
    (artifacts : List Artifact) : Prop :=
  Short destination [scratch] ∧ ∀ a ∈ artifacts,
    Short destination (scratch :: artifactFile settings.extension a.virtualPath)

/-- The scratch directory, newly made, is ready for staging. -/
theorem staged_nil (root : t.Root destination d) (absent : t.entries.get? (d ++ [scratch]) = none)
    (spec : ∀ l, t'.entries.get? l =
      if l = d ++ [scratch] then some .directory else t.entries.get? l) :
    Staged t destination d scratch settings.extension settings.nspace []
      (.new settings.extension) t' where
  root := root.of_entered (by simp) spec nofun
  outside l outside := by
    rw [spec, if_neg]
    rintro rfl
    exact outside (List.prefix_refl _)
  directory := by rw [spec, if_pos rfl]
  extension_eq := rfl
  summaries file := rfl
  content r nonempty := by
    have above : d ++ scratch :: r = d ++ [scratch] ++ r := by simp
    have elsewhere : d ++ scratch :: r ≠ d ++ [scratch] := by simp [nonempty]
    rw [spec, if_neg elsewhere, above, get?_below_none (by simp) absent]
    simp [latest]
  short := by simp
  lie := by simp

theorem plain_scratch (is_scratch : isScratchName scratch = true) : Plain [scratch] := by
  simpa [Plain] using plain_of_isScratchName is_scratch

/-- Removing the scratch directory undoes what happened in it. -/
theorem KeptOutside.removed {base : FileTree}
    (kept : KeptOutside base destination d scratch t) (is_scratch : isScratchName scratch = true)
    (short : Short destination [scratch]) (absent : base.entries.get? (d ++ [scratch]) = none) :
    (t.removeTree? (destination ++ [scratch])).getD t = base := by
  rw [kept.root.removeTree?_directory (plain_scratch is_scratch) (by simp) short kept.directory,
    Option.getD_some]
  apply ext_get?
  intro l
  rw [get?_prune]
  split
  · next below =>
    obtain ⟨names, rfl⟩ := below
    exact (get?_below_none (by simp) absent).symm
  · next outside => exact kept.outside l outside

variable (is_scratch : isScratchName scratch = true) (root : t.Root destination d)
  (absent : t.entries.get? (d ++ [scratch]) = none)
  (lie : ∀ a ∈ artifacts, a.LiesIn settings.nspace)

include is_scratch root absent lie

/-- All artifacts are staged in a new scratch directory, or some names are too long and nothing has
changed outside. -/
theorem stageIn_ends :
    (∃ staging t₂, stageIn settings artifacts destination (destination ++ [scratch]) t =
          .ok staging t₂ ∧ Short destination [scratch] ∧
        Staged t destination d scratch settings.extension settings.nspace artifacts staging t₂) ∨
      (¬ ShortBehind settings destination scratch artifacts ∧
        (t.makeDirectory? (destination ++ [scratch]) = none ∨
          ∃ t₁ e t₂, t.makeDirectory? (destination ++ [scratch]) = some t₁ ∧
            Short destination [scratch] ∧
            stageAll (destination ++ [scratch]) (.new settings.extension) artifacts t₁ =
              .error e t₂ ∧ KeptOutside t destination d scratch t₂)) := by
  unfold stageIn
  cases made : t.makeDirectory? (destination ++ [scratch]) with
  | none =>
    refine .inr ⟨fun short => ?_, .inl rfl⟩
    obtain ⟨t₁, made'⟩ := root.makeDirectory?_exists (plain_scratch is_scratch) (by simp) short.1
      absent (by rw [List.dropLast_concat]; exact root.directory)
    rw [made] at made'
    cases made'
  | some t₁ =>
    obtain ⟨short, -, spec⟩ :=
      root.makeDirectory?_ok (plain_scratch is_scratch) (by simp) made
    rw [DiskAction.bind_of_ok (DiskAction.change_of_some made)]
    rcases (staged_nil root absent spec).stageAll_ends (plain_of_isScratchName is_scratch) lie with
      ⟨staging, t₂, all, staged⟩ | ⟨⟨a, mem, long⟩, e, t₂, all, kept⟩
    · exact .inl ⟨staging, t₂, all, short, by simpa using staged⟩
    · exact .inr ⟨fun short => long (short.2 a mem), .inr ⟨t₁, e, t₂, rfl, short, all, kept⟩⟩

theorem of_stageIn_ok {staging : Staging} {t₂ : FileTree}
    (ended : stageIn settings artifacts destination (destination ++ [scratch]) t =
      .ok staging t₂) :
    Short destination [scratch] ∧
      Staged t destination d scratch settings.extension settings.nspace artifacts staging t₂ := by
  rcases stageIn_ends is_scratch root absent lie with
    ⟨staging', t₂', ended', short, staged⟩ | ⟨-, made | ⟨t₁, e, t₂', made, -, all, -⟩⟩
  · cases ended.symm.trans ended'
    exact ⟨short, staged⟩
  · rw [stageIn, DiskAction.bind_of_error (DiskAction.change_of_none made)] at ended
    cases ended
  · rw [stageIn, DiskAction.bind_of_ok (DiskAction.change_of_some made), all] at ended
    cases ended

/-- An install stages all artifacts and goes on from there, or some names are too long and nothing
has changed. -/
theorem installArtifacts_staged (resolver : Resolver)
    (fresh : scratch = freshScratchName (t.children d)) :
    (∃ staging t₂, stageIn settings artifacts destination (destination ++ [scratch]) t =
          .ok staging t₂ ∧ Short destination [scratch] ∧
        Staged t destination d scratch settings.extension settings.nspace artifacts staging t₂ ∧
        installArtifacts settings artifacts destination resolver t =
          ((passPlan settings destination scratch resolver).install staging.summaries
            settings.nspace).always
              (fun t => (t.removeTree? (destination ++ [scratch])).getD t) t₂) ∨
      (¬ ShortBehind settings destination scratch artifacts ∧
        ∃ e, installArtifacts settings artifacts destination resolver t = .error e t) := by
  unfold installArtifacts withScratch
  rw [DiskAction.get_bind, namesIn_root root, ← fresh]
  rcases stageIn_ends is_scratch root absent lie with
    ⟨staging, t₂, all, short, staged⟩ | ⟨long, made | ⟨t₁, e, t₂, made, short, all, kept⟩⟩
  · refine .inl ⟨staging, t₂, all, short, staged, ?_⟩
    obtain ⟨⟨⟩, t₁, made, all⟩ := DiskAction.of_bind_eq_ok all
    rw [DiskAction.bind_of_ok made]
    exact DiskAction.always_congr _ (DiskAction.bind_of_ok all)
  · exact .inr ⟨long, ⟨_⟩, DiskAction.bind_of_error (DiskAction.change_of_none made)⟩
  · refine .inr ⟨long, e, ?_⟩
    rw [DiskAction.bind_of_ok (DiskAction.change_of_some made),
      DiskAction.always_of_error (DiskAction.bind_of_error all),
      kept.removed is_scratch short absent]

end Staging

/-! ## From staging to placing -/

section Staged

variable {settings : Settings} {resolver : Resolver} {scratch : String} {artifacts : List Artifact}
  {staging : Staging} {t₂ : FileTree}
  (staged : Staged t destination d scratch settings.extension settings.nspace artifacts staging t₂)

include staged

theorem Staged.mem_summaries_iff {file : Location} {summary : Option String} :
    (file, summary) ∈ staging.summaries.entries ↔
      ∃ a, latest settings.extension file artifacts = some a ∧ a.summary = summary := by
  rw [← Table.get?_eq_some_iff, staged.summaries, Option.map_eq_some_iff]

/-- What is not below the scratch directory is as it was before. -/
theorem Staged.get?_beside {q : Location} (beside : ¬ [scratch] <+: q) :
    t₂.entries.get? (d ++ q) = t.entries.get? (d ++ q) :=
  staged.outside _ fun way => beside ((List.prefix_append_right_inj d).mp way)

/-- What is staged will lie directly in the namespace. -/
theorem Staged.direct : ∀ e ∈ staging.summaries.entries, ∃ name,
    e.1 = settings.nspace.segments ++ [name] ∧ Plain e.1 := by
  intro e mem
  obtain ⟨a, found, -⟩ := staged.mem_summaries_iff.mp mem
  obtain ⟨mem_a, here⟩ := of_latest found
  obtain ⟨name, file, plain⟩ := (staged.lie a mem_a).file settings.extension
  rw [here] at file
  exact ⟨name, file, file ▸ plain⟩

/-- Placing leaves alone what no artifact belongs to. -/
theorem Staged.placed_elsewhere (is_scratch : isScratchName scratch = true) {t₃ : FileTree}
    {installed : List Location}
    (placed : (passPlan settings destination scratch resolver).Placed d scratch settings.nspace t₂
      t₃ staging.summaries.entries installed) {name : String}
    (absent : latest settings.extension (settings.nspace.segments ++ [name]) artifacts = none) :
    t₃.entries.get? (d ++ (settings.nspace.segments ++ [name])) =
      t.entries.get? (d ++ (settings.nspace.segments ++ [name])) := by
  have outside : ¬ [scratch] <+: settings.nspace.segments ++ [name] :=
    head_ne_of_dot (dot_mem_of_isScratchName is_scratch) _
  have off : ∀ e ∈ staging.summaries.entries, ¬ e.1 <+: settings.nspace.segments ++ [name] ∧
      settings.nspace.segments ++ [name] ≠ scratch :: e.1 := by
    intro e mem
    obtain ⟨a, found, -⟩ := staged.mem_summaries_iff.mp mem
    obtain ⟨name', direct, -⟩ := staged.direct e mem
    refine ⟨fun below => ?_, fun same => outside ⟨e.1, same.symm⟩⟩
    rw [below.eq_of_length (by simp [direct]), absent] at found
    cases found
  rcases placed.elsewhere off with same | ⟨-, way⟩
  · exact same.trans (staged.get?_beside outside)
  · exact absurd way (not_prefix_concat _ name)

/-- What was staged for the same artifacts does not depend on the tree. -/
theorem Staged.summaries_eq {base u : FileTree} {scratch' : String} {staging' : Staging}
    (staged' : Staged base destination d scratch' settings.extension settings.nspace artifacts
      staging' u) :
    staging.summaries = staging'.summaries :=
  Table.ext_get? fun file => by rw [staged.summaries, staged'.summaries]

theorem Staged.linkFree (is_scratch : isScratchName scratch = true)
    (free : t.LinkFree destination d) : t₂.LinkFree destination d where
  toRoot := staged.root
  named q entry found := by
    by_cases beside : ¬ [scratch] <+: q
    · exact free.named q entry (staged.get?_beside beside ▸ found)
    · obtain ⟨r, rfl⟩ := not_not.mp beside
      refine Plain.cons (plain_of_isScratchName is_scratch) ?_
      by_cases nonempty : r = []
      · simp [nonempty, Plain]
      · rw [List.singleton_append, staged.content r nonempty] at found
        split at found
        · next a latest_eq =>
          obtain ⟨mem, rfl⟩ := of_latest latest_eq
          obtain ⟨name, file, plain⟩ := (staged.lie a mem).file settings.extension
          exact file ▸ plain
        · split at found
          · next way =>
            obtain ⟨rest, whole⟩ := way.2
            exact (whole ▸ plain_segments settings.nspace).of_append
          · cases found

theorem Staged.ready (free : t.LinkFree destination d)
    (is_scratch : isScratchName scratch = true) (resolver : Resolver) :
    (passPlan settings destination scratch resolver).Ready d scratch settings.nspace t₂
      staging.summaries.entries where
  free := staged.linkFree is_scratch free
  scratch_eq := rfl
  dot := dot_mem_of_isScratchName is_scratch
  directory := staged.directory
  placeable e mem := by
    obtain ⟨name, direct, plain⟩ := staged.direct e mem
    obtain ⟨a, found, -⟩ := staged.mem_summaries_iff.mp mem
    obtain ⟨mem_a, here⟩ := of_latest found
    refine ⟨⟨name, direct⟩, plain.cons (plain_of_isScratchName is_scratch), ?_, ?_⟩
    · rw [← here]
      exact staged.short a mem_a
    · rw [staged.content e.1 (by simp [direct]), found]
      exact ⟨_, rfl⟩
  distinct := staging.summaries.keys_ascending.imp fun less => by
    rintro rfl
    exact Std.lt_irrefl less

end Staged

/-! ## Storing the report -/

theorem plain_reportFile : Plain [reportFile] := by
  simp only [Plain, List.mem_singleton, forall_eq]
  decide

section Report

variable {combined : Combined}

theorem parent_reportFile (destination : Location) :
    (destination ++ [reportFile]).parent = FilePath.dropBlank destination := by
  have above : (destination ++ ([] ++ [reportFile])).parent =
      FilePath.dropBlank (destination ++ []) :=
    Location.parent_append_concat destination [] (by decide)
  simpa using above

theorem saveReport_eq (combined : Combined) (root : t.Root destination d) :
    saveReport destination combined t =
      DiskAction.write (destination ++ [reportFile]) (Stored.encode combined) t := by
  simp only [saveReport, parent_reportFile]
  rw [DiskAction.bind_of_ok (makeDirectories_dropBlank root)]

theorem saveReport_ok (combined : Combined) (root : t.Root destination d)
    (short : Short destination [reportFile])
    (free : t.entries.get? (d ++ [reportFile]) ≠ some .directory) :
    ∃ t', saveReport destination combined t = .ok () t' ∧ ∀ l, t'.entries.get? l =
      if l = d ++ [reportFile] then some (.file (Stored.encode combined)) else t.entries.get? l := by
  obtain ⟨t', written⟩ := root.write?_exists (Stored.encode combined) plain_reportFile (by simp)
    short free (by
      rw [List.dropLast_concat]
      exact root.directory)
  obtain ⟨-, -, spec⟩ := root.write?_ok plain_reportFile (by simp) written
  refine ⟨t', ?_, spec⟩
  rw [saveReport_eq combined root]
  exact DiskAction.change_of_some written

theorem of_saveReport_ok (root : t.Root destination d)
    (saved : saveReport destination combined t = .ok () t') :
    Short destination [reportFile] ∧ ∀ l, t'.entries.get? l =
      if l = d ++ [reportFile] then some (.file (Stored.encode combined)) else t.entries.get? l := by
  rw [saveReport_eq combined root] at saved
  cases written : t.write? (destination ++ [reportFile]) (Stored.encode combined) with
  | none =>
    have refused : DiskAction.write (destination ++ [reportFile]) (Stored.encode combined) t =
        .error ⟨_⟩ t := DiskAction.change_of_none written
    rw [refused] at saved
    cases saved
  | some t₁ =>
    have done : DiskAction.write (destination ++ [reportFile]) (Stored.encode combined) t =
        .ok () t₁ := DiskAction.change_of_some written
    rw [done] at saved
    cases saved
    obtain ⟨short, -, spec⟩ := root.write?_ok plain_reportFile (by simp) written
    exact ⟨short, spec⟩

end Report

/-! ## An install that went through -/

namespace InstallPlan

section Install

variable {p : InstallPlan} {scratch : String} {nspace : ImportPath}
  {summaries : Table Location (Option String)} {outcome : Outcome}

/-- The files that are not to be swept. -/
def keptFiles (p : InstallPlan) (summaries : Table Location (Option String)) : List Location :=
  summaries.keys.map (p.destination ++ ·)

/-- The directory of the namespace, seen from where the destination is. -/
def sweepRoot (p : InstallPlan) (nspace : ImportPath) : Location :=
  p.destination ++ nspace.segments

/-- Sweeping leaves the files of artifacts alone. -/
theorem Swept.kept_file {items : List (Location × Entry)} {e : Location × Option String}
    (swept : p.Swept d nspace (p.keptFiles summaries) items t t')
    (mem : e ∈ summaries.entries) : t'.entries.get? (d ++ e.1) = t.entries.get? (d ++ e.1) :=
  swept.keeps (List.mem_map_of_mem (List.mem_map_of_mem mem))

/-- The tree between the stages of an install that went through, after placing and before
sweeping. -/
structure Stages (p : InstallPlan) (d : Location) (scratch : String) (nspace : ImportPath)
    (summaries : Table Location (Option String)) (outcome : Outcome) (t t₃ t₄ : FileTree) :
    Prop where
  place : p.placeAll summaries.entries t = .ok (outcome.installed, outcome.unchanged) t₃
  placed : p.Placed d scratch nspace t t₃ summaries.entries outcome.installed
  sweep : ∃ removed, p.sweepAll (p.keptFiles summaries) (p.sweepRoot nspace)
    (sweepList t₃ (p.sweepRoot nspace)) t₃ = .ok removed t₄
  swept : p.Swept d nspace (p.keptFiles summaries) (sweepList t₃ (p.sweepRoot nspace)) t₃ t₄
  within : ∀ item ∈ sweepList t₃ (p.sweepRoot nspace),
    p.Within nspace (p.keptFiles summaries) item

theorem install_eq (p : InstallPlan) (summaries : Table Location (Option String))
    (nspace : ImportPath) :
    p.install summaries nspace = (do
      let placed ← p.placeAll summaries.entries
      let removed ← p.sweepAll (p.keptFiles summaries) (p.sweepRoot nspace)
        (sweepList (← get) (p.sweepRoot nspace))
      return ⟨placed.1, placed.2, removed.mergeSort fun a b => a ≤ b⟩) := by
  simp only [install, sweep, bind_assoc, pure_bind]
  rfl

/-- Sweeping leaves the scratch directory alone. -/
theorem Swept.scratch_kept {kept : List Location} {items : List (Location × Entry)}
    (swept : p.Swept d nspace kept items t t') (dot : '.' ∈ scratch.toList) :
    t'.entries.get? (d ++ [scratch]) = t.entries.get? (d ++ [scratch]) := by
  rcases swept (d ++ [scratch]) with same | ⟨-, item, -, -, here, -⟩
  · exact same
  · have names := List.append_cancel_left here
    exact absurd ⟨[], by simpa using names⟩ (head_ne_of_dot dot item.1)

/-- Placing leaves the scratch directories of others alone. -/
theorem Placed.other_scratch {items : List (Location × Option String)} {installed : List Location}
    (placed : p.Placed d scratch nspace t t' items installed)
    (direct : ∀ e ∈ items, ∃ file, e.1 = nspace.segments ++ [file] ∧ Plain e.1) {name : String}
    (dot : '.' ∈ name.toList) (other : name ≠ scratch) :
    t'.entries.get? (d ++ [name]) = t.entries.get? (d ++ [name]) := by
  have off : ∀ e ∈ items, ¬ e.1 <+: [name] ∧ [name] ≠ scratch :: e.1 := by
    intro e mem
    obtain ⟨file, direct, -⟩ := direct e mem
    refine ⟨fun below => ?_, fun same => other (List.cons_eq_cons.mp same).1⟩
    have lengths := below.length_le
    have positive := List.length_pos_iff.mpr nspace.segments_ne_nil
    simp only [direct, List.length_append, List.length_singleton] at lengths
    omega
  have on_way : ¬ [name] <+: nspace.segments := by simpa using head_ne_of_dot dot []
  rcases placed.elsewhere off with same | ⟨-, way⟩
  · exact same
  · exact absurd way on_way

/-- An install that went through placed all artifacts and swept the namespace then. -/
theorem of_install_ok (ended : p.install summaries nspace t = .ok outcome t') :
    ∃ t₃ removed,
      p.placeAll summaries.entries t = .ok (outcome.installed, outcome.unchanged) t₃ ∧
      p.sweepAll (p.keptFiles summaries) (p.sweepRoot nspace)
        (sweepList t₃ (p.sweepRoot nspace)) t₃ = .ok removed t' ∧
      outcome.removed = removed.mergeSort fun a b => a ≤ b := by
  rw [install_eq] at ended
  obtain ⟨r, t₃, place, ended⟩ := DiskAction.of_bind_eq_ok ended
  rw [DiskAction.get_bind] at ended
  obtain ⟨removed, t₄, sweep, ended⟩ := DiskAction.of_bind_eq_ok ended
  cases ended
  exact ⟨t₃, removed, place, sweep, rfl⟩

theorem Ready.stages (ready : p.Ready d scratch nspace t summaries.entries)
    (ended : p.install summaries nspace t = .ok outcome t') :
    ∃ t₃, p.Stages d scratch nspace summaries outcome t t₃ t' := by
  obtain ⟨t₃, removed, place, sweep, -⟩ := of_install_ok ended
  rcases ready.placeAll_ends with ⟨r', t₃', place', placed⟩ | ⟨-, error, t₃', place'⟩
  · cases place.symm.trans place'
    obtain ⟨swept, within⟩ := swept_of_sweepAll_ok placed.free sweep
    exact ⟨t₃, place, placed, ⟨removed, sweep⟩, swept, within⟩
  · cases place.symm.trans place'

end Install

end InstallPlan

/-! ## A pass that went through -/

section Pass

variable {g : Generator} {s : Snapshot} {resolver : Resolver} {outcome : PassOutcome}

theorem liesIn_of_mem_artifacts {a : Artifact} (mem : a ∈ g.artifacts s) :
    a.LiesIn g.settings.nspace := by
  obtain ⟨m, -, found⟩ := mem_artifacts_iff.mp mem
  exact ⟨_, virtualPath_of_artifact found⟩

/-- The trees between the stages of a pass that went through: after clearing, staging, placing and
sweeping. -/
structure PassStages (g : Generator) (s : Snapshot) (destination d : Location)
    (resolver : Resolver) (outcome : PassOutcome) (scratch : String) (staging : Staging)
    (t t₀ t₂ t₃ t₄ t' : FileTree) : Prop where
  clear_ok : sweepScratch destination (namesIn t destination) t = .ok () t₀
  cleared : Cleared destination d (t.children d) t t₀
  scratch_eq : scratch = freshScratchName (t₀.children d)
  stage_ok : stageIn g.settings (g.artifacts s) destination (destination ++ [scratch]) t₀ =
    .ok staging t₂
  short : Short destination [scratch]
  staged : Staged t₀ destination d scratch g.settings.extension g.settings.nspace (g.artifacts s)
    staging t₂
  install : (passPlan g.settings destination scratch resolver).Stages d scratch g.settings.nspace
    staging.summaries outcome.install t₂ t₃ t₄
  combined : combine (g.artifacts s) = .ok outcome.combined
  short_report : Short destination [reportFile]
  saved : ∀ l, t'.entries.get? l =
    if l = d ++ [reportFile] then some (.file (Stored.encode outcome.combined))
    else (t₄.prune (d ++ [scratch])).entries.get? l

theorem absent_of_fresh {scratch : String} (fresh : scratch = freshScratchName (t.children d)) :
    t.entries.get? (d ++ [scratch]) = none := by
  have free := freshScratchName_not_mem (t.children d)
  rw [← fresh, mem_children_iff, Option.not_isSome_iff_eq_none] at free
  exact free

/-- A pass that goes through has all its stages. -/
theorem stages_of_runPass (free : t.LinkFree destination d)
    (ended : g.runPass s destination resolver t = .ok outcome t') :
    ∃ scratch staging t₀ t₂ t₃ t₄,
      PassStages g s destination d resolver outcome scratch staging t t₀ t₂ t₃ t₄ t' := by
  obtain ⟨t₀, cleared, clear_ok, cleared_eq⟩ := installPass_eq g s resolver free.toRoot
  have free₀ := cleared.linkFree free
  have is_scratch := isScratchName_fresh (t₀.children d)
  generalize fresh : freshScratchName (t₀.children d) = scratch at is_scratch
  obtain ⟨merged, -, t₅, installed, saved⟩ := of_runPass_ok ended
  rw [cleared_eq] at installed
  rcases installArtifacts_staged is_scratch free₀.toRoot (absent_of_fresh fresh.symm)
      (fun a mem => liesIn_of_mem_artifacts mem) resolver fresh.symm with
    ⟨staging, t₂, stage_ok, short, staged, staged_eq⟩ | ⟨-, e, stopped⟩
  · rw [staged_eq] at installed
    obtain ⟨t₄, install_ok, rfl⟩ := DiskAction.of_always_eq_ok installed
    obtain ⟨t₃, stages⟩ := (staged.ready free₀ is_scratch resolver).stages install_ok
    have root₄ : t₄.Root destination d := stages.swept.root stages.placed.free.toRoot
    have directory := (stages.swept.scratch_kept (dot_mem_of_isScratchName is_scratch)).trans
      stages.placed.directory
    rw [root₄.removeTree?_directory (plain_scratch is_scratch) (by simp) short directory,
      Option.getD_some] at saved
    obtain ⟨short_report, spec⟩ :=
      of_saveReport_ok (root₄.pruned (q := [scratch]) (by simp)) saved
    exact ⟨scratch, staging, t₀, t₂, t₃, t₄, clear_ok, cleared, fresh.symm, stage_ok, short,
      staged, stages, merged, short_report, spec⟩
  · cases installed.symm.trans stopped

/-! What a pass does elsewhere leaves the namespace alone. -/

section Namespace

variable {scratch : String} {staging : Staging} {t₀ t₂ t₃ t₄ : FileTree}
  (stages : PassStages g s destination d resolver outcome scratch staging t t₀ t₂ t₃ t₄ t')

include stages

theorem PassStages.is_scratch : isScratchName scratch = true :=
  stages.scratch_eq ▸ isScratchName_fresh (t₀.children d)

theorem PassStages.linkFree_end : t'.LinkFree destination d := by
  have free₄ := stages.install.swept.linkFree stages.install.placed.free
  exact (free₄.pruned (q := [scratch]) (by simp)).of_entered plain_reportFile (by simp) stages.saved
    nofun

/-- A pass leaves the scratch directories of others as it found them once it was cleared. -/
theorem PassStages.scratch_names {name : String} (scratch_name : isScratchName name = true) :
    t'.entries.get? (d ++ [name]) = t₀.entries.get? (d ++ [name]) := by
  have dot := dot_mem_of_isScratchName scratch_name
  have not_report : name ≠ reportFile := by
    rintro rfl
    exact absurd scratch_name (by decide)
  rw [stages.saved, if_neg (by simpa using not_report), get?_prune]
  by_cases own : name = scratch
  · subst own
    rw [if_pos (List.prefix_refl _), absent_of_fresh stages.scratch_eq]
  · rw [if_neg (by simpa [prefix_singleton_iff] using Ne.symm own),
      stages.install.swept.scratch_kept dot]
    rw [stages.install.placed.other_scratch stages.staged.direct dot own]
    exact stages.staged.get?_beside (by simpa using Ne.symm own)

/-- So the destination is clear after a pass. -/
theorem PassStages.clear : Clear t' destination d := by
  rintro name ⟨scratch_name, short, found⟩
  rw [stages.scratch_names scratch_name] at found
  exact stages.cleared.clear name ⟨scratch_name, short, found⟩

/-- And the next pass uses a scratch directory of the same name. -/
theorem PassStages.fresh_again : scratch = freshScratchName (t'.children d) := by
  rw [stages.scratch_eq]
  refine freshScratchName_congr fun name scratch_name => ?_
  rw [mem_children_iff, mem_children_iff, stages.scratch_names scratch_name]

/-- Until artifacts are placed, the namespace is as the pass found it. -/
theorem PassStages.sameBelow_start :
    InstallPlan.SameBelow (d ++ g.settings.nspace.segments) t t₂ := by
  intro names
  rw [List.append_assoc, stages.staged.get?_beside
    (head_ne_of_dot (dot_mem_of_isScratchName stages.is_scratch) names)]
  rcases stages.cleared.get?_eq_or (d ++ (g.settings.nspace.segments ++ names)) with
    same | ⟨-, name, scratch, way⟩
  · exact same.symm
  · rw [List.prefix_append_right_inj] at way
    exact absurd way (head_ne_of_dot (dot_mem_of_isScratchName scratch) names)

/-- Once it is swept, the namespace is as the pass leaves it. -/
theorem PassStages.sameBelow_end :
    InstallPlan.SameBelow (d ++ g.settings.nspace.segments) t₄ t' := by
  intro names
  have off_report : ¬ [reportFile] <+: g.settings.nspace.segments ++ names :=
    head_ne_of_dot (by decide) names
  have off_scratch : ¬ [scratch] <+: g.settings.nspace.segments ++ names :=
    head_ne_of_dot (dot_mem_of_isScratchName stages.is_scratch) names
  rw [List.append_assoc, stages.saved, if_neg, get?_prune, if_neg]
  · rwa [List.prefix_append_right_inj]
  · intro here
    exact off_report ⟨[], by simpa using (List.append_cancel_left here).symm⟩

end Namespace

end Pass

end VirtualModules
