import VirtualModules.Proofs.Stages
import VirtualModules.Proofs.TidyDestinations

/-!
# What a pass leaves in a tidy destination

From a tidy destination a pass goes through and leaves a tidy one again, or it stops while it stages
since some names are too long, and then it has changed nothing at all (`runPass_ends`). After a pass
that went through, `PassResult` tells for the file of every artifact whether it was installed or
left unchanged, and that the stored report is the combined one.
-/

namespace VirtualModules

open FileTree

variable {t t' : FileTree} {nspace : ImportPath} {destination d : Location}

/-! ## The scratch directory -/

def firstScratch : String := ".vdep-scratch-0"

theorem isScratchName_firstScratch : isScratchName firstScratch = true := by decide

theorem dot_mem_firstScratch : '.' ∈ firstScratch.toList := by decide

theorem Tidy.no_scratch (tidy : Tidy nspace destination d t) {name : String}
    (mem : name ∈ t.children d) : isScratchName name = false := by
  cases scratch : isScratchName name with
  | false => rfl
  | true =>
    have dot := dot_mem_of_isScratchName scratch
    obtain ⟨entry, found⟩ := Option.isSome_iff_exists.mp (mem_children_iff.mp mem)
    have allowed := tidy.below [name] entry (by simp) found
    generalize here : [name] = q at allowed
    cases allowed with
    | directory way =>
      rw [← here] at way
      have off_way : ¬ [name] <+: nspace.segments ++ [] := head_ne_of_dot dot []
      exact absurd (by simpa using way) off_way
    | file => exact absurd here (nspace.singleton_ne_segments_append _ (by simp))
    | report =>
      cases here
      exact absurd scratch (by decide)

theorem Tidy.clear (tidy : Tidy nspace destination d t) : Clear t destination d := by
  intro name litter
  have no_scratch := tidy.no_scratch (mem_children_of_litter litter)
  rw [litter.1] at no_scratch
  cases no_scratch

theorem Tidy.fresh (tidy : Tidy nspace destination d t) :
    firstScratch = freshScratchName (t.children d) := by
  have least : freshScratchName [] = firstScratch := by decide
  rw [← least]
  refine freshScratchName_congr fun name scratch => ?_
  simp only [List.not_mem_nil, false_iff]
  intro mem
  rw [tidy.no_scratch mem] at scratch
  cases scratch

/-! ## Installing -/

section Installing

variable {settings : Settings} {resolver : Resolver} {artifacts : List Artifact}

/-- The plan of a pass into a tidy destination. -/
def tidyPlan (settings : Settings) (destination : Location) (resolver : Resolver) : InstallPlan :=
  passPlan settings destination firstScratch resolver

/-- The names of everything that is staged are short enough. -/
def AllShort (settings : Settings) (destination : Location) (artifacts : List Artifact) : Prop :=
  Short destination [firstScratch] ∧ ∀ a ∈ artifacts,
    Short destination (firstScratch :: artifactFile settings.extension a.virtualPath)

/-- So they are if the names for all modules are. -/
theorem allShort_of_modules {g : Generator} {s : Snapshot} {destination : Location}
    (scratch : Short destination [firstScratch])
    (modules : ∀ m ∈ s.moduleList, Short destination (firstScratch ::
      artifactFile g.settings.extension (virtualPath g.settings.nspace m.path))) :
    AllShort g.settings destination (g.artifacts s) := by
  refine ⟨scratch, fun a mem => ?_⟩
  obtain ⟨m, mem_m, found⟩ := mem_artifacts_iff.mp mem
  rw [virtualPath_of_artifact found]
  exact modules m mem_m

/-- An artifact for a file was installed over what was out of date there, or what stood there was up
to date and stayed. -/
def FileSettled (settings : Settings) (destination d : Location) (resolver : Resolver)
    (t t' : FileTree) (installed : List Location) (file : Location) (a : Artifact) : Prop :=
  ∃ u : FileTree, u.Root destination d ∧ u.entries.get? (d ++ file) = t.entries.get? (d ++ file) ∧
    (((tidyPlan settings destination resolver).upToDate u (destination ++ file) a.summary = false ∧
        destination ++ file ∈ installed ∧
        t'.entries.get? (d ++ file) = some (.file (.ofText a.content))) ∨
      ((tidyPlan settings destination resolver).upToDate u (destination ++ file) a.summary = true ∧
        destination ++ file ∉ installed ∧
        t'.entries.get? (d ++ file) = t.entries.get? (d ++ file)))

/-- What installing some artifacts did to a tidy destination. -/
structure Installed (settings : Settings) (destination d : Location) (resolver : Resolver)
    (artifacts : List Artifact) (t t' : FileTree) (installed : List Location) : Prop where
  tidy : Tidy settings.nspace destination d t'
  settled : ∀ file a, latest settings.extension file artifacts = some a →
    FileSettled settings destination d resolver t t' installed file a
  installed_mem : ∀ l ∈ installed, ∃ file a, latest settings.extension file artifacts = some a ∧
    l = destination ++ file
  others : ∀ name, latest settings.extension (settings.nspace.segments ++ [name]) artifacts = none →
    t'.entries.get? (d ++ (settings.nspace.segments ++ [name])) =
        t.entries.get? (d ++ (settings.nspace.segments ++ [name])) ∨
      t'.entries.get? (d ++ (settings.nspace.segments ++ [name])) = none

section Stages

variable {staging : Staging} {t₂ t₃ t₄ : FileTree} {installed : List Location}
  {items : List (Location × Entry)}
  (tidy : Tidy settings.nspace destination d t)
  (staged : Staged t destination d firstScratch settings.extension settings.nspace artifacts
    staging t₂)
  (placed : (tidyPlan settings destination resolver).Placed d firstScratch settings.nspace t₂ t₃
    staging.summaries.entries installed)

include tidy staged

/-- Nothing is in the way of the directory of the namespace. -/
theorem Staged.freeNamespace : t₂.FreeWay d settings.nspace.segments := by
  intro r nonempty way
  have beside : ¬ [firstScratch] <+: r := fun below =>
    head_ne_of_dot dot_mem_firstScratch [] (by simpa using below.trans way)
  rw [staged.get?_beside beside]
  cases found : t.entries.get? (d ++ r) with
  | none => exact .inl rfl
  | some entry =>
    rw [(tidy.below r entry nonempty found).of_segments way nonempty]
    exact .inr rfl

theorem Staged.tidyReady (resolver : Resolver) :
    (tidyPlan settings destination resolver).Ready d firstScratch settings.nspace t₂
      staging.summaries.entries :=
  staged.ready tidy.linkFree isScratchName_firstScratch resolver

include placed

/-- In the place of an artifact there is no more than a file. -/
theorem Placed.atMostFile {e : Location × Option String} (mem : e ∈ staging.summaries.entries) :
    t₃.AtMostFile (d ++ e.1) := by
  have placeable := (staged.tidyReady tidy resolver).placeable e mem
  obtain ⟨name, direct⟩ := placeable.direct
  obtain ⟨u, -, -, ⟨-, -, kept⟩ | ⟨-, -, kept⟩⟩ := placed.settled e mem
  · obtain ⟨content, file⟩ := placeable.staged
    exact .inr ⟨content, kept.trans file⟩
  · rw [AtMostFile, kept, direct, staged.get?_beside (head_ne_of_dot dot_mem_firstScratch _)]
    exact tidy.atMostFile name

theorem Placed.tidyBeside : TidyBeside settings.nspace destination d firstScratch t₃ where
  root := placed.free.toRoot
  below q entry nonempty beside found := by
    have ready := staged.tidyReady tidy resolver
    by_cases item : ∃ e ∈ staging.summaries.entries, e.1 <+: q
    · obtain ⟨e, mem, rest, rfl⟩ := item
      have placeable := ready.placeable e mem
      by_cases more : rest = []
      · subst more
        rw [List.append_nil] at found beside ⊢
        obtain ⟨name, direct⟩ := placeable.direct
        obtain ⟨u, -, -, ⟨-, -, kept⟩ | ⟨-, -, kept⟩⟩ := placed.settled e mem
        · obtain ⟨content, file⟩ := placeable.staged
          rw [kept, file] at found
          cases found
          have plain := placeable.plain_file
          have short := placeable.short.of_cons
          rw [direct] at plain short ⊢
          exact .file plain short
        · rw [kept, staged.get?_beside beside] at found
          exact tidy.below _ _ placeable.nonempty found
      · have free := Placed.atMostFile tidy staged placed mem
        rw [← List.append_assoc, free.get?_below (by simp [placeable.nonempty]) more] at found
        cases found
    · have off : ∀ e ∈ staging.summaries.entries, ¬ e.1 <+: q ∧ q ≠ firstScratch :: e.1 := by
        intro e mem
        refine ⟨fun below => item ⟨e, mem, below⟩, ?_⟩
        rintro rfl
        exact beside ⟨e.1, rfl⟩
      rcases placed.elsewhere off with same | ⟨directory, way⟩
      · rw [same, staged.get?_beside beside] at found
        exact tidy.below _ _ nonempty found
      · rw [directory] at found
        cases found
        exact .directory way

omit tidy staged placed

theorem TidyBeside.swept {p : InstallPlan} {scratch : String} {kept : List Location}
    (tidy : TidyBeside nspace p.destination d scratch t)
    (swept : p.Swept d nspace kept items t t') :
    TidyBeside nspace p.destination d scratch t' where
  root := swept.root tidy.root
  below q entry nonempty beside found := by
    rcases swept (d ++ q) with same | ⟨gone, -⟩
    · rw [same] at found
      exact tidy.below q entry nonempty beside found
    · rw [gone] at found
      cases found

theorem TidyBeside.pruned {scratch : String} (tidy : TidyBeside nspace destination d scratch t) :
    Tidy nspace destination d (t.prune (d ++ [scratch])) where
  root := tidy.root.pruned (q := [scratch]) (by simp)
  below q entry nonempty found := by
    rw [get?_prune] at found
    split at found
    · cases found
    · next outside =>
      exact tidy.below q entry nonempty
        (fun way => outside ((List.prefix_append_right_inj d).mpr way)) found

include tidy in
/-- What placing, sweeping and removing the scratch directory come to. -/
theorem Installed.of_stages
    (staged : Staged t destination d firstScratch settings.extension settings.nspace artifacts
      staging t₂)
    (placed : (tidyPlan settings destination resolver).Placed d firstScratch settings.nspace t₂ t₃
      staging.summaries.entries installed)
    (swept : (tidyPlan settings destination resolver).Swept d settings.nspace
      (staging.summaries.keys.map (destination ++ ·)) items t₃ t₄) :
    Installed settings destination d resolver artifacts t (t₄.prune (d ++ [firstScratch]))
      installed where
  tidy := ((Placed.tidyBeside tidy staged placed).swept swept).pruned
  settled file a found := by
    have mem := staged.mem_summaries_iff.mpr ⟨a, found, rfl⟩
    obtain ⟨name, direct⟩ := ((staged.tidyReady tidy resolver).placeable _ mem).direct
    simp only at direct
    have beside : ¬ [firstScratch] <+: file := by
      rw [direct]
      exact head_ne_of_dot dot_mem_firstScratch _
    have kept : (t₄.prune (d ++ [firstScratch])).entries.get? (d ++ file) =
        t₃.entries.get? (d ++ file) := by
      rw [get?_prune, if_neg fun way => beside ((List.prefix_append_right_inj d).mp way)]
      exact swept.keeps (List.mem_map.mpr ⟨file, List.mem_map.mpr ⟨_, mem, rfl⟩, rfl⟩)
    obtain ⟨u, root, same, ended⟩ := placed.settled _ mem
    rw [staged.get?_beside beside] at same ended
    refine ⟨u, root, same, ?_⟩
    rw [kept]
    rcases ended with ⟨stale, listed, moved⟩ | fresh
    · refine .inl ⟨stale, listed, moved.trans ?_⟩
      rw [staged.content file (by simp [direct]), found]
    · exact .inr fresh
  installed_mem l listed := by
    obtain ⟨e, mem, here⟩ := placed.installed_mem l listed
    obtain ⟨a, found, -⟩ := staged.mem_summaries_iff.mp mem
    exact ⟨e.1, a, found, here⟩
  others name absent := by
    have outside : ¬ [firstScratch] <+: settings.nspace.segments ++ [name] :=
      head_ne_of_dot dot_mem_firstScratch _
    rw [get?_prune, if_neg fun way => outside ((List.prefix_append_right_inj d).mp way)]
    rcases swept (d ++ (settings.nspace.segments ++ [name])) with same | ⟨gone, -⟩
    · rw [same]
      exact .inl (staged.placed_elsewhere isScratchName_firstScratch placed absent)
    · exact .inr gone

end Stages

section Ends

variable (tidy : Tidy settings.nspace destination d t)
  (lie : ∀ a ∈ artifacts, a.LiesIn settings.nspace)

variable (resolver) in
include tidy in
/-- Once everything is staged, it is installed. -/
theorem install_ends {staging : Staging} {t₂ : FileTree}
    (staged : Staged t destination d firstScratch settings.extension settings.nspace artifacts
      staging t₂) :
    ∃ outcome t₄, (tidyPlan settings destination resolver).install staging.summaries
          settings.nspace t₂ = .ok outcome t₄ ∧
      t₄.entries.get? (d ++ [firstScratch]) = some .directory ∧ t₄.Root destination d ∧
      Installed settings destination d resolver artifacts t (t₄.prune (d ++ [firstScratch]))
        outcome.installed := by
  rcases (staged.tidyReady tidy resolver).placeAll_ends with
    ⟨⟨installed, unchanged⟩, t₃, all_placed, placed⟩ | ⟨blocked, -⟩
  · have beside := Placed.tidyBeside tidy staged placed
    obtain ⟨removed, t₄, all_swept, swept⟩ := TidyBeside.sweep_ok
      (p := tidyPlan settings destination resolver) beside dot_mem_firstScratch
      (staging.summaries.keys.map (destination ++ ·))
    refine ⟨{ installed, unchanged, removed }, t₄, ?_, ?_, swept.root placed.free.toRoot,
      Installed.of_stages tidy staged placed swept⟩
    · simp only [InstallPlan.install]
      rw [DiskAction.bind_of_ok all_placed]
      exact (DiskAction.bind_of_ok all_swept).trans rfl
    · rw [swept.scratch_kept dot_mem_firstScratch, placed.directory]
  · exact absurd (staged.freeNamespace tidy) blocked

variable (resolver) in
include tidy lie in
/-- Artifacts are installed in a tidy destination, or their names are too long and nothing has
changed. -/
theorem installArtifacts_ends :
    (Short destination [firstScratch] ∧
      ∃ outcome t', installArtifacts settings artifacts destination resolver t = .ok outcome t' ∧
        Installed settings destination d resolver artifacts t t' outcome.installed) ∨
      (¬ AllShort settings destination artifacts ∧
        ∃ e, installArtifacts settings artifacts destination resolver t = .error e t) := by
  rcases installArtifacts_staged isScratchName_firstScratch tidy.root (absent_of_fresh tidy.fresh)
      lie resolver tidy.fresh with ⟨staging, t₂, -, short, staged, staged_eq⟩ | stopped
  · obtain ⟨outcome, t₄, ended, directory, root₄, installed⟩ := install_ends resolver tidy staged
    refine .inl ⟨short, outcome, _, staged_eq.trans (DiskAction.always_of_ok ended), ?_⟩
    rw [root₄.removeTree?_directory (plain_scratch isScratchName_firstScratch) (by simp) short
      directory, Option.getD_some]
    exact installed
  · exact .inr stopped

end Ends

end Installing

/-! ## The report -/

section Report

variable {settings : Settings} {resolver : Resolver} {artifacts : List Artifact}
  {installed : List Location}

/-- The name of the report is no longer than that of the scratch directory. -/
theorem short_reportFile (short : Short destination [firstScratch]) :
    Short destination [reportFile] := by
  obtain ⟨usable, -⟩ := short
  have scratch_bytes : firstScratch.utf8ByteSize = 15 := by decide
  have report_bytes : reportFile.utf8ByteSize = 10 := by decide
  have no_nul : reportFile.toList.contains (Char.ofNat 0) = false := by decide
  simp only [Location.isUsable, List.all_append, Location.byteLength_append, Location.byteLength,
    List.all_cons, List.all_nil, Bool.and_eq_true, decide_eq_true_eq] at usable
  refine ⟨?_, by simp [report_bytes, Location.maxNameBytes]⟩
  simp only [Location.isUsable, List.all_append, Location.byteLength_append, Location.byteLength,
    List.all_cons, List.all_nil, Bool.and_eq_true, decide_eq_true_eq, no_nul]
  exact ⟨⟨usable.1.1, rfl, trivial⟩, by omega⟩

theorem Tidy.saved {content : Bytes} (tidy : Tidy nspace destination d t)
    (spec : ∀ l, t'.entries.get? l =
      if l = d ++ [reportFile] then some (.file content) else t.entries.get? l) :
    Tidy nspace destination d t' where
  root := tidy.root.of_entered (by simp) spec nofun
  below q entry nonempty found := by
    rw [spec] at found
    split at found
    · next here =>
      cases found
      rw [List.append_cancel_left here]
      exact .report
    · exact tidy.below q entry nonempty found

/-- Storing a report changes nothing about what was installed. -/
theorem Installed.saved {t₁ : FileTree} {content : Bytes}
    (lie : ∀ a ∈ artifacts, a.LiesIn settings.nspace)
    (done : Installed settings destination d resolver artifacts t t₁ installed)
    (spec : ∀ l, t'.entries.get? l =
      if l = d ++ [reportFile] then some (.file content) else t₁.entries.get? l) :
    Installed settings destination d resolver artifacts t t' installed where
  tidy := done.tidy.saved spec
  settled file a found := by
    obtain ⟨mem, rfl⟩ := of_latest found
    obtain ⟨name, direct, -⟩ := (lie a mem).file settings.extension
    have elsewhere : artifactFile settings.extension a.virtualPath ≠ [reportFile] := by
      rw [direct]
      exact (settings.nspace.singleton_ne_segments_append _ (by simp)).symm
    have same : t'.entries.get? (d ++ artifactFile settings.extension a.virtualPath) =
        t₁.entries.get? (d ++ artifactFile settings.extension a.virtualPath) := by
      rw [spec, if_neg (by simpa using elsewhere)]
    unfold FileSettled
    rw [same]
    exact done.settled _ a found
  installed_mem := done.installed_mem
  others name absent := by
    have elsewhere : settings.nspace.segments ++ [name] ≠ [reportFile] :=
      (settings.nspace.singleton_ne_segments_append _ (by simp)).symm
    rw [spec, if_neg (by simpa using elsewhere)]
    exact done.others name absent

end Report

/-! ## The pass -/

section Pass

variable {g : Generator} {s : Snapshot} {resolver : Resolver}

/-- What a pass that went through did to a tidy destination. -/
structure PassResult (g : Generator) (s : Snapshot) (destination d : Location)
    (resolver : Resolver) (t t' : FileTree) (outcome : PassOutcome) : Prop where
  combined : combine (g.artifacts s) = .ok outcome.combined
  installed : Installed g.settings destination d resolver (g.artifacts s) t t'
    outcome.install.installed
  report : t'.read? (destination ++ [reportFile]) = some (Stored.encode outcome.combined)

/-- A pass into a tidy destination goes through, or some names are too long and it changes
nothing. -/
theorem runPass_ends (resolver : Resolver) (built : s.Built)
    (tidy : Tidy g.settings.nspace destination d t) :
    (∃ outcome t', g.runPass s destination resolver t = .ok outcome t' ∧
        PassResult g s destination d resolver t t' outcome) ∨
      (¬ AllShort g.settings destination (g.artifacts s) ∧
        ∃ e, g.runPass s destination resolver t = .error e t) := by
  have root := tidy.root
  have lie : ∀ a ∈ g.artifacts s, a.LiesIn g.settings.nspace := fun a => liesIn_of_mem_artifacts
  obtain ⟨combined, combined_ok⟩ := combine_artifacts_exists (g := g) built
  have prepared := installPass_of_clear g s resolver root tidy.clear
  rw [runPass_eq]
  simp only [combined_ok]
  rcases installArtifacts_ends resolver tidy lie with
    ⟨short, install, t₁, ended, installed⟩ | ⟨long, e, ended⟩
  · rw [DiskAction.bind_of_ok (DiskAction.mapError_of_ok (prepared.trans ended))]
    have root₁ := installed.tidy.root
    have short_report := short_reportFile short
    have free : t₁.entries.get? (d ++ [reportFile]) ≠ some .directory := by
      intro found
      generalize here : [reportFile] = q at found
      cases installed.tidy.below q _ (by simp [← here]) found with
      | directory way =>
        rw [← here] at way
        have off_way : ¬ [reportFile] <+: g.settings.nspace.segments ++ [] :=
          head_ne_of_dot (by decide) []
        exact off_way (by simpa using way)
    obtain ⟨t', saved, spec⟩ := saveReport_ok combined root₁ short_report free
    rw [DiskAction.bind_of_ok (DiskAction.mapError_of_ok saved)]
    refine .inl ⟨_, t', rfl, combined_ok, installed.saved lie spec, ?_⟩
    have root' := (installed.saved lie spec).tidy.root
    rw [root'.read?_eq_some_iff plain_reportFile (by simp)]
    exact ⟨short_report, by rw [spec, if_pos rfl]⟩
  · rw [DiskAction.bind_of_error (DiskAction.mapError_of_error (prepared.trans ended))]
    exact .inr ⟨long, _, rfl⟩

end Pass

end VirtualModules
