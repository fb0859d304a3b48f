import VirtualModules.Proofs.Healing
import VirtualModules.Proofs.Histories
import VirtualModules.Proofs.RepeatedPasses

/-!
# Passes one after another and passes from scratch

A pass leaves up to date what reads so, and it removes what is no artifact of a known module. Where
equal summaries stand for equal texts (`Generator.Faithful`), this comes to the same as starting
anew: after any passes into a destination that was empty at first, the namespace holds just the
artifacts of the last snapshot (`holdsArtifacts_of_passes`), as it does after the last pass alone
(`runPass_eq_from_scratch`).
-/

namespace VirtualModules

open FileTree

variable {g : Generator} {t t' u : FileTree} {destination d e : Location} {s : Snapshot}
  {outcome : PassOutcome}

/-- The pass of a snapshot without search paths. -/
def Generator.ownPass (g : Generator) (s : Snapshot) : Snapshot × Resolver :=
  (s, passResolver g.settings.extension s [])

/-- Of artifacts of some snapshots for one virtual module, those with equal summaries have equal
texts. -/
def Generator.Faithful (g : Generator) (snapshots : List Snapshot) : Prop :=
  ∀ r₁ ∈ snapshots, ∀ r₂ ∈ snapshots, ∀ a ∈ g.artifacts r₁, ∀ b ∈ g.artifacts r₂,
    a.virtualPath = b.virtualPath → a.summary = b.summary → a.content = b.content

/-- The namespace holds just the artifacts of the snapshot. -/
def HoldsArtifacts (g : Generator) (s : Snapshot) (d : Location) (t : FileTree) : Prop :=
  ∀ names, names ≠ [] → t.entries.get? (d ++ (g.settings.nspace.segments ++ names)) =
    (latest g.settings.extension (g.settings.nspace.segments ++ names) (g.artifacts s)).map
      fun a => .file (.ofText a.content)

/-! ## Where the texts on record come from -/

theorem chronicles_concat (passes : List (Snapshot × Resolver)) (pass : Snapshot × Resolver) :
    g.chronicles destination t (passes ++ [pass]) =
      g.chronicle destination (g.chronicles destination t passes) pass := by
  simp [Generator.chronicles]

/-- Every text on record is that of an artifact of one of the passes. -/
theorem recorded_chronicles (passes : List (Snapshot × Resolver)) {file : Location} {b : Artifact}
    (recorded : (g.chronicles destination t passes).record file = some b) :
    ∃ pass ∈ passes, b ∈ g.artifacts pass.1 ∧
      artifactFile g.settings.extension b.virtualPath = file := by
  induction passes using List.reverseRecOn with
  | nil => cases recorded
  | append_singleton before pass ih =>
    have earlier (h : (g.chronicles destination t before).record file = some b) :
        ∃ pass' ∈ before ++ [pass], b ∈ g.artifacts pass'.1 ∧
          artifactFile g.settings.extension b.virtualPath = file := by
      obtain ⟨pass', mem, found⟩ := ih h
      exact ⟨pass', List.mem_append_left _ mem, found⟩
    rw [chronicles_concat, Generator.chronicle] at recorded
    split at recorded
    · simp only at recorded
      split at recorded
      · exact ⟨pass, by simp, of_latest recorded⟩
      · exact earlier recorded
    · exact earlier recorded

/-! ## What a namespace at rest holds -/

/-- The file of the namespace holds the text of an artifact of one of the snapshots. -/
def FromArtifacts (g : Generator) (snapshots : List Snapshot) (d : Location) (t : FileTree) :
    Prop :=
  ∀ name content, t.entries.get? (d ++ (g.settings.nspace.segments ++ [name])) =
      some (.file content) →
    ∃ r ∈ snapshots, ∃ b ∈ g.artifacts r,
      artifactFile g.settings.extension b.virtualPath = g.settings.nspace.segments ++ [name] ∧
        content = .ofText b.content

section Rest

variable {snapshots : List Snapshot}

/-- Artifacts in the same file are those of modules with the same path. -/
theorem same_module {r : Snapshot} {n m : SourceModule} {b a : Artifact}
    (distinct : VirtuallyDistinct g.settings.nspace fun p => ∃ r ∈ snapshots, r.HasPath p)
    (mem_r : r ∈ snapshots) (mem_s : s ∈ snapshots) (mem_n : n ∈ r.moduleList)
    (mem_m : m ∈ s.moduleList) (found_b : g.artifact r n = .ok b) (found_a : g.artifact s m = .ok a)
    (same : artifactFile g.settings.extension b.virtualPath =
      artifactFile g.settings.extension a.virtualPath) :
    b.virtualPath = a.virtualPath ∧ n.path = m.path := by
  rw [virtualPath_of_artifact found_b, virtualPath_of_artifact found_a] at same ⊢
  have same_virtual := artifactFile_child_inj same
  exact ⟨same_virtual,
    distinct _ _ ⟨r, mem_r, n, mem_n, rfl⟩ ⟨s, mem_s, m, mem_m, rfl⟩ same_virtual⟩

/-- A file holds the text of an artifact, and for a plan this text states what is stored there. -/
structure Origin (p : InstallPlan) (q : Location) (d : Location) (t : FileTree)
    (known : ImportPath → Bool) (b : Artifact) : Prop where
  file : artifactFile p.extension b.virtualPath = q
  short : Short p.destination q
  text : t.entries.get? (d ++ q) = some (.file (.ofText b.content))
  stored : p.stored? t (p.destination ++ q) = summaryOf? known b.content

variable {staging : Staging} {base t₂ : FileTree} {scratch : String}
  (mem_s : s ∈ snapshots) (simple : g.settings.SimpleExtension) (within : g.policy.WithinLine)
  (built : s.Built) (none_fail : g.failures s = [])
  (distinct : VirtuallyDistinct g.settings.nspace fun p => ∃ r ∈ snapshots, r.HasPath p)
  (faithful : g.Faithful snapshots)
  (tidy : Tidy g.settings.nspace destination d t') (texts : FromArtifacts g snapshots d t')
  (staged : Staged base destination d scratch g.settings.extension g.settings.nspace
    (g.artifacts s) staging t₂)
  (rest : (passPlan g.settings destination scratch (.ofNames s.knows)).AtRest d
    g.settings.nspace staging.summaries t')

include simple tidy texts in
/-- Whatever stands in the namespace comes from a module of one of the snapshots. -/
theorem origin_of_get? {names : Location} (nonempty : names ≠ []) {entry : Entry}
    (there : t'.entries.get? (d ++ (g.settings.nspace.segments ++ names)) = some entry)
    (scratch : String) (known : ImportPath → Bool) :
    ∃ r ∈ snapshots, ∃ n ∈ r.moduleList, ∃ b, g.artifact r n = .ok b ∧
      Origin (passPlan g.settings destination scratch (.ofNames known))
        (g.settings.nspace.segments ++ names) d t' known b := by
  obtain ⟨name, rfl⟩ := (tidy.below _ _ (by simp [nonempty]) there).below_segments nonempty
  obtain ⟨content, rfl, plain, short⟩ := (tidy.below _ _ (by simp) there).of_concat
  obtain ⟨r, mem_r, b, mem_b, same_file, rfl⟩ := texts name content there
  obtain ⟨n, mem_n, found_b⟩ := mem_artifacts_iff.mp mem_b
  have named := extension?_artifactFile simple destination (liesIn_of_mem_artifacts mem_b)
  rw [same_file] at named
  exact ⟨r, mem_r, n, mem_n, b, found_b, same_file, short, there,
    InstallPlan.stored?_of_text tidy.root plain (by simp) short there named⟩

include mem_s simple within built distinct faithful tidy texts staged rest in
/-- Where an artifact belongs, there is its text. -/
theorem holds_latest {names : Location} (nonempty : names ≠ []) {a : Artifact}
    (found : latest g.settings.extension (g.settings.nspace.segments ++ names) (g.artifacts s) =
      some a) :
    t'.entries.get? (d ++ (g.settings.nspace.segments ++ names)) =
      some (.file (.ofText a.content)) := by
  obtain ⟨mem_a, here⟩ := of_latest found
  obtain ⟨name, direct, plain⟩ := (liesIn_of_mem_artifacts mem_a).file g.settings.extension
  obtain ⟨m, mem_m, found_a⟩ := mem_artifacts_iff.mp mem_a
  have current := rest.upToDate _ (staged.mem_summaries_iff.mpr ⟨a, found, rfl⟩)
  rw [InstallPlan.upToDate, Bool.and_eq_true, beq_iff_eq] at current
  obtain ⟨present, stored⟩ := current
  obtain ⟨entry, there⟩ := Option.isSome_iff_exists.mp
    ((tidy.root.present_iff (direct.symm.trans here ▸ plain) (by simp [nonempty])).mp present).2
  obtain ⟨r, mem_r, n, mem_n, b, found_b, origin⟩ :=
    origin_of_get? simple tidy texts nonempty there scratch s.knows
  obtain ⟨same_virtual, same_path⟩ := same_module distinct mem_r mem_s mem_n mem_m found_b found_a
    (origin.file.trans here.symm)
  -- what the file states is the summary of the artifact
  have stated : summaryOf? s.knows b.content = a.summary := origin.stored.symm.trans stored
  rw [summaryOf?_artifact_eq within found_b,
    if_pos (built.knows_iff.mpr ⟨m, mem_m, same_path.symm⟩)] at stated
  rw [origin.text, faithful r mem_r s mem_s b (mem_artifacts_iff.mpr ⟨n, mem_n, found_b⟩) a mem_a
    same_virtual stated]

include simple within built tidy texts staged rest in
/-- What stands where no artifact belongs is the artifact of an installed module of one of the
snapshots, and the last one has a module of this path. -/
theorem origin_of_absent {names : Location} (nonempty : names ≠ [])
    (absent : latest g.settings.extension (g.settings.nspace.segments ++ names) (g.artifacts s) =
      none) {entry : Entry}
    (there : t'.entries.get? (d ++ (g.settings.nspace.segments ++ names)) = some entry) :
    ∃ r ∈ snapshots, ∃ n ∈ r.moduleList, ∃ b, g.artifact r n = .ok b ∧
      artifactFile g.settings.extension b.virtualPath = g.settings.nspace.segments ++ names ∧
      entry = .file (.ofText b.content) ∧ n.installed = true ∧ s.HasPath n.path := by
  obtain ⟨r, mem_r, n, mem_n, b, found_b, origin⟩ :=
    origin_of_get? simple tidy texts nonempty there scratch s.knows
  have listed : (names, Entry.file (.ofText b.content)) ∈
      InstallPlan.sweepList t' (destination ++ g.settings.nspace.segments) :=
    InstallPlan.mem_sweepList_of_get? tidy.root nonempty origin.short.of_append origin.text
  refine ⟨r, mem_r, n, mem_n, b, found_b, origin.file,
    Option.some.inj (there.symm.trans origin.text), ?_⟩
  rcases rest.stays _ listed with kept | stored
  · -- only artifacts are kept
    obtain ⟨file, mem_file, same⟩ := List.mem_map.mp kept
    obtain ⟨⟨file', summary⟩, mem_summary, rfl⟩ := List.mem_map.mp mem_file
    obtain ⟨a, found, -⟩ := staged.mem_summaries_iff.mp mem_summary
    have same_names := List.append_cancel_left same
    simp only at same_names
    rw [same_names, absent] at found
    cases found
  · -- the text states a summary, so its module is one of the snapshot
    replace stored : (summaryOf? s.knows b.content).isSome := origin.stored ▸ stored
    rw [summaryOf?_artifact_eq within found_b] at stored
    split at stored
    · next known =>
      rw [isSome_summary_of_artifact found_b] at stored
      exact ⟨stored, built.knows_iff.mp known⟩
    · cases stored

include simple within built none_fail tidy texts staged rest in
/-- Where no artifact belongs, there is nothing. -/
theorem holds_nothing {names : Location} (nonempty : names ≠ [])
    (absent : latest g.settings.extension (g.settings.nspace.segments ++ names) (g.artifacts s) =
      none) :
    t'.entries.get? (d ++ (g.settings.nspace.segments ++ names)) = none := by
  by_contra some
  obtain ⟨entry, there⟩ := Option.ne_none_iff_exists'.mp some
  obtain ⟨r, mem_r, n, mem_n, b, found_b, file, -, -, m, mem_m, same_path⟩ :=
    origin_of_absent simple within built tidy texts staged rest nonempty absent there
  -- the module of the last snapshot has an artifact in the same file
  obtain ⟨a, found_a⟩ := artifact_of_failures_eq_nil none_fail mem_m
  obtain ⟨a', found⟩ := latest_of_mem g.settings.extension
    (mem_artifacts_iff.mpr ⟨m, mem_m, found_a⟩)
  rw [virtualPath_of_artifact found_a, same_path, ← virtualPath_of_artifact found_b, file,
    absent] at found
  cases found

include mem_s simple within built none_fail distinct faithful tidy texts staged rest in
/-- At rest, the namespace holds the artifacts and nothing else. -/
theorem holdsArtifacts_of_atRest : HoldsArtifacts g s d t' := by
  intro names nonempty
  cases found : latest g.settings.extension (g.settings.nspace.segments ++ names)
      (g.artifacts s) with
  | some a =>
    exact holds_latest mem_s simple within built distinct faithful tidy texts staged rest nonempty
      found
  | none =>
    exact holds_nothing simple within built none_fail tidy texts staged rest nonempty found

end Rest

/-! ## After any passes -/

section Run

variable {passes : List Snapshot} (starts : StartsEmpty t destination d)
  (built : ∀ r ∈ passes ++ [s], r.Built)
  (ended : g.runPass s destination (passResolver g.settings.extension s [])
    (g.chronicles destination t (passes.map g.ownPass)).tree = .ok outcome t')

include starts built

variable (g) in
theorem sound_passes :
    (g.chronicles destination t (passes.map g.ownPass)).Sound g destination d := by
  refine sound_chronicles starts fun pass mem => ?_
  obtain ⟨r, mem_r, rfl⟩ := List.mem_map.mp mem
  exact built r (List.mem_append_left _ mem_r)

include ended

/-- The last pass leaves a tidy destination with a report. -/
theorem passResult_of_passes :
    PassResult g s destination d (passResolver g.settings.extension s [])
      ((g.chronicles destination t (passes.map g.ownPass)).tree.makeDirectories destination) t'
      outcome := by
  have tidy := (sound_passes g starts built).tidy
  rw [runPass_made _ _ _ tidy.root] at ended
  rcases runPass_ends (passResolver g.settings.extension s []) (built s (by simp)) tidy with
    ⟨outcome', t'', ended', result⟩ | ⟨-, e, ended'⟩
  · cases ended.symm.trans ended'
    exact result
  · cases ended.symm.trans ended'

/-- What its files hold is from artifacts of the passes. -/
theorem fromArtifacts_of_passes : FromArtifacts g (passes ++ [s]) d t' := by
  intro name content there
  have result := passResult_of_passes starts built ended
  have sound := (sound_passes g starts built).passed result ended
  have tree : (g.chronicle destination (g.chronicles destination t (passes.map g.ownPass))
      (s, passResolver g.settings.extension s [])).tree = t' := by
    simp only [Generator.chronicle, ended]
  obtain ⟨b, recorded, rfl⟩ := sound.recorded name content (by
    rw [tree, result.installed.tidy.made, there])
  have all : g.chronicle destination (g.chronicles destination t (passes.map g.ownPass))
      (s, passResolver g.settings.extension s []) =
        g.chronicles destination t ((passes ++ [s]).map g.ownPass) := by
    rw [List.map_append, List.map_singleton, chronicles_concat, Generator.ownPass]
  rw [all] at recorded
  obtain ⟨pass, mem, found⟩ := recorded_chronicles _ recorded
  obtain ⟨r, mem_r, rfl⟩ := List.mem_map.mp mem
  exact ⟨r, mem_r, b, found.1, found.2, rfl⟩

/-- All names were short enough. -/
theorem allShort_of_passes : AllShort g.settings destination (g.artifacts s) := by
  have tidy := (sound_passes g starts built).tidy
  rw [runPass_made _ _ _ tidy.root] at ended
  obtain ⟨scratch, staging, t₀, t₂, t₃, t₄, stages⟩ := stages_of_runPass tidy.linkFree ended
  have unchanged := stages.clear_ok.symm.trans (tidy.clear.sweepScratch_ok tidy.root _)
  cases unchanged
  have first : scratch = firstScratch := stages.scratch_eq.trans tidy.fresh.symm
  subst first
  exact ⟨stages.short, stages.staged.short⟩

/-- The namespace holds the artifacts of the last snapshot, whatever the others were. -/
theorem holdsArtifacts_of_passes (simple : g.settings.SimpleExtension)
    (within : g.policy.WithinLine) (none_fail : g.failures s = [])
    (distinct : VirtuallyDistinct g.settings.nspace fun p => ∃ r ∈ passes ++ [s], r.HasPath p)
    (faithful : g.Faithful (passes ++ [s])) : HoldsArtifacts g s d t' := by
  have last : s.Built := built s (by simp)
  have result := passResult_of_passes starts built ended
  have texts := fromArtifacts_of_passes starts built ended
  have tidy := (sound_passes g starts built).tidy
  rw [runPass_made _ _ _ tidy.root, passResolver_nil] at ended
  obtain ⟨scratch, staging, t₀, t₂, t₃, t₄, stages⟩ := stages_of_runPass tidy.linkFree ended
  have rest := stages.atRest tidy.linkFree (stages.staged.rereads simple within last _)
  exact holdsArtifacts_of_atRest (by simp) simple within last none_fail distinct faithful
    result.installed.tidy texts stages.staged rest

end Run

/-- After any passes into a destination that was empty at first, the files of the namespace and the
stored report are those that the last pass would have left alone, if equal summaries stand for
equal texts. -/
theorem runPass_eq_from_scratch {passes : List Snapshot} (starts : StartsEmpty t destination d)
    (empty : StartsEmpty u destination e) (simple : g.settings.SimpleExtension)
    (within : g.policy.WithinLine) (built : ∀ r ∈ passes ++ [s], r.Built)
    (none_fail : g.failures s = [])
    (distinct : VirtuallyDistinct g.settings.nspace fun p => ∃ r ∈ passes ++ [s], r.HasPath p)
    (faithful : g.Faithful (passes ++ [s]))
    (ended : g.runPass s destination (passResolver g.settings.extension s [])
      (g.chronicles destination t (passes.map g.ownPass)).tree = .ok outcome t') :
    ∃ alone u', g.runPass s destination (passResolver g.settings.extension s []) u =
        .ok alone u' ∧
      (∀ names, names ≠ [] →
        t'.entries.get? (d ++ (g.settings.nspace.segments ++ names)) =
          u'.entries.get? (e ++ (g.settings.nspace.segments ++ names))) ∧
      t'.read? (destination ++ [reportFile]) = u'.read? (destination ++ [reportFile]) := by
  have last : s.Built := built s (by simp)
  have result := passResult_of_passes starts built ended
  have holds := holdsArtifacts_of_passes starts built ended simple within
    none_fail distinct faithful
  -- the last pass alone is a run with one pass
  have sub : ∀ r ∈ [] ++ [s], r ∈ passes ++ [s] := by simp
  obtain ⟨alone, u', ended', result'⟩ := runPass_of_allShort
    (passResolver g.settings.extension s []) (sound_start (g := g) empty) last
    (allShort_of_passes starts built ended)
  have built' : ∀ r ∈ ([] : List Snapshot) ++ [s], r.Built := fun r mem => built r (sub r mem)
  have holds' : HoldsArtifacts g s e u' := by
    refine holdsArtifacts_of_passes empty built' ended' simple within none_fail ?_
      fun r₁ mem₁ r₂ mem₂ => faithful r₁ (sub r₁ mem₁) r₂ (sub r₂ mem₂)
    exact fun p q hp hq => distinct p q (hp.imp fun r h => ⟨sub r h.1, h.2⟩)
      (hq.imp fun r h => ⟨sub r h.1, h.2⟩)
  refine ⟨alone, u', ended', fun names nonempty => ?_, ?_⟩
  · rw [holds names nonempty, holds' names nonempty]
  · have same : outcome.combined = alone.combined :=
      Except.ok.inj (result.combined.symm.trans result'.combined)
    rw [result.report, result'.report, same]

namespace Adoption

/-- The parents' module without the child's. -/
def parentsAlone : Snapshot where
  installedApps := ["app"]
  modules := .ofList [(parents, parentModule)]
  models := .ofList [(first, abstractModel "A" first), (second, abstractModel "B" second)]
  explicit := none

theorem parentsAlone_built : parentsAlone.Built := by
  have built : Snapshot.ofModules ["app"] [parentModule] = .ok parentsAlone := rfl
  exact .ofModules built

/-- When the child's module is dropped, what is left is what the parents' module alone gives. -/
theorem child_dropped :
    ∃ outcome t', generator.runPass parentsAlone ["out"]
        (passResolver generator.settings.extension parentsAlone [])
        (generator.chronicles ["out"] ∅ ([childless].map generator.ownPass)).tree =
          .ok outcome t' ∧
      ∃ alone u', generator.runPass parentsAlone ["out"]
          (passResolver generator.settings.extension parentsAlone []) ∅ = .ok alone u' ∧
        (∀ names, names ≠ [] →
          t'.entries.get? (["out"] ++ (generator.settings.nspace.segments ++ names)) =
            u'.entries.get? (["out"] ++ (generator.settings.nspace.segments ++ names))) ∧
        t'.read? (["out"] ++ [reportFile]) = u'.read? (["out"] ++ [reportFile]) := by
  have built : ∀ r ∈ [childless] ++ [parentsAlone], r.Built := by
    simpa using ⟨childless_built, parentsAlone_built⟩
  have none_fail : generator.failures parentsAlone = [] := by decide +kernel
  have faithful : generator.Faithful ([childless] ++ [parentsAlone]) := by
    unfold Generator.Faithful
    decide +kernel
  have short : AllShort generator.settings ["out"] (generator.artifacts parentsAlone) := by
    unfold AllShort Short
    decide +kernel
  have smaller : ∀ p, (∃ r ∈ [childless] ++ [parentsAlone], r.HasPath p) → childless.HasPath p := by
    have mem : ∀ m ∈ parentsAlone.moduleList, m ∈ childless.moduleList := by decide +kernel
    rintro p ⟨r, mem_r, m, mem_m, rfl⟩
    rcases List.mem_cons.mp mem_r with rfl | last
    · exact ⟨m, mem_m, rfl⟩
    · rw [List.mem_singleton.mp last] at mem_m
      exact ⟨m, mem m mem_m, rfl⟩
  obtain ⟨outcome, t', ended, -⟩ := runPass_of_allShort
    (passResolver generator.settings.extension parentsAlone [])
    (sound_passes generator startsEmpty built) parentsAlone_built short
  exact ⟨outcome, t', ended, runPass_eq_from_scratch startsEmpty startsEmpty (by decide)
    MarkerPolicy.withinLine_content built none_fail
    (fun p q hp hq => childless_distinct p q (smaller p hp) (smaller q hq)) faithful ended⟩

end Adoption

end VirtualModules
