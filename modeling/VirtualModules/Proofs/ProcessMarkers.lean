import VirtualModules.Proofs.Healing
import VirtualModules.Proofs.Histories

/-!
# The marker of a process in the files

Under a token of the process, the artifacts of all installed modules bear the line of this token and
of no other one (`markerLine_mem_content_iff`). But whether a file is up to date is told by its
summary, of which the token is no part (`summary_eq_of_settings`).

* `hasLine_marker_iff`: after a pass the line is in the files that the pass installed and in those
  where it was before.
* `not_hasLine_of_restart`: a file that another process has written for the same snapshot stays as
  it is, without the line of this one.
-/

namespace VirtualModules

open FileTree

variable {g : Generator} {t t' : FileTree} {destination d : Location} {s : Snapshot}
  {resolver : Resolver} {outcome : PassOutcome} {token : String}

/-- Names lead to a file with this line. -/
def HasLine (t : FileTree) (names : Location) (line : String) : Prop :=
  ∃ text, t.read? names = some (.ofText text) ∧ line.toList ∈ textLines text.toList

theorem hasLine_congr {names : Location} (same : t.read? names = t'.read? names) {line : String} :
    HasLine t names line ↔ HasLine t' names line := by
  rw [HasLine, same, HasLine]

theorem hasLine_of_read? {names : Location} {text : String}
    (read : t.read? names = some (.ofText text)) {line : String} :
    HasLine t names line ↔ line.toList ∈ textLines text.toList := by
  constructor
  · rintro ⟨text', read', mem⟩
    rw [read] at read'
    rwa [ofText_inj (Option.some.inj read')]
  · exact fun mem => ⟨text, read, mem⟩

theorem append_between_inj {start ending text text' : String} :
    start ++ text ++ ending = start ++ text' ++ ending ↔ text = text' := by
  simp only [← String.toList_inj, String.toList_append, List.append_cancel_right_eq,
    List.append_cancel_left_eq]

theorem markerLine_inj {marker marker' : String} :
    Facts.markerLine marker = Facts.markerLine marker' ↔ marker = marker' :=
  append_between_inj

/-- The line that bears the marker is the only one that starts as it does. -/
theorem eq_markerLine_of_head? {f : Facts} {generic : ImportPath} {line : String}
    (mem : line ∈ f.lines generic) (starts : line.toList.head? = some 'd') :
    line = Facts.markerLine (f.marker.getD Facts.emptyMarker) := by
  rw [Facts.lines, List.mem_append] at mem
  rcases mem with head | block
  · simp only [Facts.headLines, List.mem_cons, List.not_mem_nil, or_false] at head
    rcases head with rfl | rfl | rfl | rfl | rfl | rfl | rfl
    · simp at starts
    · simp at starts
    · rfl
    · simp at starts
    · simp at starts
    · simp [Facts.moduleLine] at starts
    · unfold Facts.summaryLine at starts
      split at starts <;> simp at starts
  · rw [Facts.aliasBlock] at block
    split at block
    · cases block
    · simp only [List.cons_append, List.nil_append, List.mem_append, List.mem_cons, List.mem_map]
        at block
      rcases block with rfl | rfl | ⟨p, -, rfl⟩ | ⟨line, -, rfl⟩ <;> simp at starts

theorem markerLine_mem_lines_iff {f : Facts} {generic : ImportPath} {marker : String} :
    Facts.markerLine marker ∈ f.lines generic ↔ f.marker.getD Facts.emptyMarker = marker := by
  constructor
  · intro mem
    exact (markerLine_inj.mp (eq_markerLine_of_head? mem (head?_markerLine marker))).symm
  · rintro rfl
    simp [Facts.lines, Facts.headLines]

/-- The artifacts of installed modules bear the token of the process, and no other one. -/
theorem markerLine_mem_content_iff (policy : g.policy = .perProcess token)
    (within : '\n' ∉ token.toList) {m : SourceModule} (installed : m.installed = true)
    {a : Artifact} (found : g.artifact s m = .ok a) {marker : String} :
    (Facts.markerLine marker).toList ∈ textLines a.content.toList ↔ token = marker := by
  obtain ⟨table, listed, rfl⟩ := artifact_installed installed found
  have bears : (Facts.ofConcrete (g.context s) m table).marker = some token := by
    have context : (g.context s).policy = .perProcess token := policy
    rw [marker_ofConcrete, context]
    rfl
  have lines := textLines_content (c := g.context s) listed g.settings.genericQueryset
    (by rwa [bears])
  rw [Artifact.render, lines, List.mem_map_of_injective fun _ _ => String.toList_injective,
    markerLine_mem_lines_iff, bears, Option.getD_some]

/-- After a pass the line of the process is in the file of a module exactly if the pass installed
this file or the line was there before, provided that no module without an installed application has
the same file. -/
theorem hasLine_marker_iff (free : (t.makeDirectories destination).LinkFree destination d)
    (policy : g.policy = .perProcess token) (within : '\n' ∉ token.toList) {m : SourceModule}
    (mem : m ∈ s.moduleList) {a : Artifact} (found : g.artifact s m = .ok a)
    (installed : ∀ n ∈ s.moduleList, virtualPath g.settings.nspace n.path =
      virtualPath g.settings.nspace m.path → n.installed = true)
    (ended : g.runPass s destination resolver t = .ok outcome t') :
    HasLine t' (a.place g.settings destination) (Facts.markerLine token) ↔
      a.place g.settings destination ∈ outcome.install.installed ∨
        HasLine (t.makeDirectories destination) (a.place g.settings destination)
          (Facts.markerLine token) := by
  obtain ⟨b, top⟩ := latest_of_mem g.settings.extension (mem_artifacts_iff.mpr ⟨m, mem, found⟩)
  have after : t'.read? (a.place g.settings destination) =
      if a.place g.settings destination ∈ outcome.install.installed then some (.ofText b.content)
      else (t.makeDirectories destination).read? (a.place g.settings destination) :=
    read?_latest free top ended
  by_cases listed : a.place g.settings destination ∈ outcome.install.installed
  · -- the artifact that was installed last is one of an installed module
    obtain ⟨mem_b, file⟩ := of_latest top
    obtain ⟨n, mem_n, found_b⟩ := mem_artifacts_iff.mp mem_b
    rw [virtualPath_of_artifact found_b, virtualPath_of_artifact found] at file
    have marked : (Facts.markerLine token).toList ∈ textLines b.content.toList :=
      (markerLine_mem_content_iff policy within (installed n mem_n (artifactFile_child_inj file))
        found_b).mpr rfl
    rw [if_pos listed] at after
    exact iff_of_true ((hasLine_of_read? after).mpr marked) (.inl listed)
  · rw [if_neg listed] at after
    rw [or_iff_right listed]
    exact hasLine_congr after

/-! ## After a restart -/

section Restart

variable {g' : Generator} {m : SourceModule} {a a' : Artifact} (settings : g'.settings = g.settings)
  (found : g.artifact s m = .ok a) (found' : g'.artifact s m = .ok a')

include settings found found'

/-- The policy of the marker is no part of the summary. -/
theorem summary_eq_of_settings : a'.summary = a.summary := by
  obtain ⟨f, gathered, rfl⟩ := artifact_ok found
  obtain ⟨f', gathered', rfl⟩ := artifact_ok found'
  cases installed : m.installed with
  | true =>
    obtain ⟨table, listed, rfl⟩ := gather_installed installed gathered
    obtain ⟨table', listed', rfl⟩ := gather_installed installed gathered'
    cases listed.symm.trans listed'
    simp only [Artifact.render, Facts.ofConcrete, Generator.context, settings]
  | false =>
    rw [gather_uninstalled _ _ installed] at gathered gathered'
    cases gathered
    cases gathered'
    rfl

variable (free : (t.makeDirectories destination).LinkFree destination d) (built : s.Built)
  (distinct : VirtuallyDistinct g.settings.nspace s.HasPath) (mem : m ∈ s.moduleList)
  (simple : g.settings.SimpleExtension) (within' : g'.policy.WithinLine)
  (there : (t.makeDirectories destination).read? (a.place g.settings destination) =
    some (.ofText a'.content))
  (ended : g.runPass s destination (passResolver g.settings.extension s []) t = .ok outcome t')

include free built distinct mem simple within' there ended

/-- What another process has written into the file of a module stays there, as long as nothing else
has changed. -/
theorem kept_of_restart :
    a.place g.settings destination ∉ outcome.install.installed ∧
      t'.read? (a.place g.settings destination) = some (.ofText a'.content) := by
  have current : summaryOf? s.knows a'.content = a.summary :=
    (summaryOf?_artifact within' found' (built.knows_iff.mpr ⟨m, mem, rfl⟩)).trans
      (summary_eq_of_settings settings found found')
  have unlisted := not_mem_installed_of_text free built distinct mem found ended
    (passResolver_nil g.settings.extension s) simple there current
  have after := read?_place free built distinct mem found ended
  rw [if_neg unlisted, there] at after
  exact ⟨unlisted, after⟩

/-- So the file does not get the marker of this process. -/
theorem not_hasLine_of_restart {other : String} (policy' : g'.policy = .perProcess other)
    (differ : other ≠ token) (installed : m.installed = true) :
    ¬ HasLine t' (a.place g.settings destination) (Facts.markerLine token) := by
  obtain ⟨-, after⟩ := kept_of_restart settings found found' free built distinct mem simple within'
    there ended
  rw [hasLine_of_read? after,
    markerLine_mem_content_iff policy' (within' other policy') installed found']
  exact differ

end Restart

namespace Adoption

/-- The generator of a process with a token. -/
def processGenerator (token : String) : Generator :=
  { generator with policy := .perProcess token }

/-- The artifact of the parents' module in a process. -/
def processArtifact (token : String) : Artifact :=
  .render generator.settings.genericQueryset
    (.ofConcrete ((processGenerator token).context childless) parentModule
      (.ofList [(first, []), (second, [])]))

theorem artifact_process (token : String) :
    (processGenerator token).artifact childless parentModule = .ok (processArtifact token) :=
  artifact_of_concreteTable (g := processGenerator token) rfl concreteTable_childless

theorem installed_childless : ∀ n ∈ childless.moduleList,
    virtualPath generator.settings.nspace n.path =
        virtualPath generator.settings.nspace parentModule.path → n.installed = true := by
  intro n mem same
  have path : n.path = parents :=
    childless_distinct _ _ ⟨n, mem, rfl⟩ ⟨_, parentModule_mem, rfl⟩ same
  rw [moduleList_childless, List.mem_cons, List.mem_singleton] at mem
  rcases mem with rfl | rfl
  · rfl
  · exact absurd path (by decide)

theorem place_process (token : String) :
    (processArtifact token).place (processGenerator token).settings ["out"] =
      ["out"] ++ parentsFile := rfl

theorem latest_process (token : String) :
    latest (processGenerator token).settings.extension parentsFile
      ((processGenerator token).artifacts childless) = some (processArtifact token) := by
  have found := artifact_process token
  have top := childless_built.latest_eq (g := processGenerator token) childless_distinct
    (mem_artifacts_iff.mpr ⟨parentModule, parentModule_mem, found⟩)
  rwa [virtualPath_of_artifact found] at top

/-- The pass of a process into a destination that was empty. -/
def processPass (token : String) : Chronicle :=
  (processGenerator token).chronicles ["out"] ∅
    [(childless, passResolver generator.settings.extension childless [])]

theorem read?_processPass (token : String) :
    (processPass token).tree.read? (["out"] ++ parentsFile) =
      some (.ofText (processArtifact token).content) :=
  read?_first (g := processGenerator token) _ startsEmpty childless_built
    (twoModules_childless.allShort rfl) (latest_process token)

/-- The first process puts its marker into the file. -/
theorem start_marked :
    ((∅ : FileTree).makeDirectories ["out"]).LinkFree ["out"] ["out"] ∧
    ∃ outcome t', (processGenerator "1").runPass childless ["out"]
        (passResolver generator.settings.extension childless []) ∅ = .ok outcome t' ∧
      HasLine t' (["out"] ++ parentsFile) (Facts.markerLine "1") := by
  have sound := sound_start (g := processGenerator "1") startsEmpty
  have free := sound.tidy.linkFree
  obtain ⟨outcome, t', ended, -⟩ := runPass_of_allShort
    (passResolver generator.settings.extension childless []) sound childless_built
    (twoModules_childless.allShort rfl)
  refine ⟨free, outcome, t', ended, ?_⟩
  have marked_iff := hasLine_marker_iff (g := processGenerator "1") free rfl (by decide)
    parentModule_mem (artifact_process "1") installed_childless ended
  have installed_iff := mem_installed_iff (g := processGenerator "1") free childless_built
    childless_distinct parentModule_mem (artifact_process "1") ended
    (passResolver_nil generator.settings.extension childless)
  rw [place_process] at marked_iff installed_iff
  refine marked_iff.mpr (.inl (installed_iff.mpr ?_))
  decide +kernel

theorem made_processPass (token : String) :
    (processPass token).tree.makeDirectories ["out"] = (processPass token).tree :=
  makeDirectories_of_read? (read?_processPass token)

theorem sound_processPass (token : String) :
    (processPass token).Sound (processGenerator token) ["out"] ["out"] :=
  sound_chronicles startsEmpty (by simpa using childless_built)

/-- After a restart, the pass of the second process leaves the marker of the first one. -/
theorem restart_unmarked :
    (((processPass "1").tree.makeDirectories ["out"]).LinkFree ["out"] ["out"] ∧ childless.Built) ∧
    (parentModule ∈ childless.moduleList ∧ parentModule.installed = true ∧
      (processGenerator "2").policy = .perProcess "2" ∧
      (processGenerator "2").artifact childless parentModule = .ok (processArtifact "2")) ∧
    ∃ outcome t', (processGenerator "2").runPass childless ["out"]
        (passResolver generator.settings.extension childless []) (processPass "1").tree =
          .ok outcome t' ∧
      ¬ HasLine t' (["out"] ++ parentsFile) (Facts.markerLine "2") := by
  have tidy := (sound_processPass "1").tidy
  have free := tidy.linkFree
  have settings : (processGenerator "1").settings = (processGenerator "2").settings := rfl
  have policy : (processGenerator "1").policy = .perProcess "1" := rfl
  have within : (processGenerator "1").policy.WithinLine := by
    rintro token ⟨⟩
    decide
  have simple : generator.settings.SimpleExtension := by decide
  have there : ((processPass "1").tree.makeDirectories ["out"]).read?
      ((processArtifact "2").place (processGenerator "2").settings ["out"]) =
        some (.ofText (processArtifact "1").content) := by
    rw [made_processPass, place_process]
    exact read?_processPass "1"
  rcases runPass_ends (g := processGenerator "2")
      (passResolver generator.settings.extension childless []) childless_built tidy with
    ⟨outcome, t', ended, -⟩ | ⟨long, -⟩
  · rw [made_processPass] at ended
    have unmarked := not_hasLine_of_restart settings (artifact_process "2") (artifact_process "1")
      free childless_built childless_distinct parentModule_mem simple within there ended policy
      (by decide : "1" ≠ "2") rfl
    rw [place_process] at unmarked
    exact ⟨⟨free, childless_built⟩, ⟨parentModule_mem, rfl, rfl, artifact_process "2"⟩, outcome,
      t', ended, unmarked⟩
  · exact absurd (twoModules_childless.allShort (g := processGenerator "2") rfl) long

end Adoption

end VirtualModules
