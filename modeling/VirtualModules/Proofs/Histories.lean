import VirtualModules.Proofs.Healing
import VirtualModules.Proofs.StoredReports

/-!
# The stored report and the files after many passes

Every pass stores its report anew, but it installs an artifact only where the stored summary is
another one. A `Chronicle` keeps for each file the artifact that was installed there last, and the
files of the namespace hold just the texts on record (`Chronicle.Sound`), whatever passes there
were.

* `loadReport_agrees_iff`: the stored report and the files agree after a pass exactly if the texts
  on record define all aliases that the report binds.
* `adoption_rerun_disagrees`: after a child has changed its abstract parent the stored report binds
  an alias that no line of the file defines.
-/

namespace VirtualModules

open FileTree

variable {g : Generator} {t : FileTree} {destination d : Location}

/-! ## Passes one after another -/

/-- What passes into one destination came to: the tree, and for each file the artifact that was
installed there last. -/
structure Chronicle where
  tree : FileTree
  record : Location → Option Artifact

/-- One more pass. What it does not install stays on record, and everything if it stops. -/
def Generator.chronicle (g : Generator) (destination : Location) (c : Chronicle)
    (pass : Snapshot × Resolver) : Chronicle :=
  match g.runPass pass.1 destination pass.2 c.tree with
  | .ok outcome tree =>
    { tree
      record := fun file =>
        if outcome.install.installed.contains (destination ++ file) then
          latest g.settings.extension file (g.artifacts pass.1)
        else c.record file }
  | .error _ tree => { c with tree }

/-- Passes one after another, from a tree where nothing was installed yet. -/
def Generator.chronicles (g : Generator) (destination : Location) (t : FileTree)
    (passes : List (Snapshot × Resolver)) : Chronicle :=
  passes.foldl (g.chronicle destination) ⟨t, fun _ => none⟩

/-- The destination is a directory without content, or can be made one. -/
def StartsEmpty (t : FileTree) (destination d : Location) : Prop :=
  (t.makeDirectories destination).find? destination = some (d, .directory) ∧
    (t.makeDirectories destination).below d = []

/-! ## What is on record -/

/-- The destination is tidy, and every file of the namespace holds the text on record. -/
structure Chronicle.Sound (g : Generator) (destination d : Location) (c : Chronicle) : Prop where
  tidy : Tidy g.settings.nspace destination d (c.tree.makeDirectories destination)
  recorded : ∀ name content,
    (c.tree.makeDirectories destination).entries.get? (d ++ (g.settings.nspace.segments ++ [name])) =
        some (.file content) →
      ∃ a, c.record (g.settings.nspace.segments ++ [name]) = some a ∧ content = .ofText a.content

theorem sound_start (starts : StartsEmpty t destination d) :
    Chronicle.Sound g destination d ⟨t, fun _ => none⟩ := by
  obtain ⟨found, empty⟩ := starts
  have nothing : ∀ q, q ≠ [] → (t.makeDirectories destination).entries.get? (d ++ q) = none := by
    intro q nonempty
    cases here : (t.makeDirectories destination).entries.get? (d ++ q) with
    | none => rfl
    | some entry =>
      have mem := mem_below_iff.mpr ⟨nonempty, here⟩
      rw [empty] at mem
      cases mem
  have directory : HoldsDirectory (t.makeDirectories destination).entries d ∧
      (t.makeDirectories destination).locate destination = .found d := by
    unfold find? at found
    split at found
    · next loc located =>
      obtain ⟨entry, there, same⟩ := Option.map_eq_some_iff.mp found
      cases same
      refine ⟨?_, located⟩
      by_cases top : d = []
      · exact .inl top
      · unfold entry? at there
        rw [if_neg top] at there
        exact .inr there
    · cases found
  refine ⟨⟨.of_empty directory.1 directory.2 nothing, fun q entry nonempty here => ?_⟩,
    fun name content here => ?_⟩
  · rw [nothing q nonempty] at here
    cases here
  · rw [nothing _ (by simp)] at here
    cases here

section Step

variable {s : Snapshot} {resolver : Resolver} {c : Chronicle}

theorem Tidy.made (tidy : Tidy g.settings.nspace destination d t) :
    t.makeDirectories destination = t :=
  makeDirectories_found (tidy.root.leads t (.refl d t))

/-- After a pass that went through, the texts on record are in place again. -/
theorem Chronicle.Sound.passed (sound : c.Sound g destination d) {outcome : PassOutcome}
    {t' : FileTree}
    (result : PassResult g s destination d resolver (c.tree.makeDirectories destination) t' outcome)
    (ended : g.runPass s destination resolver c.tree = .ok outcome t') :
    (g.chronicle destination c (s, resolver)).Sound g destination d := by
  have installed := result.installed
  have made := installed.tidy.made
  simp only [Generator.chronicle, ended, List.contains_iff_mem]
  refine ⟨made.symm ▸ installed.tidy, fun name content found => ?_⟩
  simp only [made] at found ⊢
  cases current : latest g.settings.extension (g.settings.nspace.segments ++ [name])
      (g.artifacts s) with
  | some a =>
    obtain ⟨-, -, -, ⟨-, listed, text⟩ | ⟨-, unlisted, kept⟩⟩ := installed.settled _ a current
    · rw [text] at found
      cases found
      exact ⟨a, by rw [if_pos listed], rfl⟩
    · rw [kept] at found
      rw [if_neg unlisted]
      exact sound.recorded name content found
  | none =>
    have unlisted : destination ++ (g.settings.nspace.segments ++ [name]) ∉
        outcome.install.installed := by
      intro listed
      obtain ⟨file, a, found, here⟩ := installed.installed_mem _ listed
      rw [← List.append_cancel_left here, current] at found
      cases found
    rw [if_neg unlisted]
    rcases installed.others name current with kept | gone
    · rw [kept] at found
      exact sound.recorded name content found
    · rw [gone] at found
      cases found

theorem Chronicle.Sound.step (sound : c.Sound g destination d) (built : s.Built) :
    (g.chronicle destination c (s, resolver)).Sound g destination d := by
  have start := runPass_made g s resolver sound.tidy.root
  rcases runPass_ends resolver built sound.tidy with
    ⟨outcome, t', ended, result⟩ | ⟨-, e, ended⟩
  · exact sound.passed result (start.trans ended)
  · simp only [Generator.chronicle, start.trans ended]
    have made := sound.tidy.made
    exact ⟨made.symm ▸ sound.tidy, made.symm ▸ sound.recorded⟩

/-- Whatever passes there were, the texts on record are in place. -/
theorem sound_chronicles (starts : StartsEmpty t destination d)
    {passes : List (Snapshot × Resolver)} (built : ∀ pass ∈ passes, pass.1.Built) :
    (g.chronicles destination t passes).Sound g destination d := by
  have from_sound : ∀ {c : Chronicle}, c.Sound g destination d →
      (passes.foldl (g.chronicle destination) c).Sound g destination d := by
    induction passes with
    | nil => exact id
    | cons pass rest ih =>
      intro c sound
      exact ih (fun p mem => built p (List.mem_cons_of_mem _ mem))
        (sound.step (built pass List.mem_cons_self))
  exact from_sound (sound_start starts)

end Step

/-! ## Agreement -/

/-- Every model is bound to an alias in a virtual module, of which `P` holds. -/
def Combined.EachAlias (c : Combined) (P : ImportPath → Identifier → Prop) : Prop :=
  ∀ kind model value, kind ≠ OwnedTable.virtualModules → c.report.Binds kind model value →
    ∃ virtual name, value = virtual.child name ∧ P virtual name

/-- For every alias that the report binds, the file of its virtual module has a line that defines
it. -/
def Combined.AgreesWith (c : Combined) (extension : String) (destination : Location)
    (t : FileTree) : Prop :=
  c.EachAlias fun virtual name => ∃ text,
    t.read? (destination ++ artifactFile extension virtual) = some (.ofText text) ∧
      DefinesAlias text name

/-- For every alias that the report binds, the text on record for the file of its virtual module
has a line that defines it. -/
def Combined.OnRecord (c : Combined) (extension : String)
    (record : Location → Option Artifact) : Prop :=
  c.EachAlias fun virtual name => ∃ a,
    record (artifactFile extension virtual) = some a ∧ DefinesAlias a.content name

theorem Combined.EachAlias.congr {c : Combined} {P Q : ImportPath → Identifier → Prop}
    (h : c.EachAlias P) (transfer : ∀ kind model virtual name, kind ≠ OwnedTable.virtualModules →
      c.report.Binds kind model (virtual.child name) → P virtual name → Q virtual name) :
    c.EachAlias Q := by
  intro kind model value owned binds
  obtain ⟨virtual, name, rfl, holds⟩ := h kind model value owned binds
  exact ⟨virtual, name, rfl, transfer kind model virtual name owned binds holds⟩

theorem artifact_of_binds {s : Snapshot} {c : Combined} (h : combine (g.artifacts s) = .ok c)
    {kind : OwnedTable} (owned : kind ≠ .virtualModules) {model virtual : ImportPath}
    {name : Identifier} (binds : c.report.Binds kind model (virtual.child name)) :
    ∃ a ∈ g.artifacts s, a.virtualPath = virtual := by
  obtain ⟨m, mem, ⟨a, found⟩, ⟨-, -, bound⟩ | ⟨clash, -⟩⟩ := (binds_combined_iff h).mp binds
  · refine ⟨a, mem_artifacts_iff.mpr ⟨m, mem, found⟩, ?_⟩
    rw [virtualPath_of_artifact found]
    cases kind with
    | virtualModules => exact absurd rfl owned
    | concreteAliases => exact (ImportPath.child_inj (Option.some.inj bound)).1
    | querysetAliases => exact (ImportPath.child_inj (Option.some.inj bound)).1
  · exact absurd clash owned

section Agreement

variable {s : Snapshot} {resolver : Resolver} {c : Chronicle} {outcome : PassOutcome}
  {t' : FileTree}

theorem Installed.present {artifacts : List Artifact} {installed : List Location}
    (lie : ∀ a ∈ artifacts, a.LiesIn g.settings.nspace)
    (done : Installed g.settings destination d resolver artifacts t t' installed) {a : Artifact}
    (mem : a ∈ artifacts) :
    (t'.entries.get? (d ++ artifactFile g.settings.extension a.virtualPath)).isSome := by
  obtain ⟨b, found⟩ := latest_of_mem g.settings.extension mem
  obtain ⟨name, direct, plain⟩ := (lie a mem).file g.settings.extension
  obtain ⟨u, root, same, ⟨-, -, text⟩ | ⟨fresh, -, kept⟩⟩ := done.settled _ b found
  · rw [text]
    rfl
  · rw [InstallPlan.upToDate, Bool.and_eq_true] at fresh
    have there := ((root.present_iff (direct ▸ plain) (by simp [direct])).mp fresh.1).2
    rwa [kept, ← same]

theorem read?_of_artifact (sound : c.Sound g destination d)
    (result : PassResult g s destination d resolver (c.tree.makeDirectories destination) t' outcome)
    (ended : g.runPass s destination resolver c.tree = .ok outcome t') {a : Artifact}
    (mem : a ∈ g.artifacts s) :
    ∃ b, (g.chronicle destination c (s, resolver)).record
          (artifactFile g.settings.extension a.virtualPath) = some b ∧
      t'.read? (destination ++ artifactFile g.settings.extension a.virtualPath) =
        some (.ofText b.content) := by
  have lie : ∀ a ∈ g.artifacts s, a.LiesIn g.settings.nspace := fun a => liesIn_of_mem_artifacts
  have tidy := result.installed.tidy
  obtain ⟨name, direct, plain⟩ := (lie a mem).file g.settings.extension
  obtain ⟨entry, found⟩ := Option.isSome_iff_exists.mp (result.installed.present lie mem)
  have later := sound.passed result ended
  have tree : (g.chronicle destination c (s, resolver)).tree = t' := by
    simp only [Generator.chronicle, ended]
  rw [direct] at found ⊢
  obtain ⟨content, rfl, -, short⟩ := (tidy.below _ _ (by simp) found).of_concat
  obtain ⟨b, recorded, rfl⟩ := later.recorded name content (by rw [tree, tidy.made, found])
  exact ⟨b, recorded, (tidy.root.read?_eq_some_iff plain (by simp)).mpr ⟨short, found⟩⟩

theorem agreesWith_iff_onRecord (sound : c.Sound g destination d)
    (result : PassResult g s destination d resolver (c.tree.makeDirectories destination) t' outcome)
    (ended : g.runPass s destination resolver c.tree = .ok outcome t') :
    outcome.combined.AgreesWith g.settings.extension destination t' ↔
      outcome.combined.OnRecord g.settings.extension
        (g.chronicle destination c (s, resolver)).record := by
  constructor
  · refine fun agrees => agrees.congr fun kind model virtual name owned binds => ?_
    rintro ⟨text, read, defines⟩
    obtain ⟨a, mem, rfl⟩ := artifact_of_binds result.combined owned binds
    obtain ⟨b, recorded, holds⟩ := read?_of_artifact sound result ended mem
    rw [holds] at read
    rw [← ofText_inj (Option.some.inj read)] at defines
    exact ⟨b, recorded, defines⟩
  · refine fun recorded => recorded.congr fun kind model virtual name owned binds => ?_
    rintro ⟨b, recorded, defines⟩
    obtain ⟨a, mem, rfl⟩ := artifact_of_binds result.combined owned binds
    obtain ⟨b', recorded', holds⟩ := read?_of_artifact sound result ended mem
    rw [recorded] at recorded'
    cases recorded'
    exact ⟨b.content, holds, defines⟩

end Agreement

/-- After any passes into a destination that was empty, the report that the last one stored agrees
with the files exactly if the texts on record define all aliases that it binds. -/
theorem loadReport_agrees_iff {g : Generator} {t : FileTree} {destination d : Location}
    (starts : StartsEmpty t destination d) {passes : List (Snapshot × Resolver)}
    (built : ∀ pass ∈ passes, pass.1.Built) {s : Snapshot} (last : s.Built) {resolver : Resolver}
    {outcome : PassOutcome} {t' : FileTree}
    (ended : g.runPass s destination resolver (g.chronicles destination t passes).tree =
      .ok outcome t')
    (countable : Stored.Countable (Stored.encode outcome.combined)) :
    ∃ c, loadReport t' destination = some c ∧
      (c.AgreesWith g.settings.extension destination t' ↔
        c.OnRecord g.settings.extension
          (g.chronicles destination t (passes ++ [(s, resolver)])).record) := by
  have sound := sound_chronicles (g := g) starts built
  have start := runPass_made g s resolver sound.tidy.root
  rcases runPass_ends resolver last sound.tidy with
    ⟨outcome', t'', ended', result⟩ | ⟨-, e, ended'⟩
  · rw [start, ended'] at ended
    cases ended
    refine ⟨outcome.combined, ?_, ?_⟩
    · rw [loadReport, result.report, Option.bind_some, Stored.decode_encode countable]
    · have later : g.chronicles destination t (passes ++ [(s, resolver)]) =
          g.chronicle destination (g.chronicles destination t passes) (s, resolver) := by
        simp [Generator.chronicles]
      rw [later]
      exact agreesWith_iff_onRecord sound result (start.trans ended')
  · rw [start, ended'] at ended
    cases ended

/-! ## A file that stays behind -/

theorem runPass_of_allShort {s : Snapshot} (resolver : Resolver) {c : Chronicle}
    (sound : c.Sound g destination d) (built : s.Built)
    (short : AllShort g.settings destination (g.artifacts s)) :
    ∃ outcome t', g.runPass s destination resolver c.tree = .ok outcome t' ∧
      PassResult g s destination d resolver (c.tree.makeDirectories destination) t' outcome := by
  rcases runPass_ends resolver built sound.tidy with
    ⟨outcome, t', ended, result⟩ | ⟨long, -⟩
  · exact ⟨outcome, t', (runPass_made _ _ _ sound.tidy.root).trans ended, result⟩
  · exact absurd short long

theorem tree_of_runPass {s : Snapshot} {resolver : Resolver} {outcome : PassOutcome}
    (ended : g.runPass s destination resolver t = .ok outcome t') :
    (g.chronicles destination t [(s, resolver)]).tree = t' := by
  simp only [Generator.chronicles, List.foldl_cons, List.foldl_nil, Generator.chronicle, ended]

section Stays

variable {s₁ s₂ : Snapshot} {known : ImportPath → Bool}
  {a₁ a₂ : Artifact} {file : Location}

theorem written_first (resolver : Resolver) (starts : StartsEmpty t destination d) (built : s₁.Built)
    (short : AllShort g.settings destination (g.artifacts s₁))
    (found : latest g.settings.extension file (g.artifacts s₁) = some a₁) :
    ((g.chronicles destination t [(s₁, resolver)]).tree.makeDirectories destination).entries.get?
        (d ++ file) = some (.file (.ofText a₁.content)) := by
  have sound := sound_start (g := g) starts
  obtain ⟨outcome, t₁, ended, result⟩ := runPass_of_allShort resolver sound built short
  have tree : (g.chronicles destination t [(s₁, resolver)]).tree = t₁ := tree_of_runPass ended
  rw [tree, result.installed.tidy.made]
  obtain ⟨u, root, same, ⟨-, -, text⟩ | ⟨fresh, -, -⟩⟩ := result.installed.settled file a₁ found
  · exact text
  · -- nothing was there that could have been up to date
    obtain ⟨mem, rfl⟩ := of_latest found
    obtain ⟨name, direct, plain⟩ :=
      (liesIn_of_mem_artifacts mem).file g.settings.extension
    rw [direct] at fresh same
    rw [InstallPlan.upToDate, Bool.and_eq_true] at fresh
    have there := ((root.present_iff plain (by simp)).mp fresh.1).2
    rw [same] at there
    obtain ⟨entry, here⟩ := Option.isSome_iff_exists.mp there
    have nothing := mem_below_iff.mpr ⟨by simp, here⟩
    rw [starts.2] at nothing
    cases nothing

/-- What the first pass wrote can be read. -/
theorem read?_first (resolver : Resolver) (starts : StartsEmpty t destination d) (built : s₁.Built)
    (short : AllShort g.settings destination (g.artifacts s₁))
    (found : latest g.settings.extension file (g.artifacts s₁) = some a₁) :
    (g.chronicles destination t [(s₁, resolver)]).tree.read? (destination ++ file) =
      some (.ofText a₁.content) := by
  have text := written_first resolver starts built short found
  obtain ⟨outcome, t₁, ended, result⟩ :=
    runPass_of_allShort resolver (sound_start (g := g) starts) built short
  have tree : (g.chronicles destination t [(s₁, resolver)]).tree = t₁ := tree_of_runPass ended
  have tidy := result.installed.tidy
  rw [tree, tidy.made] at text
  obtain ⟨mem, here⟩ := of_latest found
  obtain ⟨name, direct, plain⟩ := (liesIn_of_mem_artifacts mem).file g.settings.extension
  rw [here] at direct
  subst direct
  obtain ⟨content, -, -, named⟩ := (tidy.below _ _ (by simp) text).of_concat
  rw [tree]
  exact (tidy.root.read?_eq_some_iff plain (by simp)).mpr ⟨named, text⟩

/-- What the first pass wrote stays if it reads as current for the second one. -/
theorem stays_second (resolver : Resolver) (starts : StartsEmpty t destination d) (built₁ : s₁.Built)
    (built₂ : s₂.Built) (short₁ : AllShort g.settings destination (g.artifacts s₁))
    (short₂ : AllShort g.settings destination (g.artifacts s₂))
    (found₁ : latest g.settings.extension file (g.artifacts s₁) = some a₁)
    (found₂ : latest g.settings.extension file (g.artifacts s₂) = some a₂)
    (named : (fileName? (destination ++ file)).bind extension? = some g.settings.extension)
    (current : summaryOf? known a₁.content = a₂.summary) :
    ∃ outcome t₂, g.runPass s₂ destination (.ofNames known)
          (g.chronicles destination t [(s₁, resolver)]).tree = .ok outcome t₂ ∧
      combine (g.artifacts s₂) = .ok outcome.combined ∧
      t₂.read? (destination ++ [reportFile]) = some (Stored.encode outcome.combined) ∧
      t₂.read? (destination ++ file) = some (.ofText a₁.content) := by
  have built : ∀ pass ∈ [(s₁, resolver)], pass.1.Built := by simpa using built₁
  have sound := sound_chronicles (g := g) starts built
  have text := written_first resolver starts built₁ short₁ found₁
  obtain ⟨outcome, t₂, ended, result⟩ :=
    runPass_of_allShort (.ofNames known) sound built₂ short₂
  refine ⟨outcome, t₂, ended, result.combined, result.report, ?_⟩
  obtain ⟨mem, here⟩ := of_latest found₁
  obtain ⟨name, direct, plain⟩ :=
    (liesIn_of_mem_artifacts mem).file g.settings.extension
  rw [here] at direct
  subst direct
  obtain ⟨content, -, -, short⟩ := (sound.tidy.below _ _ (by simp) text).of_concat
  obtain ⟨u, root, same, ⟨stale, -, -⟩ | ⟨-, -, kept⟩⟩ := result.installed.settled _ a₂ found₂
  · have fresh := InstallPlan.upToDate_of_text (p := tidyPlan g.settings destination (.ofNames known))
      root plain (by simp) short (same.trans text) named a₂.summary
    have clash := stale.symm.trans fresh
    simp [tidyPlan, passPlan, Resolver.ofNames, current] at clash
  · exact (result.installed.tidy.root.read?_eq_some_iff plain (by simp)).mpr
      ⟨short, kept.trans text⟩

end Stays

namespace Adoption

/-- A pass as it is made for a project without search paths. -/
def pass (parent : ImportPath) : Snapshot × Resolver :=
  (adoption parent, passResolver generator.settings.extension (adoption parent) [])

/-- The virtual module of the two parents. -/
def parentsVirtual : ImportPath := virtualPath generator.settings.nspace parents

def parentsFile : Location := artifactFile generator.settings.extension parentsVirtual

theorem startsEmpty : StartsEmpty ∅ ["out"] ["out"] := by
  constructor
  · rfl
  · rfl

theorem moduleList_adoption {parent : ImportPath} (h : parent = first ∨ parent = second) :
    (adoption parent).moduleList = [parentModule, childModuleOf parent true] := by
  rcases h with rfl | rfl
  · rfl
  · rfl

theorem twoModules_adoption {parent : ImportPath} (h : parent = first ∨ parent = second) :
    TwoModules (adoption parent) := .of_moduleList (moduleList_adoption h) rfl

/-- The modules that the second pass knows. -/
def knownSecond (m : ImportPath) : Bool :=
  decide (m ∈ SortedSet.ofList (adoption second).modules.keys)

/-- The artifact of the parents' module is what is in this file in the end. -/
theorem latest_parents {parent : ImportPath} (h : parent = first ∨ parent = second) {a : Artifact}
    (found : generator.artifact (adoption parent) parentModule = .ok a) :
    latest generator.settings.extension parentsFile (generator.artifacts (adoption parent)) =
      some a := by
  have mem : parentModule ∈ (adoption parent).moduleList := by simp [moduleList_adoption h]
  have top := (adoption_built parent h).latest_eq (twoModules_adoption h).distinct
    (mem_artifacts_iff.mpr ⟨parentModule, mem, found⟩)
  rwa [virtualPath_of_artifact found] at top

theorem not_defines_second {types : SortedSet String} :
    ¬ (adoption first).Defines generator.settings.genericQueryset parentModule
      (concreteAlias second) types := by
  rintro ⟨p, concrete, aliased, mem⟩
  have only : (Facts.ofConcrete (generator.context (adoption first)) parentModule
      (.ofList [(first, [childOf first]), (second, [])])).aliased = [(first, [childOf first])] := rfl
  rw [← mem_aliased_iff concreteTable_first, only, List.mem_singleton] at aliased
  cases aliased
  have others : ∀ d ∈ aliasDefinitions generator.settings.genericQueryset first [childOf first],
      d.1.text ≠ (concreteAlias second).text := by
    decide +kernel
  exact others _ mem rfl

/-- The text for the first parent reads as current for the second one, but it does not define the
alias of the second one. -/
theorem texts : ∃ a₁ a₂,
    latest generator.settings.extension parentsFile (generator.artifacts (adoption first)) =
        some a₁ ∧
      latest generator.settings.extension parentsFile (generator.artifacts (adoption second)) =
        some a₂ ∧
      summaryOf? knownSecond a₁.content = a₂.summary ∧
      ¬ DefinesAlias a₁.content (concreteAlias second) := by
  obtain ⟨a₁, a₂, found₁, found₂, summaries, -⟩ := adoption_artifacts
  have known : knownSecond parentModule.path = true := rfl
  refine ⟨a₁, a₂, latest_parents (.inl rfl) found₁, latest_parents (.inr rfl) found₂, ?_, ?_⟩
  · exact (summaryOf?_artifact MarkerPolicy.withinLine_content found₁ known).trans summaries
  · rw [definesAlias_artifact_iff rfl MarkerPolicy.withinLine_content found₁]
    rintro ⟨types, defines⟩
    exact not_defines_second defines

/-- What the second pass stores binds the second parent, and it is not too long. -/
theorem report_second {c : Combined}
    (h : combine (generator.artifacts (adoption second)) = .ok c) :
    c.report.Binds .concreteAliases second (parentsVirtual.child (concreteAlias second)) ∧
      Stored.Countable (Stored.encode c) := by
  have closed : (combine (generator.artifacts (adoption second))).toOption.all (fun c =>
      decide (c.report.concreteAliases.get? second =
          some (parentsVirtual.child (concreteAlias second)) ∧
        (Stored.encodeReport c.report).length < 2 ^ 63)) = true := by
    decide +kernel
  rw [h] at closed
  obtain ⟨binds, small⟩ := of_decide_eq_true closed
  exact ⟨binds, Stored.countable_encode (version_of_combine h) small⟩

theorem second_pass :
    ∃ outcome t₂, generator.runPass (pass second).1 ["out"] (pass second).2
          (generator.chronicles ["out"] ∅ [pass first]).tree = .ok outcome t₂ ∧
      Stored.Countable (Stored.encode outcome.combined) ∧
      loadReport t₂ ["out"] = some outcome.combined ∧
      ¬ outcome.combined.AgreesWith generator.settings.extension ["out"] t₂ := by
  obtain ⟨a₁, a₂, found₁, found₂, current, undefined⟩ := texts
  have named : (fileName? (["out"] ++ parentsFile)).bind extension? =
      some generator.settings.extension := by
    decide +kernel
  obtain ⟨outcome, t₂, ended, combined, report, text⟩ :=
    stays_second (pass first).2 startsEmpty (adoption_built first (.inl rfl))
      (adoption_built second (.inr rfl)) ((twoModules_adoption (.inl rfl)).allShort rfl)
      ((twoModules_adoption (.inr rfl)).allShort rfl) found₁ found₂ named current
  obtain ⟨binds, countable⟩ := report_second combined
  refine ⟨outcome, t₂, ended, countable, ?_, fun agrees => ?_⟩
  · rw [loadReport, report, Option.bind_some, Stored.decode_encode countable]
  · obtain ⟨virtual, name, same, text', read, defines⟩ :=
      agrees _ second _ (by decide) binds
    obtain ⟨rfl, rfl⟩ := ImportPath.child_inj same
    have texts := text.symm.trans read
    rw [← ofText_inj (Option.some.inj texts)] at defines
    exact undefined defines

/-- After the child has changed its parent, the stored report binds an alias of the second parent
that no line of the file defines. -/
theorem adoption_rerun_disagrees :
    StartsEmpty ∅ ["out"] ["out"] ∧ ((adoption first).Built ∧ (adoption second).Built) ∧
      ∃ outcome t₂, generator.runPass (pass second).1 ["out"] (pass second).2
            (generator.chronicles ["out"] ∅ [pass first]).tree = .ok outcome t₂ ∧
        ∃ c, loadReport t₂ ["out"] = some c ∧
          ¬ c.AgreesWith generator.settings.extension ["out"] t₂ := by
  obtain ⟨outcome, t₂, ended, -, loaded, disagrees⟩ := second_pass
  exact ⟨startsEmpty, ⟨adoption_built first (.inl rfl), adoption_built second (.inr rfl)⟩, outcome,
    t₂, ended, outcome.combined, loaded, disagrees⟩

/-- The texts on record after both passes do not define all aliases that the second one binds. -/
theorem adoption_rerun_not_onRecord :
    ∃ outcome t₂, generator.runPass (pass second).1 ["out"] (pass second).2
          (generator.chronicles ["out"] ∅ [pass first]).tree = .ok outcome t₂ ∧
      ¬ outcome.combined.OnRecord generator.settings.extension
        (generator.chronicles ["out"] ∅ [pass first, pass second]).record := by
  obtain ⟨outcome, t₂, ended, countable, loaded, disagrees⟩ := second_pass
  have built : ∀ p ∈ [pass first], p.1.Built := by
    intro p mem
    rw [List.mem_singleton.mp mem]
    exact adoption_built first (.inl rfl)
  obtain ⟨c, found, agrees_iff⟩ := loadReport_agrees_iff startsEmpty built
    (adoption_built second (.inr rfl)) ended countable
  rw [loaded] at found
  cases found
  exact ⟨outcome, t₂, ended, fun recorded => disagrees (agrees_iff.mpr recorded)⟩

end Adoption

end VirtualModules
