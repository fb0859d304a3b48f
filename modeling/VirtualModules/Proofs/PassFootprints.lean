import VirtualModules.Proofs.InstallFootprints
import VirtualModules.Proofs.SummaryKeys

/-!
# What a pass can change

A pass on a tree without links leaves alone whatever it finds outside its area (`PassArea`): what
lies below the namespace's directory, the report, and the scratch directories of earlier passes. So
it does however it ends, and wherever the destination leads (`runPass_footprint`).

Unless the way to the destination leads through what lies in the namespace's directory, nothing else
is new than directories on the way and what is in the namespace, and if the pass goes through, no
scratch directory is left whose names are short enough to be followed. One with longer names stays,
though the pass goes through (`Adoption.remnant_stays`).
-/

namespace VirtualModules

open FileTree DiskAction
open Location (resolve Below OnWay)

variable {t t' : FileTree} {destination : Location}

/-! ## Sweeping scratch directories -/

/-- A scratch directory that was left in the destination, or something below it. -/
def InLitter (t : FileTree) (destination l : Location) : Prop :=
  ∃ name, Litter t destination (resolve destination) name ∧ resolve destination ++ [name] <+: l

/-- Nothing is new, and what is gone was litter. -/
structure LitterRemoved (destination : Location) (t t' : FileTree) : Prop where
  linkless : t'.Linkless
  each : ∀ l, t'.entries.get? l = t.entries.get? l ∨
    (t'.entries.get? l = none ∧ InLitter t destination l)

namespace LitterRemoved

theorem less (removed : LitterRemoved destination t t') {l : Location} {entry : Entry}
    (found : t'.entries.get? l = some entry) : t.entries.get? l = some entry := by
  rcases removed.each l with same | ⟨gone, -⟩
  · rw [← same, found]
  · cases gone.symm.trans found

theorem trans {t'' : FileTree} (first : LitterRemoved destination t t')
    (second : LitterRemoved destination t' t'') :
    LitterRemoved destination t t'' where
  linkless := second.linkless
  each l := by
    rcases second.each l with same | ⟨gone, name, ⟨scratch, short, found⟩, below⟩
    · rw [same]
      exact first.each l
    · exact .inr ⟨gone, name, ⟨scratch, short, first.less found⟩, below⟩

/-- What still is a directory was one before. -/
theorem isDirectory (removed : LitterRemoved destination t t') (tree : t.Linkless)
    {names : Location} (there : t'.isDirectory names = true) : t.isDirectory names = true :=
  removed.linkless.isDirectory_of_kept tree there fun _ _ => .imp_right removed.less

end LitterRemoved

theorem sweepScratch_cons_eq (destination : Location) (name : String) (rest : List String)
    (t : FileTree) :
    sweepScratch destination (name :: rest) t =
      if isScratchName name && t.isDirectory (destination ++ [name]) then
        (DiskAction.removeTree (destination ++ [name]) >>= fun _ => sweepScratch destination rest) t
      else sweepScratch destination rest t := by
  simp only [sweepScratch]
  rw [get_bind]
  split <;> rfl

section Sweep

variable {name : String} (tree : t.Linkless) (scratch : isScratchName name = true)

include tree scratch

/-- Removing a scratch directory removes what it holds. -/
theorem litterRemoved_of_removeTree (there : t.isDirectory (destination ++ [name]) = true)
    (removed : DiskAction.removeTree (destination ++ [name]) t = .ok () t') :
    LitterRemoved destination t t' ∧
      t'.entries.get? (resolve destination ++ [name]) = none := by
  have plain := plain_scratch scratch
  have place := Location.resolve_append_plain destination plain
  obtain ⟨found, holds⟩ := tree.isDirectory_iff.mp there
  have litter : Litter t destination (resolve destination) name :=
    ⟨scratch, short_of_follow (.inl found) plain, (place ▸ holds).resolve_left (by simp)⟩
  have pruned : t' = t.prune (resolve destination ++ [name]) := by
    have removed := of_change_eq_ok removed
    unfold FileTree.removeTree? at removed
    split at removed
    · cases removed
    · cases removed
    · next found =>
      cases removed
      rw [(tree.of_findLast? found).1, place]
  subst pruned
  have modifies : ModifiesOnly (fun _ => True) (fun _ => False) t
      (t.prune (resolve destination ++ [name])) := .of_prune tree fun _ _ => trivial
  refine ⟨⟨modifies.linkless, fun l => ?_⟩, by rw [get?_prune, if_pos List.prefix_rfl]⟩
  rw [get?_prune]
  split
  · next below => exact .inr ⟨rfl, name, litter, below⟩
  · exact .inl rfl

end Sweep

/-- Sweeping removes scratch directories with what they hold, and nothing else. -/
theorem sweepScratch_removed (tree : t.Linkless) (names : List String) :
    LitterRemoved destination t ((sweepScratch destination names).after t) := by
  have unchanged {t : FileTree} (tree : t.Linkless) : LitterRemoved destination t t :=
    ⟨tree, fun _ => .inl rfl⟩
  induction names generalizing t with
  | nil => exact unchanged tree
  | cons name rest ih =>
    have step := sweepScratch_cons_eq destination name rest t
    split at step
    · next left =>
      obtain ⟨scratch, there⟩ := Bool.and_eq_true_iff.mp left
      rw [after_congr step]
      refine after_bind ?_ fun _ t₁ _ removed => removed.trans (ih removed.linkless)
      cases removing : DiskAction.removeTree (destination ++ [name]) t with
      | ok _ t₁ =>
        rw [after_of_ok removing]
        exact (litterRemoved_of_removeTree tree scratch there removing).1
      | error e t₁ =>
        rw [after_of_error removing, eq_of_change_eq_error removing]
        exact unchanged tree
    · rw [after_congr step]
      exact ih tree

theorem litterRemoved_of_ok (tree : t.Linkless) {names : List String}
    (ended : sweepScratch destination names t = .ok () t') :
    LitterRemoved destination t t' := by
  rw [← after_of_ok ended]
  exact sweepScratch_removed tree names

/-- Sweeping that went through has left no directory under a scratch name. -/
theorem not_isDirectory_of_sweepScratch (tree : t.Linkless) {names : List String}
    (ended : sweepScratch destination names t = .ok () t') {name : String} (mem : name ∈ names)
    (scratch : isScratchName name = true) : ¬ t'.isDirectory (destination ++ [name]) = true := by
  induction names generalizing t with
  | nil => cases mem
  | cons first rest ih =>
    intro there
    have swept := litterRemoved_of_ok tree ended
    rw [sweepScratch_cons_eq] at ended
    split at ended
    · next left =>
      obtain ⟨scratch_first, there_first⟩ := Bool.and_eq_true_iff.mp left
      obtain ⟨⟨⟩, t₁, removing, further⟩ := of_bind_eq_ok ended
      obtain ⟨removed, gone⟩ :=
        litterRemoved_of_removeTree tree scratch_first there_first removing
      rcases List.mem_cons.mp mem with rfl | later
      · -- what is gone by now does not come back
        have before := (litterRemoved_of_ok removed.linkless further).isDirectory
          removed.linkless there
        have holds := (removed.linkless.isDirectory_iff.mp before).2
        rw [Location.resolve_append_plain destination (plain_scratch scratch)] at holds
        cases gone.symm.trans (holds.resolve_left (by simp))
      · exact ih removed.linkless further later there
    · next not_left =>
      rcases List.mem_cons.mp mem with rfl | later
      · exact not_left (by rw [scratch, swept.isDirectory tree there]; rfl)
      · exact ih tree ended later there

/-! ## Storing the report -/

theorem saveReport_writesOnly (destination : Location) (combined : Combined) :
    WritesOnly (· = resolve destination ++ [reportFile]) (OnWay destination)
      (saveReport destination combined) := by
  unfold saveReport
  refine (WritesOnly.makeDirectories fun l on_way => ?_).bind fun _ _ _ _ => .write ?_
  · rw [parent_reportFile] at on_way
    exact .inl (on_way.of_prefix (Location.prefix_of_dropBlank destination))
  · exact Location.resolve_append_plain destination plain_reportFile

/-! ## The pass -/

/-- What a pass may change: what lies below the namespace's directory, the report, and the litter of
earlier passes. -/
def PassArea (settings : Settings) (destination : Location) (t : FileTree) (l : Location) : Prop :=
  Below (resolve destination ++ settings.nspace.segments) l ∨
    l = resolve destination ++ [reportFile] ∨ InLitter t destination l

/-- What may be new after a pass: things in the namespace, the report, and directories on the way to
the namespace's directory. -/
def PassNew (settings : Settings) (destination : Location) (l : Location) (entry : Entry) : Prop :=
  Below (resolve destination ++ settings.nspace.segments) l ∨
    l = resolve destination ++ [reportFile] ∨
    (OnWay (destination ++ settings.nspace.segments) l ∧ entry = .directory)

section Pass

variable {g : Generator} {s : Snapshot} {resolver : Resolver}

theorem artifacts_lie (g : Generator) (s : Snapshot) :
    ∀ a ∈ g.artifacts s, a.LiesIn g.settings.nspace := fun _ mem => liesIn_of_mem_artifacts mem

/-- What every step of a pass keeps, the pass keeps, however it ends. -/
theorem runPass_after {P : FileTree → Prop} (start : P t)
    (make : ∀ t, P t → P (t.makeDirectories destination))
    (sweep : ∀ t names, P t → P ((sweepScratch destination names).after t))
    (install : ∀ t, P t →
      P ((installArtifacts g.settings (g.artifacts s) destination resolver).after t))
    (save : ∀ t combined, P t → P ((saveReport destination combined).after t)) :
    P ((g.runPass s destination resolver).after t) := by
  have installed : P ((g.installPass s destination resolver).after t) := by
    have made : P ((DiskAction.makeDirectories destination).after t) := by
      rw [after_makeDirectories]
      exact make t start
    refine after_bind made fun _ t₁ _ here => ?_
    rw [after_get_bind]
    exact after_bind (sweep t₁ _ here) fun _ t₂ _ here => install t₂ here
  rw [runPass_eq]
  refine after_bind (by rwa [after_mapError]) fun _ t₃ _ here => ?_
  cases combine (g.artifacts s) with
  | error conflict => exact here
  | ok combined =>
    have saved := save t₃ combined here
    exact after_bind (by rwa [after_mapError]) fun _ _ _ here => here

/-- What a pass finds outside its area, it leaves. -/
theorem runPass_kept (g : Generator) (s : Snapshot) (destination : Location) (resolver : Resolver)
    (tree : t.Linkless) {l : Location} {entry : Entry} (found : t.entries.get? l = some entry)
    (outside : ¬ PassArea g.settings destination t l) :
    ((g.runPass s destination resolver).after t).entries.get? l = some entry := by
  refine (runPass_after (P := fun u => u.Linkless ∧ u.entries.get? l = some entry) ⟨tree, found⟩
    ?_ ?_ ?_ ?_).2
  · rintro u ⟨tree, here⟩
    have made : ModifiesOnly (fun _ => False) (OnWay destination) u _ :=
      tree.makeDirectories destination
    exact ⟨made.linkless, made.kept here id⟩
  · rintro u names ⟨tree, here⟩
    have removed : LitterRemoved destination u _ := sweepScratch_removed tree names
    refine ⟨removed.linkless, (removed.each l).elim (·.trans here) ?_⟩
    rintro ⟨-, name, ⟨scratch, short, directory⟩, rest, rfl⟩
    refine absurd (.inr (.inr ⟨name, ⟨scratch, short, ?_⟩, List.prefix_append _ rest⟩)) outside
    by_cases last : rest = []
    · rw [last, List.append_nil] at found here
      rw [found, ← here, directory]
    · exact (holdsDirectory_of_get? last found).resolve_left (by simp)
  · rintro u ⟨tree, here⟩
    have modifies := installArtifacts_modifies (artifacts_lie g s) destination resolver tree
    refine ⟨modifies.linkless, modifies.kept here ?_⟩
    rintro (below | ⟨absent, -⟩)
    · exact outside (.inl below)
    · cases absent.symm.trans here
  · rintro u combined ⟨tree, here⟩
    have saved := saveReport_writesOnly destination combined u tree
    exact ⟨saved.linkless, saved.kept here fun report => outside (.inr (.inl report))⟩

/-- What is there after a pass was there before, or is what may be new, or comes from installing. -/
theorem runPass_new (tree : t.Linkless) {extra : Location → Prop}
    (installs : ∀ u, u.Linkless →
      ModifiesOnly (fun l => Below (resolve destination ++ g.settings.nspace.segments) l ∨ extra l)
        (OnWay (destination ++ g.settings.nspace.segments)) u
        ((installArtifacts g.settings (g.artifacts s) destination resolver).after u))
    {l : Location} {entry : Entry}
    (found : ((g.runPass s destination resolver).after t).entries.get? l = some entry) :
    t.entries.get? l = some entry ∨ PassNew g.settings destination l entry ∨ extra l := by
  refine (runPass_after (P := fun u => u.Linkless ∧ ∀ entry, u.entries.get? l = some entry →
    t.entries.get? l = some entry ∨ PassNew g.settings destination l entry ∨ extra l)
    ⟨tree, fun _ => .inl⟩ ?_ ?_ ?_ ?_).2 entry found
  · rintro u ⟨tree, before⟩
    have made : ModifiesOnly (fun _ => False) (OnWay destination) u _ :=
      tree.makeDirectories destination
    refine ⟨made.linkless, fun entry found => ?_⟩
    rcases made.of_found found with there | none | ⟨on_way, directory⟩
    · exact before entry there
    · exact none.elim
    · exact .inr (.inl (.inr (.inr ⟨on_way.append _, directory⟩)))
  · rintro u names ⟨tree, before⟩
    have removed : LitterRemoved destination u _ := sweepScratch_removed tree names
    exact ⟨removed.linkless, fun entry found => before entry (removed.less found)⟩
  · rintro u ⟨tree, before⟩
    have installed := installs u tree
    refine ⟨installed.linkless, fun entry found => ?_⟩
    rcases installed.of_found found with there | (below | other) | on_way
    · exact before entry there
    · exact .inr (.inl (.inl below))
    · exact .inr (.inr other)
    · exact .inr (.inl (.inr (.inr on_way)))
  · rintro u combined ⟨tree, before⟩
    have saved := saveReport_writesOnly destination combined u tree
    refine ⟨saved.linkless, fun entry found => ?_⟩
    rcases saved.of_found found with there | report | ⟨on_way, directory⟩
    · exact before entry there
    · exact .inr (.inl (.inr (.inl report)))
    · exact .inr (.inl (.inr (.inr ⟨on_way.append _, directory⟩)))

/-- The steps of a pass that went through. -/
theorem steps_of_runPass_ok {outcome : PassOutcome}
    (ended : g.runPass s destination resolver t = .ok outcome t') :
    ∃ t₁ t₂ t₃, t₁ = t.makeDirectories destination ∧ t₁.isDirectory destination = true ∧
      sweepScratch destination (namesIn t₁ destination) t₁ = .ok () t₂ ∧
      installArtifacts g.settings (g.artifacts s) destination resolver t₂ =
        .ok outcome.install t₃ ∧
      saveReport destination outcome.combined t₃ = .ok () t' := by
  obtain ⟨-, -, t₃, installed, saved⟩ := of_runPass_ok ended
  obtain ⟨⟨⟩, t₁, made, rest⟩ := of_bind_eq_ok installed
  rw [get_bind] at rest
  obtain ⟨⟨⟩, t₂, swept, installed⟩ := of_bind_eq_ok rest
  have there : (t.makeDirectories destination).isDirectory destination = true := by
    by_contra missing
    cases made.symm.trans (makeDirectories_of_not_isDirectory missing)
  cases made.symm.trans (DiskAction.makeDirectories_of_isDirectory there)
  exact ⟨_, t₂, t₃, rfl, there, swept, installed, saved⟩

/-- A scratch directory in the destination does not lie in the namespace, and is not the report. -/
theorem scratch_outside {d : Location} (nspace : ImportPath) {name : String}
    (scratch : isScratchName name = true) :
    ¬ (Below (d ++ nspace.segments) (d ++ [name]) ∨ d ++ [name] = d ++ [reportFile]) := by
  rintro (⟨q, -, here⟩ | here)
  · rw [List.append_assoc] at here
    exact head_ne_of_dot (dot_mem_of_isScratchName scratch) q
      ⟨[], by rw [List.append_nil, List.append_cancel_left here]⟩
  · obtain rfl : name = reportFile := by simpa using here
    exact absurd scratch (by decide)

/-- The way to the namespace's directory enters no scratch directory in the destination, for the way
to the destination is there, and names with a dot do not follow. -/
theorem not_onWay_scratch (tree : t.Linkless) (there : t.isDirectory destination = true)
    (nspace : ImportPath) {name : String} (scratch : isScratchName name = true)
    (absent : t.entries.get? (resolve destination ++ [name]) = none) :
    ¬ OnWay (destination ++ nspace.segments) (resolve destination ++ [name]) := by
  intro on_way
  rcases on_way.of_append_plain (plain_segments nspace) with first | ⟨r, -, way, here⟩
  · cases absent.symm.trans ((tree.holdsDirectory_on_way there first).resolve_left (by simp))
  · obtain rfl := List.append_cancel_left here
    exact head_ne_of_dot (dot_mem_of_isScratchName scratch) [] (by rwa [List.append_nil])

/-- Off the namespace, installing and storing the report change what lies below the namespace's
directory and the report, and make directories on the way. -/
theorem modifiesOnly_of_installed (tree : t.Linkless)
    (off : OffNamespace destination g.settings.nspace) {outcome : Outcome} {combined : Combined}
    {t₁ : FileTree} (installed :
      installArtifacts g.settings (g.artifacts s) destination resolver t = .ok outcome t₁)
    (saved : saveReport destination combined t₁ = .ok () t') :
    ModifiesOnly (fun l => Below (resolve destination ++ g.settings.nspace.segments) l ∨
        l = resolve destination ++ [reportFile])
      (OnWay (destination ++ g.settings.nspace.segments)) t t' := by
  have installing := installArtifacts_modifiesOnly (artifacts_lie g s) resolver tree off
  rw [after_of_ok installed] at installing
  have saving := saveReport_writesOnly destination combined t₁ installing.linkless
  rw [after_of_ok saved] at saving
  refine (installing.mono (fun l => .inl) fun l => .inl).trans (saving.mono (fun l => .inr) ?_)
  exact fun l on_way => .inl (on_way.append _)

/-- Off the namespace, a pass that went through has left no litter. -/
theorem runPass_clear (tree : t.Linkless) (off : OffNamespace destination g.settings.nspace)
    {outcome : PassOutcome} (ended : g.runPass s destination resolver t = .ok outcome t') :
    Clear t' destination (resolve destination) := by
  rintro name ⟨scratch, short, found⟩
  obtain ⟨t₁, t₂, t₃, rfl, there, swept, installed, saved⟩ := steps_of_runPass_ok ended
  have made : ModifiesOnly (fun _ => False) (OnWay destination) t _ :=
    tree.makeDirectories destination
  have tree₁ := made.linkless
  have removed := litterRemoved_of_ok tree₁ swept
  have there₂ := isDirectory_of_installArtifacts_ok removed.linkless installed
  have modifies := modifiesOnly_of_installed removed.linkless off installed saved
  -- the steps after the sweep enter no directory of this name, so it was left by the sweep
  have before : t₂.entries.get? (resolve destination ++ [name]) = some .directory := by
    rcases modifies.elsewhere _ (scratch_outside _ scratch) with same | ⟨absent, on_way, -⟩
    · rw [← same, found]
    · exact absurd on_way
        (not_onWay_scratch removed.linkless there₂ g.settings.nspace scratch absent)
  have listed : name ∈ namesIn (t.makeDirectories destination) destination := by
    obtain ⟨leads, directory⟩ := tree₁.isDirectory_iff.mp there
    rw [namesIn, find?_of_holdsDirectory leads directory, mem_children_iff, removed.less before]
    rfl
  exact not_isDirectory_of_sweepScratch tree₁ swept listed scratch
    (removed.linkless.isDirectory_concat there₂ (plain_scratch scratch) short before)

/-- A pass leaves alone what it finds outside its area, however it ends. What is new is in the
namespace, the report or a directory on the way, or lies under the name of a scratch directory. The
latter is so only if the way to the destination leads through what lies in the namespace's
directory. Otherwise there is no litter after a pass that goes through. -/
theorem runPass_footprint (g : Generator) (s : Snapshot) (destination : Location)
    (resolver : Resolver) (tree : t.Linkless) :
    (∀ l entry, t.entries.get? l = some entry → ¬ PassArea g.settings destination t l →
      ((g.runPass s destination resolver).after t).entries.get? l = some entry) ∧
    (∀ l entry, t.entries.get? l = none →
      ((g.runPass s destination resolver).after t).entries.get? l = some entry →
      PassNew g.settings destination l entry ∨
        (¬ OffNamespace destination g.settings.nspace ∧ UnderScratch (resolve destination) l)) ∧
    (OffNamespace destination g.settings.nspace →
      ∀ outcome t', g.runPass s destination resolver t = .ok outcome t' →
        Clear t' destination (resolve destination)) := by
  refine ⟨fun l entry found outside => runPass_kept g s destination resolver tree found outside,
    fun l entry absent found => ?_, fun off outcome t' => runPass_clear tree off⟩
  have before : t.entries.get? l ≠ some entry := by
    simp [absent]
  by_cases off : OffNamespace destination g.settings.nspace
  · have installs : ∀ u, u.Linkless → ModifiesOnly
        (fun l => Below (resolve destination ++ g.settings.nspace.segments) l ∨ False)
        (OnWay (destination ++ g.settings.nspace.segments)) u
        ((installArtifacts g.settings (g.artifacts s) destination resolver).after u) :=
      fun u tree => (installArtifacts_modifiesOnly (artifacts_lie g s) resolver tree off).mono
        (fun _ => .inl) fun _ => .inl
    have new := (runPass_new tree installs found).resolve_left before
    exact .inl (new.resolve_right id)
  · have installs : ∀ u, u.Linkless → ModifiesOnly
        (fun l => Below (resolve destination ++ g.settings.nspace.segments) l ∨
          UnderScratch (resolve destination) l)
        (OnWay (destination ++ g.settings.nspace.segments)) u
        ((installArtifacts g.settings (g.artifacts s) destination resolver).after u) :=
      fun u tree => (installArtifacts_modifies (artifacts_lie g s) destination resolver tree).mono
        (fun _ => .imp_right And.right) fun _ => .inl
    have new := (runPass_new tree installs found).resolve_left before
    exact new.imp_right fun scratch => ⟨off, scratch⟩

/-- Under names that are too long to be followed, a scratch directory is no litter, and stays. -/
theorem runPass_keeps_long (g : Generator) (s : Snapshot) (resolver : Resolver) (tree : t.Linkless)
    {name : String} (scratch : isScratchName name = true) (long : ¬ Short destination [name])
    (found : t.entries.get? (resolve destination ++ [name]) = some .directory) :
    ((g.runPass s destination resolver).after t).entries.get? (resolve destination ++ [name]) =
      some .directory := by
  refine runPass_kept g s destination resolver tree found ?_
  rintro (below | report | ⟨other, litter, below⟩)
  · exact scratch_outside _ scratch (.inl below)
  · exact scratch_outside g.settings.nspace scratch (.inr report)
  · obtain rfl := prefix_singleton_iff.mp below
    exact long litter.2.1

end Pass

namespace Adoption

/-- The destination, by way of a directory that is not there. -/
def detour : Location := ["sub", "..", "out"]

/-- A destination with notes of the user's and with what an earlier pass left. -/
def notesTree : FileTree :=
  (((∅ : FileTree).makeDirectories ["out", ".vdep-scratch-0"]).write? ["out", "notes.txt"]
    (.ofText "mine")).getD ∅

/-- The notes stay and the litter goes, and the directory on the way is new. -/
theorem notes_untouched : notesTree.Linkless ∧ OffNamespace detour generator.settings.nspace ∧
    ∃ outcome t',
      generator.runPass (adoption first) detour
        (passResolver generator.settings.extension (adoption first) []) notesTree =
          .ok outcome t' ∧
      t'.entries.get? ["out", "notes.txt"] = some (.file (.ofText "mine")) ∧
      t'.entries.get? ["out", ".vdep-scratch-0"] ≠ some .directory ∧
      ∀ l entry, notesTree.entries.get? l = none → t'.entries.get? l = some entry →
        PassNew generator.settings detour l entry := by
  have linkless : notesTree.Linkless := by decide +kernel
  have off : OffNamespace detour generator.settings.nspace := by decide +kernel
  have ran : (generator.runPass (adoption first) detour
      (passResolver generator.settings.extension (adoption first) [])).checks notesTree
        (fun _ _ => true) = true := by
    decide +kernel
  obtain ⟨outcome, t', ended, -⟩ := exists_of_checks ran
  obtain ⟨kept, new, clear⟩ := runPass_footprint generator (adoption first) detour
    (passResolver generator.settings.extension (adoption first) []) linkless
  rw [after_of_ok ended] at kept new
  refine ⟨linkless, off, outcome, t', ended, kept _ _ (by decide +kernel) ?_, fun left => ?_,
    fun l entry absent found => (new l entry absent found).resolve_right fun inward => inward.1 off⟩
  · rintro (below | report | ⟨name, ⟨scratch, -⟩, below⟩)
    · exact absurd below (by decide +kernel)
    · exact absurd report (by decide +kernel)
    · rw [show resolve detour = ["out"] from rfl] at below
      obtain rfl : name = "notes.txt" := by simpa using below
      exact absurd scratch (by decide)
  · exact clear off outcome t' ended ".vdep-scratch-0"
      ⟨by decide +kernel, by decide +kernel, left⟩

/-- By way of a directory that the pass sweeps, its own scratch directory is left. -/
example : (generator.runPass (.empty []) ["out", "__virtual_deps__", "sub", "..", ".."]
    (passResolver generator.settings.extension (.empty []) [])).checks
      ((∅ : FileTree).makeDirectories ["out", "__virtual_deps__", "sub"])
      (fun _ t => t.entries.get? ["out", ".vdep-scratch-0"] == some .directory) = true := by
  decide +kernel

/-- A directory by way of which its content is out of reach if it has a long name. -/
def dottedWay : Location := "d" :: List.replicate 1925 "."

/-- A name for a scratch directory, as long as a name can be. -/
def remnant : String := scratchStart ++ String.ofList (List.replicate 241 'a')

def remnantTree : FileTree :=
  (((∅ : FileTree).put? ["d"] .directory).bind (·.put? ["d", remnant] .directory)).getD ∅

set_option maxRecDepth 10000 in
/-- A scratch directory with a long name is left by a pass that goes through. -/
theorem remnant_stays : remnantTree.Linkless ∧ isScratchName remnant = true ∧
    ∃ outcome t',
      generator.runPass (.empty []) dottedWay
        (passResolver generator.settings.extension (.empty []) []) remnantTree =
          .ok outcome t' ∧
      t'.entries.get? (resolve dottedWay ++ [remnant]) = some .directory := by
  have linkless : remnantTree.Linkless := by decide +kernel
  have scratch : isScratchName remnant = true := isScratchName_append _
  have long : ¬ Short dottedWay [remnant] := by
    rintro ⟨usable, -⟩
    have bytes := (Bool.and_eq_true_iff.mp usable).2
    exact absurd bytes (by decide +kernel)
  have ran : (generator.runPass (.empty []) dottedWay
      (passResolver generator.settings.extension (.empty []) [])).checks remnantTree
        (fun _ _ => true) = true := by
    decide +kernel
  obtain ⟨outcome, t', ended, -⟩ := exists_of_checks ran
  have left := runPass_keeps_long generator (.empty [])
    (passResolver generator.settings.extension (.empty []) []) linkless scratch long
    (by decide +kernel)
  rw [after_of_ok ended] at left
  exact ⟨linkless, scratch, outcome, t', ended, left⟩

end Adoption

end VirtualModules
