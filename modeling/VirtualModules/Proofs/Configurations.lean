import Mathlib.Data.Set.List
import VirtualModules.CommandLine.Project
import VirtualModules.Proofs.DottedNames
import VirtualModules.Proofs.Results

/-!
# Valid configurations

What resolving gives is told by the texts of the configuration: every path has the text in its
place, and every directory is taken from the root (`Config.Describes`, `Config.resolve_eq_ok_iff`).
It gives something exactly if the extension is one and the texts are those of paths
(`Config.sound_iff`), whatever the root is. So a configuration that was found valid from one root
resolves from every other (`Config.validate_resolve`), and a project is not refused after its file
was read (`CommandLine.Project.load_of_ofText`).
-/

namespace VirtualModules

/-- A text that is an import path. -/
def IsPathText (s : String) : Prop := ∃ p : ImportPath, p.text = s

theorem FilePath.join_of_isAbsolute {p : FilePath} (h : p.isAbsolute = true) (root : FilePath) :
    root.join p = p := by
  rw [join, if_pos h]

/-- What does not depend on the directories of a project is the same. -/
def ResolvedConfig.SameButDirectories (a b : ResolvedConfig) : Prop :=
  b = { a with
    destination := b.destination
    settings := { a.settings with searchPaths := b.settings.searchPaths } }

namespace Config

/-- The project has a name, the extension is a non-empty run of ASCII digits and letters, and every
text in the place of a path is one. The settings module may be left out or empty. -/
structure Sound (c : Config) : Prop where
  name : c.name ≠ ""
  extension_nonempty : c.extension ≠ ""
  extension : ∀ ch ∈ c.extension.toList, IsAsciiAlphanumeric ch
  nspace : IsPathText c.nspace
  genericQueryset : IsPathText c.genericQueryset
  engineNamespaces : ∀ s ∈ c.engineNamespaces, IsPathText s
  settingsAccessors : ∀ s ∈ c.settingsAccessors, IsPathText s
  settingsModule : ∀ s, c.settingsModule = some s → s = "" ∨ IsPathText s

/-- The result has what the configuration says: the same texts for paths, an empty settings module
for none, and directories taken from the root. -/
structure Describes (c : Config) (root : FilePath) (rc : ResolvedConfig) : Prop where
  name : rc.name = c.name
  destination : rc.destination = root.join ⟨c.destination⟩
  nspace : rc.settings.nspace.text = c.nspace
  extension : rc.settings.extension = c.extension
  markerMode : rc.settings.markerMode = c.markerMode
  genericQueryset : rc.settings.genericQueryset.text = c.genericQueryset
  priority : rc.settings.priority = c.priority
  engineNamespaces : rc.settings.engineNamespaces.map (·.text) = c.engineNamespaces
  settingsModule : rc.settings.settingsModule.map (·.text) = c.settingsModule.filter (· ≠ "")
  settingsAccessors : rc.settings.settingsAccessors.map (·.text) = c.settingsAccessors
  searchPaths : rc.settings.searchPaths = c.searchPaths.map fun s => root.join ⟨s⟩

/-- Absolute directories are as they are written. -/
structure KeepsAbsolute (c : Config) (rc : ResolvedConfig) : Prop where
  destination : FilePath.isAbsolute ⟨c.destination⟩ = true → rc.destination = ⟨c.destination⟩
  searchPaths : List.Forall₂ (fun s path => FilePath.isAbsolute ⟨s⟩ = true → path = ⟨s⟩)
    c.searchPaths rc.settings.searchPaths

variable {c : Config} {root : FilePath} {rc : ResolvedConfig}

/-! ## Texts -/

theorem isExtension_iff {s : String} :
    isExtension s = true ↔ s ≠ "" ∧ ∀ ch ∈ s.toList, IsAsciiAlphanumeric ch := by
  simp [isExtension, isAlphanum_iff]

theorem readPath_eq_ok_iff {field : PathField} {s : String} {p : ImportPath} :
    readPath field s = .ok p ↔ p.text = s := by
  rw [← ImportPath.ofString_eq_ok_iff, readPath]
  cases ImportPath.ofString s with
  | error e => simp [Except.mapError]
  | ok q => simp [Except.mapError]

theorem mapM_readPath_eq_ok_iff {field : PathField} {l : List String} {ps : List ImportPath} :
    l.mapM (readPath field) = .ok ps ↔ ps.map (·.text) = l := by
  induction l generalizing ps with
  | nil =>
    rw [List.map_eq_nil_iff]
    constructor
    · intro h
      cases h
      rfl
    · rintro rfl
      rfl
  | cons s rest ih =>
    simp only [List.mapM_cons, bind_eq_ok_iff, readPath_eq_ok_iff, ih, List.map_eq_cons_iff]
    constructor
    · rintro ⟨p, first, others, mapped, done⟩
      cases done
      exact ⟨p, others, rfl, first, mapped⟩
    · rintro ⟨p, others, rfl, first, mapped⟩
      exact ⟨p, first, others, mapped, rfl⟩

theorem readSettingsModule_eq_ok_iff {s : Option String} {p : Option ImportPath} :
    readSettingsModule s = .ok p ↔ p.map (·.text) = s.filter (· ≠ "") := by
  cases s with
  | none => cases p <;> simp [readSettingsModule]
  | some s =>
    rw [readSettingsModule, Option.filter_some]
    by_cases empty : s = ""
    · cases p <;> simp [empty]
    · simp only [empty, ↓reduceIte, map_eq_ok_iff, readPath_eq_ok_iff]
      cases p <;> simp [empty]

/-- Each of some texts is a path exactly if there are paths with these texts. -/
theorem exists_map_text_iff {l : List String} :
    (∃ ps : List ImportPath, ps.map (·.text) = l) ↔ ∀ s ∈ l, IsPathText s :=
  Set.ext_iff.mp (Set.range_list_map ImportPath.text) l

theorem exists_settingsModule_iff {s : Option String} :
    (∃ p : Option ImportPath, p.map (·.text) = s.filter (· ≠ "")) ↔
      ∀ t, s = some t → t = "" ∨ IsPathText t := by
  constructor
  · rintro ⟨p, same⟩ t rfl
    by_cases empty : t = ""
    · exact .inl empty
    · have text : p.map (·.text) = some t := by simpa [Option.filter_some, empty] using same
      obtain ⟨p, -, text⟩ := Option.map_eq_some_iff.mp text
      exact .inr ⟨p, text⟩
  · intro each
    cases kept : s.filter (· ≠ "") with
    | none => exact ⟨none, rfl⟩
    | some t =>
      obtain ⟨there, nonempty⟩ := Option.filter_eq_some_iff.mp kept
      obtain ⟨p, text⟩ := (each t there).resolve_left (of_decide_eq_true nonempty)
      exact ⟨some p, congrArg some text⟩

/-! ## Resolving -/

/-- Resolving gives the one result that the configuration describes, if the extension is one. -/
theorem resolve_eq_ok_iff :
    c.resolve root = .ok rc ↔ isExtension c.extension = true ∧ c.Describes root rc := by
  rw [resolve]
  by_cases extension : isExtension c.extension = true
  · simp only [extension, Bool.not_true, Bool.false_eq_true, ↓reduceIte, true_and, bind_eq_ok_iff,
      mapM_readPath_eq_ok_iff, readSettingsModule_eq_ok_iff, readPath_eq_ok_iff]
    constructor
    · rintro ⟨engines, engine_texts, accessors, accessor_texts, module, module_text, nspace,
        nspace_text, queryset, queryset_text, done⟩
      cases done
      exact ⟨rfl, rfl, nspace_text, rfl, rfl, queryset_text, rfl, engine_texts, module_text,
        accessor_texts, rfl⟩
    · intro described
      obtain ⟨name, destination, settings⟩ := rc
      cases settings
      obtain ⟨rfl, rfl, nspace, rfl, rfl, queryset, rfl, engines, module, accessors, rfl⟩ :=
        described
      exact ⟨_, engines, _, accessors, _, module, _, nspace, _, queryset, rfl⟩
  · rw [Bool.eq_false_iff.mpr extension]
    constructor
    · intro resolved
      cases resolved
    · rintro ⟨⟨⟩, -⟩

/-- The result from another root. -/
def rebase (c : Config) (rc : ResolvedConfig) (root : FilePath) : ResolvedConfig :=
  { rc with
    destination := root.join ⟨c.destination⟩
    settings := { rc.settings with searchPaths := c.searchPaths.map fun s => root.join ⟨s⟩ } }

theorem resolve_rebase (resolved : c.resolve root = .ok rc) (root' : FilePath) :
    c.resolve root' = .ok (c.rebase rc root') := by
  obtain ⟨extension, described⟩ := resolve_eq_ok_iff.mp resolved
  exact resolve_eq_ok_iff.mpr
    ⟨extension, { described with destination := rfl, searchPaths := rfl }⟩

theorem Describes.keepsAbsolute (described : c.Describes root rc) : c.KeepsAbsolute rc where
  destination absolute := by
    rw [described.destination, FilePath.join_of_isAbsolute absolute]
  searchPaths := by
    rw [described.searchPaths, List.forall₂_map_right_iff, List.forall₂_same]
    exact fun s _ absolute => FilePath.join_of_isAbsolute absolute root

/-- From any root, a configuration is sound exactly if the project has a name and resolving
succeeds. -/
theorem sound_iff (root : FilePath) :
    c.Sound ↔ c.name ≠ "" ∧ ∃ rc, c.resolve root = .ok rc := by
  constructor
  · intro sound
    obtain ⟨nspace, nspace_text⟩ := sound.nspace
    obtain ⟨queryset, queryset_text⟩ := sound.genericQueryset
    obtain ⟨engines, engine_texts⟩ := exists_map_text_iff.mpr sound.engineNamespaces
    obtain ⟨accessors, accessor_texts⟩ := exists_map_text_iff.mpr sound.settingsAccessors
    obtain ⟨module, module_text⟩ := exists_settingsModule_iff.mpr sound.settingsModule
    have extension := isExtension_iff.mpr ⟨sound.extension_nonempty, sound.extension⟩
    have described : c.Describes root ⟨c.name, _, ⟨nspace, c.extension, c.markerMode, queryset,
        c.priority, engines, module, accessors, _⟩⟩ :=
      ⟨rfl, rfl, nspace_text, rfl, rfl, queryset_text, rfl, engine_texts, module_text,
        accessor_texts, rfl⟩
    exact ⟨sound.name, _, resolve_eq_ok_iff.mpr ⟨extension, described⟩⟩
  · rintro ⟨name, rc, resolved⟩
    obtain ⟨extension, described⟩ := resolve_eq_ok_iff.mp resolved
    obtain ⟨nonempty, chars⟩ := isExtension_iff.mp extension
    exact {
      name := name
      extension_nonempty := nonempty
      extension := chars
      nspace := ⟨_, described.nspace⟩
      genericQueryset := ⟨_, described.genericQueryset⟩
      engineNamespaces := exists_map_text_iff.mp ⟨_, described.engineNamespaces⟩
      settingsAccessors := exists_map_text_iff.mp ⟨_, described.settingsAccessors⟩
      settingsModule := exists_settingsModule_iff.mp ⟨_, described.settingsModule⟩ }

theorem validate_eq_ok_iff :
    c.validate = .ok () ↔ c.name ≠ "" ∧ ∃ rc, c.resolve ⟨"."⟩ = .ok rc := by
  rw [validate]
  by_cases name : c.name = ""
  · rw [if_pos name]
    constructor
    · intro valid
      cases valid
    · exact fun h => absurd name h.1
  · rw [if_neg name, bind_eq_ok_iff]
    constructor
    · rintro ⟨rc, resolved, -⟩
      exact ⟨name, rc, resolved⟩
    · rintro ⟨-, rc, resolved⟩
      exact ⟨rc, resolved, rfl⟩

/-- A configuration is valid exactly if it is sound. A valid one resolves from every root, with
results that are the same but for the directories, and absolute ones of these do not depend on the
root either. -/
theorem validate_resolve (c : Config) :
    (c.validate = .ok () ↔ c.Sound) ∧
    (c.validate = .ok () → ∃ resolved : FilePath → ResolvedConfig,
      (∀ root, c.resolve root = .ok (resolved root)) ∧
      (∀ root root', (resolved root).SameButDirectories (resolved root')) ∧
      ∀ root, c.KeepsAbsolute (resolved root)) := by
  refine ⟨validate_eq_ok_iff.trans (sound_iff ⟨"."⟩).symm, ?_⟩
  intro valid
  obtain ⟨-, rc, resolved⟩ := validate_eq_ok_iff.mp valid
  have anywhere : ∀ root, c.resolve root = .ok (c.rebase rc root) := resolve_rebase resolved
  refine ⟨c.rebase rc, anywhere, fun root root' => rfl, ?_⟩
  intro root
  exact (resolve_eq_ok_iff.mp (anywhere root)).2.keepsAbsolute

/-- A configuration with an absolute destination, and one absolute search path of two. -/
def pinned : Config where
  name := "shop"
  description := ""
  nspace := "virtual"
  destination := "/srv/virtual"
  extension := "py"
  markerMode := .content
  genericQueryset := "orm.QuerySet"
  priority := 10
  engineNamespaces := ["shop_plugin"]
  settingsModule := some ""
  settingsAccessors := ["django.conf.settings"]
  searchPaths := ["/srv/src", "lib"]

/-- From any root, the absolute directories are as they are written. -/
theorem pinned_anywhere : pinned.validate = .ok () ∧ pinned.Sound ∧
    ∀ root, ∃ rc, pinned.resolve root = .ok rc ∧ rc.destination = ⟨"/srv/virtual"⟩ ∧
      rc.settings.searchPaths.head? = some ⟨"/srv/src"⟩ := by
  have valid : pinned.validate = .ok () := rfl
  obtain ⟨sound, resolves⟩ := validate_resolve pinned
  obtain ⟨resolved, anywhere, -, keeps⟩ := resolves valid
  refine ⟨valid, sound.mp valid, fun root => ⟨resolved root, anywhere root, ?_, ?_⟩⟩
  · exact (keeps root).destination rfl
  · obtain ⟨path, rest, first, -, same⟩ :=
      List.forall₂_cons_left_iff.mp (keeps root).searchPaths
    rw [same, List.head?_cons, first rfl]

/-- A text gives a configuration if it is a document of one that is valid. -/
theorem ofText_eq_ok_iff {text : String} :
    ofText text = .ok c ↔ (Toml.ofText? text).bind ofToml? = some c ∧ c.validate = .ok () := by
  rw [ofText]
  cases (Toml.ofText? text).bind ofToml? with
  | none =>
    constructor
    · intro h
      cases h
    · rintro ⟨⟨⟩, -⟩
  | some config =>
    simp only [bind_eq_ok_iff]
    constructor
    · rintro ⟨⟨⟩, valid, done⟩
      cases done
      exact ⟨rfl, valid⟩
    · rintro ⟨same, valid⟩
      cases same
      exact ⟨(), valid, rfl⟩

end Config

namespace CommandLine

/-- A project whose configuration file is located and read, and whose text gives a configuration,
is not refused. -/
theorem Project.load_of_ofText {t : FileTree} {directory : Location} {named : Option String}
    {path : FilePath} {text : String} {c : Config}
    (located : locateConfig t directory named = .ok path)
    (read : readText t directory path = .ok text) (given : Config.ofText text = .ok c) :
    ∃ rc, c.resolve (rootOf path) = .ok rc ∧ load t directory named = .ok ⟨directory, rc⟩ := by
  obtain ⟨-, valid⟩ := Config.ofText_eq_ok_iff.mp given
  obtain ⟨-, rc, resolved⟩ := Config.validate_eq_ok_iff.mp valid
  have again := Config.resolve_rebase resolved (rootOf path)
  refine ⟨_, again, ?_⟩
  simp only [load, bind_eq_ok_iff]
  exact ⟨path, located, text, congrArg _ read, c, congrArg _ given, _, congrArg _ again, rfl⟩

end CommandLine

end VirtualModules
