import VirtualModules.Proofs.ArtifactLines
import VirtualModules.Proofs.CombinedReports
import VirtualModules.Proofs.ModelPaths
import VirtualModules.Proofs.PassReports
import VirtualModules.Proofs.UninstalledModules

/-!
# Text and report name the same aliases

The block of an artifact lists two aliases for every model with concrete descendants, imports for
what they are unions of, and no more (`AliasListing`, `aliasListing_append`). Where the models stand
directly in their module, no alias has the name of another, so each is defined by one line. The
report binds just these aliases, and relates the module to those of the descendants and of their
querysets (`aliases_listed`).

A token may hold line feeds, and what it adds to the line of the marker is then on lines of its own.
So the listing is that of the lines below the marker, and that of all lines where the token holds no
line feed. The token of a process holds none (`withinLine_ofSettings`).
-/

namespace VirtualModules

/-! ## Kinds of lines -/

def textLineStrings (text : String) : List String := (textLines text.toList).map String.ofList

/-- The line defines the alias of this name. -/
def DefinesName (name : Identifier) (line : String) : Prop :=
  ("    " ++ name.text ++ " = ").toList <+: line.toList

instance (name : Identifier) : DecidablePred (DefinesName name) := fun line =>
  inferInstanceAs (Decidable (_ <+: line.toList))

def IsAliasLine (line : String) : Prop := ∃ name, DefinesName name line

def IsImport (line : String) : Prop := "    import ".toList <+: line.toList

/-- The line neither defines an alias nor imports anything. -/
structure PlainLine (line : String) : Prop where
  not_alias : ¬ IsAliasLine line
  not_import : ¬ IsImport line

theorem plainLine_of_head_ne {line : String} (differs : line.toList.head? ≠ some ' ') :
    PlainLine line where
  not_alias := fun ⟨_, defines⟩ => not_defines_of_head_ne differs defines
  not_import := by
    rintro ⟨tail, whole⟩
    rw [← whole] at differs
    exact differs rfl

theorem plainLine_headLines {f : Facts} {line : String} (mem : line ∈ f.headLines) :
    PlainLine line where
  not_alias := fun ⟨_, defines⟩ => not_defines_headLines mem defines
  not_import := by
    simp only [Facts.headLines, List.mem_cons, List.not_mem_nil, or_false] at mem
    rcases mem with rfl | rfl | rfl | rfl | rfl | rfl | rfl
    · exact (plainLine_of_head_ne (by decide)).not_import
    · exact (plainLine_of_head_ne (by decide)).not_import
    · exact (plainLine_of_head_ne (by rw [head?_markerLine]; decide)).not_import
    · unfold IsImport
      decide
    · exact (plainLine_of_head_ne (by decide)).not_import
    · exact (plainLine_of_head_ne (by simp [Facts.moduleLine])).not_import
    · refine (plainLine_of_head_ne ?_).not_import
      cases f.summary.text? with
      | none => decide
      | some summary => simp [Facts.summaryLine]

theorem not_isImport_of {line : String} (other : isImportLine line = false) : ¬ IsImport line := by
  rintro ⟨tail, whole⟩
  rw [isImportLine, ← whole] at other
  simp at other

/-! ## Ascending lines -/

theorem append_lt_append {p s t : String} (h : s < t) : p ++ s < p ++ t := by
  rw [String.lt_iff, String.toList_append, String.toList_append]
  exact List.append_left_lt h

/-- What an ascending list holds just once is what a test keeps of it, if nothing else passes. -/
theorem filter_eq_singleton {l : List String} (ascending : l.Pairwise (· < ·))
    {keep : String → Bool} {a : String} (only : ∀ b, (b ∈ l ∧ keep b = true) ↔ b = a) :
    l.filter keep = [a] := by
  refine eq_of_pairwise_of_mem_iff (r := (· < ·)) (fun h h' => Std.lt_irrefl (Std.lt_trans h h'))
    (ascending.filter keep) (List.pairwise_singleton _ _) fun b => ?_
  rw [List.mem_filter, List.mem_singleton]
  exact only b

/-- Where all of one kind stand together and ascend, the list ascends as far as this kind goes. -/
theorem pairwise_of_kind {α : Type} {r : α → α → Prop} {kind : α → Prop}
    {before among after : List α} (not_before : ∀ a ∈ before, ¬ kind a)
    (ascending : among.Pairwise r) (not_after : ∀ a ∈ after, ¬ kind a) :
    (before ++ (among ++ after)).Pairwise fun a b => kind a → kind b → r a b := by
  have vacuous : ∀ {l : List α}, (∀ a ∈ l, ¬ kind a) →
      l.Pairwise fun a b => kind a → kind b → r a b := fun none =>
    List.pairwise_of_forall_mem_list fun a mem _ _ is => absurd is (none a mem)
  refine List.pairwise_append.mpr ⟨vacuous not_before, List.pairwise_append.mpr
    ⟨ascending.imp fun related _ _ => related, vacuous not_after, ?_⟩, ?_⟩
  · exact fun a _ b mem _ is => absurd is (not_after b mem)
  · exact fun a mem b _ is => absurd is (not_before a mem)

/-! ## The listing of a module -/

/-- The lines define the aliases of a module and import what they are unions of, and define nothing
else. -/
structure AliasListing (generic : ImportPath) (s : Snapshot) (m : SourceModule)
    (lines : List String) : Prop where
  /-- One line defines the alias of a model's descendants. -/
  concrete : ∀ {p concrete}, s.Aliased m p concrete → ∃ types : List String,
    types.Pairwise (· < ·) ∧ (∀ t, t ∈ types ↔ ∃ d ∈ concrete, t = d.path.text) ∧
      lines.filter (DefinesName (concreteAlias p)) =
        ["    Concrete__" ++ p.name.text ++ " = " ++ " | ".intercalate types]
  /-- One line defines the alias of their querysets. -/
  querysets : ∀ {p concrete}, s.Aliased m p concrete → ∃ types : List String,
    types.Pairwise (· < ·) ∧ (∀ t, t ∈ types ↔ ∃ d ∈ concrete, t = querysetType generic d) ∧
      lines.filter (DefinesName (querysetAlias p)) =
        ["    ConcreteQuerySet__" ++ p.name.text ++ " = " ++ " | ".intercalate types]
  no_other : ∀ line ∈ lines, ∀ name, DefinesName name line →
    ∃ p concrete, s.Aliased m p concrete ∧ (name = concreteAlias p ∨ name = querysetAlias p)
  aliases_ascending : lines.Pairwise fun a b => IsAliasLine a → IsAliasLine b → a < b
  imports_ascending : lines.Pairwise fun a b => IsImport a → IsImport b → a < b
  imported : ∀ {p concrete}, s.Aliased m p concrete → ∀ d ∈ concrete,
    "    import " ++ d.path.text ∈ lines ∧
      "    import " ++ (d.customQueryset.getD generic).text ∈ lines

/-- The lines of a block that import. -/
def Facts.importLines (f : Facts) (generic : ImportPath) : List String :=
  (f.imports generic).toList.map ("    import " ++ ·.text)

/-- The lines of a block that define aliases. -/
def Facts.definitionLines (f : Facts) (generic : ImportPath) : List String :=
  (f.aliasLines generic).toList.map ("    " ++ ·)

theorem Facts.importLines_ascending (f : Facts) (generic : ImportPath) :
    (f.importLines generic).Pairwise (· < ·) :=
  List.pairwise_map.mpr ((f.imports generic).ascending.imp append_lt_append)

theorem Facts.definitionLines_ascending (f : Facts) (generic : ImportPath) :
    (f.definitionLines generic).Pairwise (· < ·) :=
  List.pairwise_map.mpr ((f.aliasLines generic).ascending.imp append_lt_append)

theorem Facts.not_isAliasLine_importLines {f : Facts} {generic : ImportPath} :
    ∀ line ∈ f.importLines generic, ¬ IsAliasLine line := by
  intro line mem
  obtain ⟨p, -, rfl⟩ := List.mem_map.mp mem
  exact fun ⟨_, defines⟩ => not_defines_importLine defines

theorem filter_definesName_eq_nil {lines : List String} {name : Identifier}
    (none : ∀ line ∈ lines, ¬ IsAliasLine line) : lines.filter (DefinesName name) = [] :=
  List.filter_eq_nil_iff.mpr fun line mem defines => none line mem ⟨name, of_decide_eq_true defines⟩

section Listing

variable {c : PassContext} {s : Snapshot} {m : SourceModule} {table : ConcreteTable}
  {generic : ImportPath} {above : List String}

section Block

variable (h : concreteTable s m = .ok table)

include h

theorem mem_definitionLines_iff {line : String} :
    line ∈ (Facts.ofConcrete c m table).definitionLines generic ↔
      ∃ d, s.Defines generic m d.1 d.2 ∧ "    " ++ definitionLine d = line := by
  simp only [Facts.definitionLines, List.mem_map, SortedSet.mem_toList, mem_aliasLines_iff h]
  constructor
  · rintro ⟨-, ⟨d, defines, rfl⟩, here⟩
    exact ⟨d, defines, here⟩
  · rintro ⟨d, defines, here⟩
    exact ⟨_, ⟨d, defines, rfl⟩, here⟩

theorem not_isImport_definitionLines :
    ∀ line ∈ (Facts.ofConcrete c m table).definitionLines generic, ¬ IsImport line := by
  intro line mem
  obtain ⟨bare, listed, rfl⟩ := List.mem_map.mp mem
  exact not_isImport_of (isImportLine_aliasLine h listed).1

theorem mem_importLines {p : ImportPath} {concrete : List Model} (aliased : s.Aliased m p concrete)
    {path : ImportPath} (used : path ∈ aliasImports generic p concrete) :
    "    import " ++ path.text ∈ (Facts.ofConcrete c m table).importLines generic :=
  List.mem_map.mpr ⟨path, (mem_imports_iff h generic path).mpr ⟨p, concrete, aliased, used⟩, rfl⟩

/-- Lines that are neither come first, then the imports, and the definitions last. -/
theorem append_aliasBlock_eq (c : PassContext) (generic : ImportPath)
    (plain : ∀ line ∈ above, PlainLine line) :
    ∃ start, (∀ line ∈ start, PlainLine line) ∧
      above ++ (Facts.ofConcrete c m table).aliasBlock generic = start ++
        ((Facts.ofConcrete c m table).importLines generic ++
          (Facts.ofConcrete c m table).definitionLines generic) := by
  unfold Facts.importLines Facts.definitionLines
  rw [aliasBlock_of_lines]
  split
  · next none => exact ⟨above, plain, by simp [none, imports_eq_empty h none]⟩
  · refine ⟨above ++ ["", "if TYPE_CHECKING:"], fun line mem => ?_, by simp⟩
    rcases List.mem_append.mp mem with mem | mem
    · exact plain line mem
    · simp only [List.mem_cons, List.not_mem_nil, or_false] at mem
      rcases mem with rfl | rfl
      · exact plainLine_of_head_ne (by decide)
      · exact plainLine_of_head_ne (by decide)

end Block

variable (inside : ∀ model ∈ m.models.values, ∃ name : Identifier, model.path = m.path.child name)

include inside

/-- No two models of the module have one name. -/
theorem eq_of_name_eq {p q : ImportPath} {cs ds : List Model} (hp : s.Aliased m p cs)
    (hq : s.Aliased m q ds) (names : p.name = q.name) : p = q := by
  obtain ⟨⟨a, mem_a, rfl⟩, -⟩ := hp
  obtain ⟨⟨b, mem_b, rfl⟩, -⟩ := hq
  obtain ⟨i, here_a⟩ := inside a mem_a
  obtain ⟨j, here_b⟩ := inside b mem_b
  rw [here_a, here_b, ImportPath.name_child, ImportPath.name_child] at names
  rw [here_a, here_b, names]

/-- An alias is that of one model alone, and of one kind. -/
theorem definition_unique {p : ImportPath} {concrete : List Model}
    (aliased : s.Aliased m p concrete) {d : Identifier × SortedSet String}
    (mem : d ∈ aliasDefinitions generic p concrete) {types : SortedSet String}
    (defines : s.Defines generic m d.1 types) : types = d.2 := by
  obtain ⟨q, others, aliased_q, mem_q⟩ := defines
  have whole : p = q → concrete = others := by
    rintro rfl
    exact Except.ok.inj (aliased.2.1.symm.trans aliased_q.2.1)
  have same_model := eq_of_name_eq inside aliased aliased_q
  simp only [aliasDefinitions, List.mem_cons, List.not_mem_nil, or_false] at mem mem_q
  rcases mem with rfl | rfl
  · rcases mem_q with same | clash
    · obtain rfl := same_model (Identifier.appendName_inj (congrArg Prod.fst same))
      rw [whole rfl]
      exact congrArg Prod.snd same
    · exact absurd (congrArg Prod.fst clash) (concreteAlias_ne_querysetAlias p q)
  · rcases mem_q with clash | same
    · exact absurd (congrArg Prod.fst clash).symm (concreteAlias_ne_querysetAlias q p)
    · obtain rfl := same_model (Identifier.appendName_inj (congrArg Prod.fst same))
      rw [whole rfl]
      exact congrArg Prod.snd same

/-- One line defines an alias, as what it is to be. -/
theorem filter_definitionLines (h : concreteTable s m = .ok table) {p : ImportPath}
    {concrete : List Model} (aliased : s.Aliased m p concrete) {d : Identifier × SortedSet String}
    (mem : d ∈ aliasDefinitions generic p concrete) :
    ((Facts.ofConcrete c m table).definitionLines generic).filter (DefinesName d.1) =
      ["    " ++ definitionLine d] := by
  refine filter_eq_singleton (Facts.definitionLines_ascending _ _) fun line => ?_
  rw [decide_eq_true_iff, mem_definitionLines_iff h]
  constructor
  · rintro ⟨⟨e, defines, rfl⟩, defined⟩
    have name : d.1 = e.1 := defines_definitionLine_iff.mp defined
    rw [← name] at defines
    rw [Prod.ext name.symm (definition_unique inside aliased mem defines)]
  · rintro rfl
    exact ⟨⟨d, ⟨p, concrete, aliased, mem⟩, rfl⟩, defines_definitionLine_iff.mpr rfl⟩

/-- The block of an artifact lists the aliases of the module, whatever plain lines stand above
it. -/
theorem aliasListing_append (h : concreteTable s m = .ok table)
    (plain : ∀ line ∈ above, PlainLine line) :
    AliasListing generic s m (above ++ (Facts.ofConcrete c m table).aliasBlock generic) := by
  obtain ⟨start, plain, parts⟩ := append_aliasBlock_eq h c generic plain
  rw [parts]
  have start_not : ∀ line ∈ start, ¬ IsAliasLine line := fun line mem => (plain line mem).not_alias
  have defined : ∀ {p concrete}, s.Aliased m p concrete → ∀ d ∈ aliasDefinitions generic p concrete,
      (start ++ ((Facts.ofConcrete c m table).importLines generic ++
          (Facts.ofConcrete c m table).definitionLines generic)).filter (DefinesName d.1) =
        ["    " ++ definitionLine d] := by
    intro p concrete aliased d mem
    rw [List.filter_append, List.filter_append, filter_definesName_eq_nil start_not,
      filter_definesName_eq_nil Facts.not_isAliasLine_importLines,
      filter_definitionLines inside h aliased mem]
    rfl
  constructor
  case concrete =>
    intro p concrete aliased
    refine ⟨_, (SortedSet.ofList (concrete.map (·.path.text))).ascending, fun t => ?_, ?_⟩
    · rw [SortedSet.mem_toList, SortedSet.mem_ofList, List.mem_map]
      simp only [eq_comm]
    · rw [defined aliased _ List.mem_cons_self, definitionLine, concreteAlias_text]
      simp only [unionType, String.append_assoc]
      rfl
  case querysets =>
    intro p concrete aliased
    refine ⟨_, (SortedSet.ofList (concrete.map (querysetType generic))).ascending, fun t => ?_, ?_⟩
    · rw [SortedSet.mem_toList, SortedSet.mem_ofList, List.mem_map]
      simp only [eq_comm]
    · rw [defined aliased _ (List.mem_cons_of_mem _ List.mem_cons_self), definitionLine,
        querysetAlias_text]
      simp only [unionType, String.append_assoc]
      rfl
  case no_other =>
    intro line mem name defines
    rcases List.mem_append.mp mem with mem | mem
    · exact absurd ⟨name, defines⟩ (start_not line mem)
    rcases List.mem_append.mp mem with mem | mem
    · exact absurd ⟨name, defines⟩ (Facts.not_isAliasLine_importLines line mem)
    obtain ⟨d, ⟨p, concrete, aliased, mem_d⟩, rfl⟩ := (mem_definitionLines_iff h).mp mem
    obtain rfl := defines_definitionLine_iff.mp defines
    simp only [aliasDefinitions, List.mem_cons, List.not_mem_nil, or_false] at mem_d
    exact ⟨p, concrete, aliased, mem_d.imp (congrArg Prod.fst) (congrArg Prod.fst)⟩
  case aliases_ascending =>
    have before : ∀ line ∈ start ++ (Facts.ofConcrete c m table).importLines generic,
        ¬ IsAliasLine line := fun line mem =>
      (List.mem_append.mp mem).elim (start_not line) (Facts.not_isAliasLine_importLines line)
    have after : ∀ line ∈ ([] : List String), ¬ IsAliasLine line :=
      fun _ mem => absurd mem List.not_mem_nil
    have listed := pairwise_of_kind before
      ((Facts.ofConcrete c m table).definitionLines_ascending generic) after
    rwa [List.append_nil, List.append_assoc] at listed
  case imports_ascending =>
    exact pairwise_of_kind (fun line mem => (plain line mem).not_import)
      (Facts.importLines_ascending _ _) (not_isImport_definitionLines h)
  case imported =>
    intro p concrete aliased d mem
    have imported : ∀ path ∈ [d.path, d.customQueryset.getD generic],
        "    import " ++ path.text ∈ start ++
          ((Facts.ofConcrete c m table).importLines generic ++
            (Facts.ofConcrete c m table).definitionLines generic) := by
      intro path used
      refine List.mem_append_right _ (List.mem_append_left _ (mem_importLines h aliased ?_))
      exact List.mem_cons_of_mem _ (List.mem_flatMap.mpr ⟨d, mem, used⟩)
    exact ⟨imported _ (by simp), imported _ (by simp)⟩

end Listing

/-! ## Tokens of processes -/

theorem not_mem_toString_nat (n : Nat) {c : Char} (other : c.isDigit = false) :
    c ∉ (toString n).toList := by
  intro mem
  rw [Nat.toString_eq_repr, Nat.toList_repr] at mem
  rw [Nat.isDigit_of_mem_toDigits (by decide) (by decide) mem] at other
  cases other

/-- The token of a process has no line feed in it. -/
theorem withinLine_ofSettings (settings : Settings) (seconds nanoseconds : Nat) :
    (Generator.ofSettings settings (processToken seconds nanoseconds)).policy.WithinLine := by
  intro token policy
  unfold Generator.ofSettings at policy
  split at policy
  · cases policy
  · cases policy
    have zeros : '\n' ∉ List.replicate (9 - (toString nanoseconds).length) '0' := fun mem =>
      absurd (List.eq_of_mem_replicate mem) (by decide)
    simp only [processToken, String.toList_append, String.toList_ofList, List.mem_append, not_or]
    exact ⟨⟨⟨not_mem_toString_nat seconds rfl, by decide⟩, zeros⟩,
      not_mem_toString_nat nanoseconds rfl⟩

/-! ## Text and report of an artifact -/

theorem textLineStrings_of_eq {text : String} {lines : List String}
    (h : textLines text.toList = lines.map String.toList) : textLineStrings text = lines := by
  rw [textLineStrings, h, List.map_map]
  simp

section Artifact

variable {g : Generator} {s : Snapshot} {m : SourceModule} {a : Artifact}

/-- A table of aliases holds those of the models with concrete descendants, under the virtual
path. -/
theorem binds_child_iff (installed : m.installed = true) (h : g.artifact s m = .ok a)
    {kind : OwnedTable} {name : Identifier} {key : ImportPath}
    (path : aliasPath? a.virtualPath kind key = some (a.virtualPath.child name)) {v : ImportPath} :
    a.report.Binds kind key v ↔
      (∃ concrete, s.Aliased m key concrete) ∧ v.text = a.virtualPath.text ++ "." ++ name.text := by
  have owned : kind ≠ .virtualModules := by
    rintro rfl
    cases path
  rw [binds_artifact_iff h, ← virtualPath_of_artifact h, path]
  simp only [installed, owned, true_and, false_and, or_false, Option.some.injEq]
  refine and_congr_right fun _ => ?_
  constructor
  · rintro rfl
    rfl
  · exact fun same => (ImportPath.ext_text same).symm

theorem get?_concreteAliases_artifact_iff (installed : m.installed = true)
    (h : g.artifact s m = .ok a) (key v : ImportPath) : a.report.concreteAliases.get? key = some v ↔
      (∃ concrete, s.Aliased m key concrete) ∧
        v.text = a.virtualPath.text ++ "." ++ ("Concrete__" ++ key.name.text) := by
  rw [← concreteAlias_text]
  have path : aliasPath? a.virtualPath .concreteAliases key =
      some (a.virtualPath.child (concreteAlias key)) := rfl
  exact binds_child_iff installed h path

theorem get?_querysetAliases_artifact_iff (installed : m.installed = true)
    (h : g.artifact s m = .ok a) (key v : ImportPath) : a.report.querysetAliases.get? key = some v ↔
      (∃ concrete, s.Aliased m key concrete) ∧
        v.text = a.virtualPath.text ++ "." ++ ("ConcreteQuerySet__" ++ key.name.text) := by
  rw [← querysetAlias_text]
  have path : aliasPath? a.virtualPath .querysetAliases key =
      some (a.virtualPath.child (querysetAlias key)) := rfl
  exact binds_child_iff installed h path

theorem get?_virtualModules_artifact_iff (h : g.artifact s m = .ok a) (key v : ImportPath) :
    a.report.virtualModules.get? key = some v ↔ key = m.path ∧ v = a.virtualPath := by
  have binds : a.report.Binds .virtualModules key v ↔ _ := binds_artifact_iff h
  rw [← virtualPath_of_artifact h] at binds
  simp only [aliasPath?, reduceCtorEq, and_false, false_or, true_and] at binds
  exact binds

/-- The module of a descendant, and that of its queryset, is the module itself or related to it. -/
theorem related_of_descendant (installed : m.installed = true) (h : g.artifact s m = .ok a)
    (inside : ∀ model ∈ m.models.values, ∃ name : Identifier, model.path = m.path.child name)
    {p : ImportPath} {concrete : List Model} (aliased : s.Aliased m p concrete) {d : Model}
    (mem : d ∈ concrete) {path : ImportPath} (used : path ∈ d.path :: d.customQueryset.toList)
    {nspace : ImportPath} (here : path.parent? = some nspace) :
    nspace = m.path ∨ nspace ∈ a.report.relatedTo m.path := by
  have module : p.parent? = some m.path := by
    obtain ⟨⟨model, mem_model, rfl⟩, -⟩ := aliased
    obtain ⟨name, child⟩ := inside model mem_model
    rw [ImportPath.parent?_eq_some_iff_child, child, ImportPath.name_child]
  have touch : d.Touch path := by
    rcases List.mem_cons.mp used with rfl | custom
    · exact .self
    · exact .queryset (Option.mem_toList.mp custom)
  have touched : s.Touches m m.path nspace :=
    ⟨p, concrete, aliased, module, mem_touchedModules_iff.mpr ⟨d, mem, path, touch, here⟩⟩
  refine or_iff_not_imp_left.mpr fun differ => ?_
  exact (relates_artifact_iff h).mpr ⟨installed, Ne.symm differ, .inl touched⟩

/-- The lines of an installed module's artifact, below the line of the marker and, where the token
breaks no line, on the whole, list the aliases of the module. -/
theorem listing_of_artifact (installed : m.installed = true)
    (inside : ∀ model ∈ m.models.values, ∃ name : Identifier, model.path = m.path.child name)
    (h : g.artifact s m = .ok a) :
    ∃ (summary : Summary) (marker body : String), a.summary = summary.text? ∧
      g.policy.marker? summary = some marker ∧
      a.content = "from typing import TYPE_CHECKING\n\n" ++ Facts.markerLine marker ++ "\n" ++
        body ∧
      AliasListing g.settings.genericQueryset s m (textLineStrings body) ∧
      (g.policy.WithinLine →
        AliasListing g.settings.genericQueryset s m (textLineStrings a.content)) := by
  obtain ⟨table, found, rfl⟩ := artifact_installed installed h
  have marked : (Facts.ofConcrete (g.context s) m table).marker =
      g.policy.marker? (Facts.ofConcrete (g.context s) m table).summary := rfl
  obtain ⟨marker, is_marker⟩ : ∃ marker, (Facts.ofConcrete (g.context s) m table).marker =
      some marker := ⟨_, rfl⟩
  refine ⟨_, marker, String.join (((Facts.ofConcrete (g.context s) m table).tailLines
    g.settings.genericQueryset).map (· ++ "\n")), rfl, marked.symm.trans is_marker, ?_, ?_,
    fun within => ?_⟩
  · have parts := content_eq_append (Facts.ofConcrete (g.context s) m table)
      g.settings.genericQueryset
    rwa [is_marker] at parts
  · have lines := textLines_join_ended fun line mem =>
      (unbroken_tailLines (c := g.context s) found g.settings.genericQueryset line mem).oneLine
    rw [textLineStrings_of_eq lines]
    refine aliasListing_append inside found fun line mem => plainLine_headLines
      (f := Facts.ofConcrete (g.context s) m table) ?_
    exact List.mem_of_mem_drop (i := 3) mem
  · rw [Artifact.render,
      textLineStrings_of_eq (textLines_content found _ (marker_within_line within))]
    exact aliasListing_append inside found fun line mem => plainLine_headLines mem

/-- The artifact of an installed module defines two aliases for each model with concrete
descendants and lists what they are unions of, and its report names just these aliases under the
virtual path. -/
theorem aliases_listed (installed : m.installed = true)
    (inside : ∀ model ∈ m.models.values, ∃ name : Identifier, model.path = m.path.child name)
    (h : g.artifact s m = .ok a) :
    (∃ (summary : Summary) (marker body : String), a.summary = summary.text? ∧
      g.policy.marker? summary = some marker ∧
      a.content = "from typing import TYPE_CHECKING\n\n" ++ Facts.markerLine marker ++ "\n" ++
        body ∧
      AliasListing g.settings.genericQueryset s m (textLineStrings body) ∧
      (g.policy.WithinLine →
        AliasListing g.settings.genericQueryset s m (textLineStrings a.content))) ∧
    (∀ key v, a.report.concreteAliases.get? key = some v ↔
      (∃ concrete, s.Aliased m key concrete) ∧
        v.text = a.virtualPath.text ++ "." ++ ("Concrete__" ++ key.name.text)) ∧
    (∀ key v, a.report.querysetAliases.get? key = some v ↔
      (∃ concrete, s.Aliased m key concrete) ∧
        v.text = a.virtualPath.text ++ "." ++ ("ConcreteQuerySet__" ++ key.name.text)) ∧
    (∀ key v, a.report.virtualModules.get? key = some v ↔ key = m.path ∧ v = a.virtualPath) ∧
    ∀ p concrete, s.Aliased m p concrete → ∀ d ∈ concrete,
      ∀ path ∈ d.path :: d.customQueryset.toList, ∀ nspace, path.parent? = some nspace →
        nspace = m.path ∨ nspace ∈ a.report.relatedTo m.path :=
  ⟨listing_of_artifact installed inside h, get?_concreteAliases_artifact_iff installed h,
    get?_querysetAliases_artifact_iff installed h, get?_virtualModules_artifact_iff h,
    fun _ _ aliased _ mem _ used _ here =>
      related_of_descendant installed h inside aliased mem used here⟩

end Artifact

namespace Adoption

theorem parentModule_inside : ∀ model ∈ parentModule.models.values, ∃ name : Identifier,
    model.path = parentModule.path.child name := by
  have both : parentModule.models.values =
      [abstractModel "A" first, abstractModel "B" second] := rfl
  rw [both]
  refine List.forall_mem_cons.mpr ⟨⟨first.name, by decide⟩, List.forall_mem_singleton.mpr ?_⟩
  exact ⟨second.name, by decide⟩

/-- The artifact of the parents' module defines the alias of the first parent as the child. -/
theorem first_listed : parentModule.installed = true ∧
    (∀ model ∈ parentModule.models.values, ∃ name : Identifier,
      model.path = parentModule.path.child name) ∧
    ∃ a, generator.artifact (adoption first) parentModule = .ok a ∧
      (textLineStrings a.content).filter (DefinesName (concreteAlias first)) =
        ["    Concrete__A = ext.models.X"] ∧
      childModule ∈ a.report.relatedTo parents := by
  have found := artifact_of_concreteTable (g := generator) rfl concreteTable_first
  have aliased : (adoption first).Aliased parentModule first [childOf first] :=
    ⟨⟨abstractModel "A" first, by decide, rfl⟩, rfl, by decide⟩
  obtain ⟨⟨-, -, -, -, -, -, -, listing⟩, -, -, -, related⟩ :=
    aliases_listed rfl parentModule_inside found
  obtain ⟨types, ascending, members, line⟩ :=
    (listing MarkerPolicy.withinLine_content).concrete aliased
  have only : types = ["ext.models.X"] :=
    eq_of_pairwise_of_mem_iff (r := (· < ·)) (fun h h' => Std.lt_irrefl (Std.lt_trans h h'))
      ascending (List.pairwise_singleton _ _) fun t => by
        simp only [members, List.mem_singleton, exists_eq_left]
        rfl
  have name : first.name.text = "A" := by decide
  rw [only, name] at line
  refine ⟨rfl, parentModule_inside, _, found, line, ?_⟩
  have other := related first _ aliased (childOf first) List.mem_cons_self child List.mem_cons_self
    childModule (by decide)
  exact other.resolve_left (by decide)

end Adoption

end VirtualModules
