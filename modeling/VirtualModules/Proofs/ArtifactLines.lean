import VirtualModules.Proofs.ArtifactText

/-!
# What is read off the lines of an artifact

The lines of the text are those it was written from (`textLines_content`), so what was written is
found again:

* `summaryOf?_render`, `summaryOf?_artifact`: the summary that an artifact was built with.
* `definesAlias_artifact_iff`: the aliases of its module.
-/

namespace VirtualModules

/-! ## Quoted values -/

/-- A line with another first character has no value. -/
theorem quotedValue?_of_head_ne {name : String} {c : Char} {rest line : List Char}
    (starts : name.toList = c :: rest) (differs : line.head? ≠ some c) :
    quotedValue? name line = none := by
  have no_match : (name.toList ++ [' ', '=', ' ', '"']).isPrefixOf? line = none := by
    rw [starts]
    cases line with
    | nil => rfl
    | cons d line =>
      have other : (c == d) = false := by
        rw [beq_eq_false_iff_ne]
        rintro rfl
        exact differs rfl
      simp [List.isPrefixOf?, other]
  simp only [quotedValue?, no_match]
  rfl

theorem quotedValue?_quoted {name value : String} (nonempty : value ≠ "")
    (plain : '"' ∉ value.toList) :
    quotedValue? name (name ++ " = \"" ++ value ++ "\"").toList = some value.toList := by
  have line : (name ++ " = \"" ++ value ++ "\"").toList =
      (name.toList ++ [' ', '=', ' ', '"']) ++ (value.toList ++ ['"']) := by
    simp
  have rest : (name.toList ++ [' ', '=', ' ', '"']).isPrefixOf?
      ((name.toList ++ [' ', '=', ' ', '"']) ++ (value.toList ++ ['"'])) =
        some (value.toList ++ ['"']) := by
    rw [List.isPrefixOf?_eq_some_iff_append_eq]
  have accepted : (value.toList.isEmpty || value.toList.contains '"') = false := by
    simp [nonempty, plain]
  rw [line]
  simp only [quotedValue?, rest, Option.bind_eq_bind, Option.bind_some, List.getLast?_concat,
    List.dropLast_concat, accepted]
  rfl

theorem summaryOf?_eq_some_iff {known : ImportPath → Bool} {document text : String} :
    summaryOf? known document = some text ↔
      ∃ stamp module, Stamp.scan document = some stamp ∧
        ImportPath.ofString (String.ofList stamp.module) = .ok module ∧ known module = true ∧
        text = String.ofList stamp.summary := by
  rw [summaryOf?, Option.bind_eq_bind, Option.bind_eq_some_iff]
  constructor
  · rintro ⟨stamp, scanned, found⟩
    obtain ⟨module, path, found⟩ := Option.bind_eq_some_iff.mp found
    split at found
    · next accepted =>
      exact ⟨stamp, module, scanned, eq_ok_of_toOption path, accepted,
        (Option.some.inj found).symm⟩
    · cases found
  · rintro ⟨stamp, module, scanned, path, accepted, rfl⟩
    refine ⟨stamp, scanned, ?_⟩
    simp [path, Except.toOption, accepted]

theorem head?_markerLine (marker : String) :
    (Facts.markerLine marker).toList.head? = some 'd' := by
  have parts : Facts.markerLine marker = "def interface__" ++ marker ++ "() -> None:" := rfl
  rw [parts, String.append_assoc, String.toList_append]
  rfl

section Installed

variable {c : PassContext} {s : Snapshot} {m : SourceModule} {table : ConcreteTable}

/-! ## The stamp -/

/-- The policy breaks no line: no token holds a line feed. -/
def MarkerPolicy.WithinLine (policy : MarkerPolicy) : Prop :=
  ∀ token, policy = .perProcess token → '\n' ∉ token.toList

/-- A marker that is the hash of the summary stays within its line, as a token does that breaks
none. -/
theorem marker_within_line (within : c.policy.WithinLine) :
    '\n' ∉ ((Facts.ofConcrete c m table).marker.getD Facts.emptyMarker).toList := by
  rw [marker_ofConcrete, MarkerPolicy.marker?]
  cases (Facts.ofConcrete c m table).summary.text? with
  | none =>
    rw [Option.map_none, Option.getD_none]
    decide
  | some text =>
    cases policy : c.policy with
    | content =>
      simp only [Option.map_some, Option.getD_some, String.toList_ofList]
      exact not_mem_hexDigits 16 _ rfl
    | perProcess token => exact within token policy

theorem MarkerPolicy.withinLine_content : MarkerPolicy.content.WithinLine := nofun

theorem oneLine_markerLine {marker : String} (marked : '\n' ∉ marker.toList) :
    OneLine (Facts.markerLine marker) :=
  OneLine.append (not_mem_append (by decide) marked) (by decide) (by decide)

theorem oneLine_lines (h : concreteTable s m = .ok table) (generic : ImportPath)
    (marked : '\n' ∉ ((Facts.ofConcrete c m table).marker.getD Facts.emptyMarker).toList) :
    ∀ line ∈ (Facts.ofConcrete c m table).lines generic, OneLine line := by
  intro line mem
  have parts : (Facts.ofConcrete c m table).lines generic =
      ["from typing import TYPE_CHECKING", "",
        Facts.markerLine ((Facts.ofConcrete c m table).marker.getD Facts.emptyMarker)] ++
        (Facts.ofConcrete c m table).tailLines generic := rfl
  rw [parts] at mem
  simp only [List.cons_append, List.nil_append, List.mem_cons] at mem
  rcases mem with rfl | rfl | rfl | mem
  · decide
  · decide
  · exact oneLine_markerLine marked
  · exact (unbroken_tailLines h generic line mem).oneLine

/-- The lines of the text of an installed module are those it was written from. -/
theorem textLines_content (h : concreteTable s m = .ok table) (generic : ImportPath)
    (marked : '\n' ∉ ((Facts.ofConcrete c m table).marker.getD Facts.emptyMarker).toList) :
    textLines ((Facts.ofConcrete c m table).content generic).toList =
      ((Facts.ofConcrete c m table).lines generic).map String.toList :=
  textLines_join_ended (oneLine_lines h generic marked)

theorem scanFrom_of_none {module summary : Option (List Char)} {lines rest : List (List Char)}
    (open_end : module = none ∨ summary = none)
    (nothing : ∀ line ∈ lines,
      quotedValue? "mod" line = none ∧ quotedValue? "summary" line = none) :
    Stamp.scanFrom module summary (lines ++ rest) = Stamp.scanFrom module summary rest := by
  induction lines with
  | nil => rfl
  | cons line lines ih =>
    obtain ⟨no_module, no_summary⟩ := nothing line List.mem_cons_self
    rw [List.cons_append, Stamp.scanFrom, no_module, no_summary]
    have later := ih fun l mem => nothing l (List.mem_cons_of_mem _ mem)
    rcases open_end with rfl | rfl
    · exact later
    · cases module <;> exact later

theorem quotedValue?_moduleLine (p : ImportPath) :
    quotedValue? "mod" (Facts.moduleLine p).toList = some p.text.toList ∧
      quotedValue? "summary" (Facts.moduleLine p).toList = none := by
  have line : Facts.moduleLine p = "mod" ++ " = \"" ++ p.text ++ "\"" := rfl
  constructor
  · rw [line]
    exact quotedValue?_quoted p.text_ne_empty (p.not_mem_text rfl (by decide))
  · exact quotedValue?_of_head_ne (c := 's') rfl (by simp [Facts.moduleLine])

theorem quotedValue?_summaryLine {summary : String} (nonempty : summary ≠ "")
    (plain : '"' ∉ summary.toList) :
    quotedValue? "mod" (Facts.summaryLine (some summary)).toList = none ∧
      quotedValue? "summary" (Facts.summaryLine (some summary)).toList = some summary.toList := by
  have line : Facts.summaryLine (some summary) = "summary" ++ " = \"" ++ summary ++ "\"" := rfl
  constructor
  · exact quotedValue?_of_head_ne (c := 'm') rfl (by simp [Facts.summaryLine])
  · rw [line]
    exact quotedValue?_quoted nonempty plain

theorem quotable_summary {v p : ImportPath} {apps significant : Fingerprint} {summary : String}
    (h : (Summary.mk v p (.installed apps significant)).text? = some summary) :
    summary ≠ "" ∧ '"' ∉ summary.toList := by
  rw [summaryText_installed, Option.some.injEq] at h
  subst h
  constructor
  · simp
  · simp [v.not_mem_text (c := '"') rfl (by decide), p.not_mem_text (c := '"') rfl (by decide),
      apps.not_mem_toHex (c := '"') rfl, significant.not_mem_toHex (c := '"') rfl]

/-- No line before that of the module starts like one with a value. -/
theorem quotedValue?_before {f : Facts} {line : List Char}
    (mem : line ∈ ["from typing import TYPE_CHECKING", "",
      Facts.markerLine (f.marker.getD Facts.emptyMarker), "    return None", ""].map
        String.toList) :
    quotedValue? "mod" line = none ∧ quotedValue? "summary" line = none := by
  have starts : line.head? ≠ some 'm' ∧ line.head? ≠ some 's' := by
    simp only [List.map_cons, List.map_nil, List.mem_cons, List.not_mem_nil, or_false] at mem
    rcases mem with rfl | rfl | rfl | rfl | rfl
    · decide
    · decide
    · rw [head?_markerLine]
      decide
    · decide
    · decide
  exact ⟨quotedValue?_of_head_ne rfl starts.1, quotedValue?_of_head_ne rfl starts.2⟩

/-- The lines of every artifact state the module, and the summary if there is one. -/
theorem scanFrom_headLines (f : Facts) (rest : List (List Char))
    (quotable : ∀ summary, f.summary.text? = some summary → summary ≠ "" ∧ '"' ∉ summary.toList) :
    Stamp.scanFrom none none (f.headLines.map String.toList ++ rest) =
      match f.summary.text? with
      | some summary => some ⟨f.summary.modulePath.text.toList, summary.toList⟩
      | none => Stamp.scanFrom (some f.summary.modulePath.text.toList) none rest := by
  have parts : f.headLines.map String.toList ++ rest =
      ["from typing import TYPE_CHECKING", "",
        Facts.markerLine (f.marker.getD Facts.emptyMarker), "    return None", ""].map
          String.toList ++
        ((Facts.moduleLine f.summary.modulePath).toList ::
          (Facts.summaryLine f.summary.text?).toList :: rest) := rfl
  have module_values := quotedValue?_moduleLine f.summary.modulePath
  rw [parts, scanFrom_of_none (.inl rfl) fun line => quotedValue?_before, Stamp.scanFrom,
    module_values.1, module_values.2]
  change Stamp.scanFrom (some f.summary.modulePath.text.toList) none
    ((Facts.summaryLine f.summary.text?).toList :: rest) = _
  rw [Stamp.scanFrom]
  cases stated : f.summary.text? with
  | none =>
    have no_module : quotedValue? "mod" (Facts.summaryLine none).toList = none := by decide
    have no_summary : quotedValue? "summary" (Facts.summaryLine none).toList = none := by decide
    rw [no_module, no_summary]
    rfl
  | some summary =>
    obtain ⟨nonempty, plain⟩ := quotable summary stated
    have summary_values := quotedValue?_summaryLine nonempty plain
    rw [summary_values.1, summary_values.2]
    rfl

/-- The text of an installed module states the module and its summary, whatever follows it. -/
theorem scan_content_append (h : concreteTable s m = .ok table) (generic : ImportPath)
    (marked : '\n' ∉ ((Facts.ofConcrete c m table).marker.getD Facts.emptyMarker).toList)
    {summary : String} (stated : (Facts.ofConcrete c m table).summary.text? = some summary)
    (appended : String) :
    Stamp.scan ((Facts.ofConcrete c m table).content generic ++ appended) =
      some ⟨m.path.text.toList, summary.toList⟩ := by
  rw [Stamp.scan, String.toList_append, Facts.content,
    textLines_join_ended_append (oneLine_lines h generic marked), Facts.lines, List.map_append,
    List.append_assoc, scanFrom_headLines _ _ fun _ text => quotable_summary (h := text), stated]
  rfl

/-- The stored summary of the text is the summary, as long as the module is known. -/
theorem summaryOf?_content_append (h : concreteTable s m = .ok table) (generic : ImportPath)
    (marked : '\n' ∉ ((Facts.ofConcrete c m table).marker.getD Facts.emptyMarker).toList)
    (appended : String) (known : ImportPath → Bool) :
    summaryOf? known ((Facts.ofConcrete c m table).content generic ++ appended) =
      if known m.path then (Facts.ofConcrete c m table).summary.text? else none := by
  cases stated : (Facts.ofConcrete c m table).summary.text? with
  | none => simp [Facts.ofConcrete, summaryText_installed] at stated
  | some summary =>
    simp only [summaryOf?, scan_content_append h generic marked stated, Option.bind_eq_bind,
      Option.bind_some, String.ofList_toList, ImportPath.ofString_text]
    rfl

/-- The text of a module that is not installed has no stored summary. -/
theorem summaryOf?_uninstalled (known : ImportPath → Bool) (c : PassContext) (m : SourceModule)
    (generic : ImportPath) :
    summaryOf? known ((Facts.ofUninstalled c m).content generic) = none := by
  have lines : (Facts.ofUninstalled c m).lines generic = (Facts.ofUninstalled c m).headLines := by
    rw [Facts.lines, show (Facts.ofUninstalled c m).aliasBlock generic = [] from rfl,
      List.append_nil]
  have one_line : ∀ line ∈ (Facts.ofUninstalled c m).headLines, OneLine line := by
    intro line mem
    simp only [Facts.headLines, List.mem_cons, List.not_mem_nil, or_false] at mem
    rcases mem with rfl | rfl | rfl | rfl | rfl | rfl | rfl
    · decide
    · decide
    · have line : OneLine (Facts.markerLine Facts.emptyMarker) := by decide
      exact line
    · decide
    · decide
    · exact (unbroken_moduleLine _).oneLine
    · have line : OneLine (Facts.summaryLine none) := by decide
      exact line
  have scanned := scanFrom_headLines (Facts.ofUninstalled c m) [] fun summary clash => by cases clash
  rw [List.append_nil] at scanned
  rw [summaryOf?, Stamp.scan, Facts.content, lines, textLines_join_ended one_line, scanned]
  rfl

/-! ## Lines that define aliases -/

/-- A line of the text defines the alias of this name. -/
def DefinesAlias (text : String) (name : Identifier) : Prop :=
  ∃ line ∈ textLines text.toList, ("    " ++ name.text ++ " = ").toList <+: line

instance (text : String) (name : Identifier) : Decidable (DefinesAlias text name) :=
  inferInstanceAs (Decidable (∃ _ ∈ _, _))

/-- A line that defines an alias starts with four blanks, and the alias is all before the next
blank. -/
theorem defines_line_iff {name : Identifier} {line : String} {word rest : List Char}
    (parts : line.toList = "    ".toList ++ (word ++ ' ' :: rest)) (solid : ' ' ∉ word) :
    ("    " ++ name.text ++ " = ").toList <+: line.toList ↔
      name.text.toList = word ∧ ['=', ' '] <+: rest := by
  have start : ("    " ++ name.text ++ " = ").toList =
      "    ".toList ++ (name.text.toList ++ ' ' :: ['=', ' ']) := by
    simp
  rw [start, parts, List.prefix_append_right_inj]
  constructor
  · rintro ⟨tail, whole⟩
    have cut : name.text.toList ++ ' ' :: (['=', ' '] ++ tail) = word ++ ' ' :: rest := by
      simpa using whole
    obtain ⟨names, tails⟩ := append_cons_inj (name.not_mem_text rfl) solid cut
    exact ⟨names, tail, tails⟩
  · rintro ⟨names, tail, tails⟩
    exact ⟨tail, by simp [← tails, names]⟩

theorem not_defines_of_head_ne {name : Identifier} {line : String}
    (differs : line.toList.head? ≠ some ' ') :
    ¬ ("    " ++ name.text ++ " = ").toList <+: line.toList := by
  rintro ⟨tail, whole⟩
  rw [← whole] at differs
  simp at differs

theorem not_defines_headLines {f : Facts} {name : Identifier} {line : String}
    (mem : line ∈ f.headLines) : ¬ ("    " ++ name.text ++ " = ").toList <+: line.toList := by
  simp only [Facts.headLines, List.mem_cons, List.not_mem_nil, or_false] at mem
  rcases mem with rfl | rfl | rfl | rfl | rfl | rfl | rfl
  · exact not_defines_of_head_ne (by decide)
  · exact not_defines_of_head_ne (by decide)
  · exact not_defines_of_head_ne (by rw [head?_markerLine]; decide)
  · have parts : "    return None".toList =
        "    ".toList ++ ("return".toList ++ ' ' :: "None".toList) := by decide
    rw [defines_line_iff parts (by decide)]
    exact fun h => absurd h.2 (by decide)
  · exact not_defines_of_head_ne (by decide)
  · exact not_defines_of_head_ne (by simp [Facts.moduleLine])
  · apply not_defines_of_head_ne
    cases f.summary.text? with
    | none => decide
    | some summary => simp [Facts.summaryLine]

theorem not_defines_importLine {p : ImportPath} {name : Identifier} :
    ¬ ("    " ++ name.text ++ " = ").toList <+: ("    import " ++ p.text).toList := by
  have parts : ("    import " ++ p.text).toList =
      "    ".toList ++ ("import".toList ++ ' ' :: p.text.toList) := by
    simp
  rw [defines_line_iff parts (by decide)]
  rintro ⟨-, tail, whole⟩
  have mem : '=' ∈ p.text.toList := by simp [← whole]
  exact p.not_mem_text rfl (by decide) mem

theorem defines_definitionLine_iff {d : Identifier × SortedSet String} {name : Identifier} :
    ("    " ++ name.text ++ " = ").toList <+: ("    " ++ definitionLine d).toList ↔ name = d.1 := by
  have parts : ("    " ++ definitionLine d).toList =
      "    ".toList ++ (d.1.text.toList ++ ' ' :: '=' :: ' ' :: (unionType d.2.toList).toList) := by
    simp [definitionLine]
  rw [defines_line_iff parts (d.1.not_mem_text rfl)]
  constructor
  · exact fun h => Identifier.ext_text (String.toList_inj.mp h.1)
  · rintro rfl
    exact ⟨rfl, (unionType d.2.toList).toList, rfl⟩

theorem definesAlias_content_iff (h : concreteTable s m = .ok table) (generic : ImportPath)
    (marked : '\n' ∉ ((Facts.ofConcrete c m table).marker.getD Facts.emptyMarker).toList)
    {name : Identifier} :
    DefinesAlias ((Facts.ofConcrete c m table).content generic) name ↔
      ∃ types, s.Defines generic m name types := by
  simp only [DefinesAlias, textLines_content h generic marked, Facts.lines, List.mem_map,
    List.mem_append, aliasBlock_of_lines]
  constructor
  · rintro ⟨-, ⟨line, above | below, rfl⟩, starts⟩
    · exact absurd starts (not_defines_headLines above)
    · split at below
      · cases below
      · simp only [List.cons_append, List.nil_append, List.mem_cons, List.mem_append,
          List.mem_map] at below
        rcases below with rfl | rfl | ⟨p, -, rfl⟩ | ⟨l, mem, rfl⟩
        · exact absurd starts (not_defines_of_head_ne (by decide))
        · exact absurd starts (not_defines_of_head_ne (by decide))
        · exact absurd starts not_defines_importLine
        · obtain ⟨d, defines, rfl⟩ := (mem_aliasLines_iff h generic l).mp mem
          rw [defines_definitionLine_iff.mp starts]
          exact ⟨d.2, defines⟩
  · rintro ⟨types, defines⟩
    have mem := (mem_aliasLines_iff (c := c) h generic _).mpr ⟨(name, types), defines, rfl⟩
    refine ⟨_, ⟨"    " ++ definitionLine (name, types), .inr ?_, rfl⟩,
      defines_definitionLine_iff.mpr rfl⟩
    rw [if_neg (List.ne_nil_of_mem mem)]
    exact List.mem_append_right _ (List.mem_append_right _ (List.mem_map_of_mem mem))

end Installed

/-! ## Artifacts -/

section Artifact

variable {g : Generator} {s : Snapshot} {m : SourceModule} {a : Artifact}

/-- What is read off the text rendered from some facts is their summary, if there is one and the
module is known. What follows a text with a summary does not matter. -/
theorem summaryOf?_render {c : PassContext} (within : c.policy.WithinLine) {f : Facts}
    (gathered : Facts.gather c s m = .ok f) (generic : ImportPath) {appended : String}
    (whole : appended = "" ∨ (Artifact.render generic f).summary.isSome = true)
    (known : ImportPath → Bool) :
    summaryOf? known ((Artifact.render generic f).content ++ appended) =
      if known m.path then (Artifact.render generic f).summary else none := by
  simp only [Artifact.render] at whole ⊢
  cases installed : m.installed with
  | true =>
    obtain ⟨table, found, rfl⟩ := gather_installed installed gathered
    exact summaryOf?_content_append found generic (marker_within_line within) appended known
  | false =>
    rw [gather_uninstalled _ _ installed] at gathered
    cases gathered
    have nothing : (Facts.ofUninstalled c m).summary.text? = none := rfl
    rw [nothing, ite_self]
    obtain rfl : appended = "" := whole.resolve_right (by simp [nothing])
    rw [String.append_empty]
    exact summaryOf?_uninstalled known c m generic

theorem summaryOf?_artifact_eq (within : g.policy.WithinLine) (h : g.artifact s m = .ok a)
    (known : ImportPath → Bool) :
    summaryOf? known a.content = if known m.path then a.summary else none := by
  obtain ⟨f, gathered, rfl⟩ := artifact_ok h
  have read := summaryOf?_render within gathered g.settings.genericQueryset (.inl rfl) known
  rwa [String.append_empty] at read

theorem summaryOf?_artifact (within : g.policy.WithinLine) (h : g.artifact s m = .ok a)
    {known : ImportPath → Bool} (is_known : known m.path = true) :
    summaryOf? known a.content = a.summary := by
  rw [summaryOf?_artifact_eq within h, if_pos is_known]

/-- Artifacts with one text have one summary. -/
theorem summary_eq_of_content_eq {s₁ s₂ : Snapshot} {m₁ m₂ : SourceModule} {a₁ a₂ : Artifact}
    (within : g.policy.WithinLine) (h₁ : g.artifact s₁ m₁ = .ok a₁)
    (h₂ : g.artifact s₂ m₂ = .ok a₂) (same : a₁.content = a₂.content) :
    a₁.summary = a₂.summary := by
  have read₁ : summaryOf? (fun _ => true) a₁.content = a₁.summary :=
    summaryOf?_artifact within h₁ rfl
  have read₂ : summaryOf? (fun _ => true) a₂.content = a₂.summary :=
    summaryOf?_artifact within h₂ rfl
  rw [← read₁, same, read₂]

/-- The text of an artifact defines just the aliases of its module. -/
theorem definesAlias_artifact_iff (installed : m.installed = true) (within : g.policy.WithinLine)
    (h : g.artifact s m = .ok a) {name : Identifier} :
    DefinesAlias a.content name ↔
      ∃ types, s.Defines g.settings.genericQueryset m name types := by
  obtain ⟨table, found, rfl⟩ := artifact_installed installed h
  simp only [Artifact.render]
  exact definesAlias_content_iff found _ (marker_within_line within)

end Artifact

end VirtualModules
