import Mathlib.Data.List.Basic
import VirtualModules.Proofs.ModuleFacts

/-!
# What the text of an artifact determines

The text of an artifact is its marker, its module, its summary and a block of imports and aliases.
Read backwards, the block determines which alias is defined as which union and which paths are
imported (`aliasBlock_eq_iff`), since no type of a union holds a blank and import lines cannot be
taken for alias lines. So two artifacts with one summary have one text exactly if the two modules
have the same aliases (`SameAliases`, `content_ofConcrete_eq_iff`).
-/

namespace VirtualModules

/-! ## Definitions of aliases -/

theorem concreteAlias_text (p : ImportPath) :
    (concreteAlias p).text = "Concrete__" ++ p.name.text := String.ofList_append

theorem querysetAlias_text (p : ImportPath) :
    (querysetAlias p).text = "ConcreteQuerySet__" ++ p.name.text := String.ofList_append

/-- The two aliases of a model, each with the types of its union. -/
def aliasDefinitions (generic model : ImportPath) (concrete : List Model) :
    List (Identifier × SortedSet String) :=
  [(concreteAlias model, .ofList (concrete.map (·.path.text))),
    (querysetAlias model, .ofList (concrete.map (querysetType generic)))]

/-- The line that defines an alias as a union. -/
def definitionLine (d : Identifier × SortedSet String) : String :=
  d.1.text ++ " = " ++ unionType d.2.toList

theorem aliasLines_eq_map (generic model : ImportPath) (concrete : List Model) :
    aliasLines generic model concrete =
      (aliasDefinitions generic model concrete).map definitionLine := rfl

theorem not_mem_querysetType (generic : ImportPath) (m : Model) {c : Char}
    (other : isIdentifierChar c = false) (notDot : c ≠ '.') (notOpen : c ≠ '[')
    (notClose : c ≠ ']') : c ∉ (querysetType generic m).toList := by
  unfold querysetType
  split
  · exact ImportPath.not_mem_text _ other notDot
  · simp [ImportPath.not_mem_text _ other notDot, notOpen, notClose]

/-- What holds for the types of every alias: there is one, and none holds a blank or breaks the
line. -/
theorem types_of_mem_aliasDefinitions {generic model : ImportPath} {concrete : List Model}
    (nonempty : concrete ≠ []) {d : Identifier × SortedSet String}
    (h : d ∈ aliasDefinitions generic model concrete) :
    d.2.toList ≠ [] ∧ ∀ t ∈ d.2.toList, ' ' ∉ t.toList ∧ Unbroken t := by
  obtain ⟨first, rest, rfl⟩ := List.exists_cons_of_ne_nil nonempty
  simp only [aliasDefinitions, List.mem_cons, List.not_mem_nil, or_false] at h
  have inhabited {l : List String} {t : String} (mem : t ∈ l) :
      (SortedSet.ofList l).toList ≠ [] := by
    intro none
    have : t ∈ (SortedSet.ofList l).toList := SortedSet.mem_ofList.mpr mem
    rw [none] at this
    cases this
  rcases h with rfl | rfl
  · refine ⟨inhabited (List.mem_map_of_mem List.mem_cons_self), fun t mem => ?_⟩
    obtain ⟨m, -, rfl⟩ := List.mem_map.mp (SortedSet.mem_ofList.mp mem)
    exact ⟨m.path.not_mem_text rfl (by decide), m.path.unbroken_text⟩
  · refine ⟨inhabited (List.mem_map_of_mem List.mem_cons_self), fun t mem => ?_⟩
    obtain ⟨m, -, rfl⟩ := List.mem_map.mp (SortedSet.mem_ofList.mp mem)
    exact ⟨not_mem_querysetType generic m rfl (by decide) (by decide) (by decide),
      not_mem_querysetType generic m rfl (by decide) (by decide) (by decide),
      not_mem_querysetType generic m rfl (by decide) (by decide) (by decide)⟩

theorem definitionLine_inj {d e : Identifier × SortedSet String}
    (hd : d.2.toList ≠ [] ∧ ∀ t ∈ d.2.toList, ' ' ∉ t.toList ∧ Unbroken t)
    (he : e.2.toList ≠ [] ∧ ∀ t ∈ e.2.toList, ' ' ∉ t.toList ∧ Unbroken t)
    (h : definitionLine d = definitionLine e) : d = e := by
  simp only [definitionLine, unionType, String.append_assoc] at h
  obtain ⟨names, unions⟩ := append_inj_of_first (c := ' ') rfl (d.1.not_mem_text rfl)
    (e.1.not_mem_text rfl) h
  have types := intercalate_bar_inj (fun t mem => (hd.2 t mem).1) (fun t mem => (he.2 t mem).1)
    hd.1 he.1 unions
  exact Prod.ext (Identifier.ext_text names) (SortedSet.ext_toList types)

theorem unbroken_unionType {ts : List String} (h : ∀ t ∈ ts, Unbroken t) :
    Unbroken (unionType ts) := by
  unfold unionType
  induction ts with
  | nil => exact by decide
  | cons t ts ih =>
    have first := h t List.mem_cons_self
    cases ts with
    | nil => simpa using first
    | cons t' ts =>
      have others := ih fun x mem => h x (List.mem_cons_of_mem _ mem)
      rw [String.intercalate_cons_cons]
      exact (first.append (by decide)).append others

theorem unbroken_definitionLine {d : Identifier × SortedSet String}
    (h : ∀ t ∈ d.2.toList, ' ' ∉ t.toList ∧ Unbroken t) : Unbroken (definitionLine d) :=
  (d.1.unbroken_text.append (by decide)).append (unbroken_unionType fun t mem => (h t mem).2)

/-! ## The aliases of a module -/

/-- The artifact of `m` is to define `name` as the union of `types`. -/
def Snapshot.Defines (s : Snapshot) (generic : ImportPath) (m : SourceModule)
    (name : Identifier) (types : SortedSet String) : Prop :=
  ∃ p concrete, s.Aliased m p concrete ∧ (name, types) ∈ aliasDefinitions generic p concrete

/-- The artifact of `m` is to import `path`. -/
def Snapshot.Imports (s : Snapshot) (generic : ImportPath) (m : SourceModule)
    (path : ImportPath) : Prop :=
  ∃ p concrete, s.Aliased m p concrete ∧ path ∈ aliasImports generic p concrete

/-- Two modules define the same aliases as the same unions and import the same paths. -/
structure SameAliases (generic : ImportPath) (s₁ : Snapshot) (m₁ : SourceModule) (s₂ : Snapshot)
    (m₂ : SourceModule) : Prop where
  definitions : ∀ name types,
    s₁.Defines generic m₁ name types ↔ s₂.Defines generic m₂ name types
  imports : ∀ path, s₁.Imports generic m₁ path ↔ s₂.Imports generic m₂ path

section Facts

variable {c : PassContext} {s : Snapshot} {m : SourceModule} {table : ConcreteTable}

theorem mem_aliasLines_iff (h : concreteTable s m = .ok table) (generic : ImportPath)
    (line : String) :
    line ∈ (Facts.ofConcrete c m table).aliasLines generic ↔
      ∃ d, s.Defines generic m d.1 d.2 ∧ definitionLine d = line := by
  simp only [Facts.aliasLines, SortedSet.mem_ofList, List.mem_flatMap, Prod.exists,
    mem_aliased_iff h, aliasLines_eq_map, List.mem_map, Snapshot.Defines]
  constructor
  · rintro ⟨p, concrete, aliased, name, types, mem, rfl⟩
    exact ⟨name, types, ⟨p, concrete, aliased, mem⟩, rfl⟩
  · rintro ⟨name, types, ⟨p, concrete, aliased, mem⟩, rfl⟩
    exact ⟨p, concrete, aliased, name, types, mem, rfl⟩

theorem mem_imports_iff (h : concreteTable s m = .ok table) (generic path : ImportPath) :
    path ∈ (Facts.ofConcrete c m table).imports generic ↔ s.Imports generic m path := by
  simp only [Facts.imports, SortedSet.mem_ofList, List.mem_flatMap, Prod.exists,
    mem_aliased_iff h, Snapshot.Imports]

end Facts

theorem Snapshot.Defines.types {s : Snapshot} {generic : ImportPath} {m : SourceModule}
    {d : Identifier × SortedSet String} (h : s.Defines generic m d.1 d.2) :
    d.2.toList ≠ [] ∧ ∀ t ∈ d.2.toList, ' ' ∉ t.toList ∧ Unbroken t := by
  obtain ⟨p, concrete, ⟨-, -, nonempty⟩, mem⟩ := h
  exact types_of_mem_aliasDefinitions nonempty mem

/-! ## Reading the block backwards -/

/-- Where one kind of items comes first, a list determines its two parts. -/
theorem append_inj_of_kinds {α : Type} (first : α → Bool) {as bs cs ds : List α}
    (ha : ∀ a ∈ as, first a = true) (hb : ∀ b ∈ bs, first b = false)
    (hc : ∀ c ∈ cs, first c = true) (hd : ∀ d ∈ ds, first d = false)
    (h : as ++ bs = cs ++ ds) : as = cs ∧ bs = ds := by
  have firsts := congrArg (List.filter first) h
  have none_b : bs.filter first = [] := List.filter_eq_nil_iff.mpr fun b mem => by simp [hb b mem]
  have none_d : ds.filter first = [] := List.filter_eq_nil_iff.mpr fun d mem => by simp [hd d mem]
  rw [List.filter_append, List.filter_append, List.filter_eq_self.mpr ha,
    List.filter_eq_self.mpr hc, none_b, none_d, List.append_nil, List.append_nil] at firsts
  subst firsts
  exact ⟨rfl, List.append_cancel_left h⟩

/-- Behind the four blanks of an import line stands an `i`, behind those of an alias a `C`. -/
def isImportLine (line : String) : Bool := line.toList[4]? == some 'i'

theorem isImportLine_import (p : ImportPath) : isImportLine ("    import " ++ p.text) = true := by
  simp [isImportLine]

theorem isImportLine_definition {generic p : ImportPath} {concrete : List Model}
    {d : Identifier × SortedSet String} (h : d ∈ aliasDefinitions generic p concrete) :
    isImportLine ("    " ++ definitionLine d) = false := by
  simp only [aliasDefinitions, List.mem_cons, List.not_mem_nil, or_false] at h
  rcases h with rfl | rfl
  · simp [isImportLine, definitionLine, concreteAlias, concreteAliasStart, Identifier.appendName,
      Identifier.append, Identifier.text]
  · simp [isImportLine, definitionLine, querysetAlias, querysetAliasStart, Identifier.appendName,
      Identifier.append, Identifier.text]

section Blocks

variable {c : PassContext} {s : Snapshot} {m : SourceModule} {table : ConcreteTable}

theorem isImportLine_aliasLine (h : concreteTable s m = .ok table) {generic : ImportPath}
    {line : String} (mem : line ∈ (Facts.ofConcrete c m table).aliasLines generic) :
    isImportLine ("    " ++ line) = false ∧ Unbroken line := by
  obtain ⟨d, defines, rfl⟩ := (mem_aliasLines_iff h generic line).mp mem
  have types := defines.types
  obtain ⟨p, concrete, -, hd⟩ := defines
  exact ⟨isImportLine_definition hd, unbroken_definitionLine types.2⟩

theorem imports_eq_empty (h : concreteTable s m = .ok table) {generic : ImportPath}
    (none : ((Facts.ofConcrete c m table).aliasLines generic).toList = []) :
    ((Facts.ofConcrete c m table).imports generic).toList = [] := by
  rw [List.eq_nil_iff_forall_not_mem] at none ⊢
  intro path mem
  obtain ⟨p, concrete, aliased, -⟩ := (mem_imports_iff h generic path).mp mem
  obtain ⟨d, mem_d⟩ : ∃ d, d ∈ aliasDefinitions generic p concrete := ⟨_, List.mem_cons_self⟩
  exact none _ ((mem_aliasLines_iff h generic _).mpr ⟨d, ⟨p, concrete, aliased, mem_d⟩, rfl⟩)

theorem aliasBlock_of_lines (generic : ImportPath) :
    (Facts.ofConcrete c m table).aliasBlock generic =
      if ((Facts.ofConcrete c m table).aliasLines generic).toList = [] then []
      else ["", "if TYPE_CHECKING:"] ++
        (((Facts.ofConcrete c m table).imports generic).toList.map ("    import " ++ ·.text) ++
          ((Facts.ofConcrete c m table).aliasLines generic).toList.map ("    " ++ ·)) := by
  unfold Facts.aliasBlock
  split
  · next none => rw [if_pos none]
  · next some => rw [if_neg some, List.append_assoc]

end Blocks

theorem aliasBlock_inj {c₁ c₂ : PassContext} {s₁ s₂ : Snapshot} {m₁ m₂ : SourceModule}
    {t₁ t₂ : ConcreteTable} (h₁ : concreteTable s₁ m₁ = .ok t₁)
    (h₂ : concreteTable s₂ m₂ = .ok t₂) {generic : ImportPath}
    (h : (Facts.ofConcrete c₁ m₁ t₁).aliasBlock generic =
      (Facts.ofConcrete c₂ m₂ t₂).aliasBlock generic) :
    (Facts.ofConcrete c₁ m₁ t₁).aliasLines generic =
        (Facts.ofConcrete c₂ m₂ t₂).aliasLines generic ∧
      (Facts.ofConcrete c₁ m₁ t₁).imports generic =
        (Facts.ofConcrete c₂ m₂ t₂).imports generic := by
  rw [aliasBlock_of_lines, aliasBlock_of_lines] at h
  split at h
  · next none₁ =>
    split at h
    · next none₂ =>
      exact ⟨SortedSet.ext_toList (none₁.trans none₂.symm), SortedSet.ext_toList
        ((imports_eq_empty h₁ none₁).trans (imports_eq_empty h₂ none₂).symm)⟩
    · cases h
  · split at h
    · cases h
    · have parts := append_inj_of_kinds isImportLine
        (by simp [isImportLine_import]) ?_ (by simp [isImportLine_import]) ?_
        (List.append_cancel_left h)
      · obtain ⟨sameImports, sameLines⟩ := parts
        refine ⟨SortedSet.ext_toList ?_, SortedSet.ext_toList ?_⟩
        · exact List.map_injective_iff.mpr (fun l k e => by simpa using e) sameLines
        · exact List.map_injective_iff.mpr (fun p q e => ImportPath.ext_text (by simpa using e))
            sameImports
      · intro line mem
        obtain ⟨l, hl, rfl⟩ := List.mem_map.mp mem
        exact (isImportLine_aliasLine h₁ hl).1
      · intro line mem
        obtain ⟨l, hl, rfl⟩ := List.mem_map.mp mem
        exact (isImportLine_aliasLine h₂ hl).1

/-- Two blocks are equal exactly if the modules have the same aliases. -/
theorem aliasBlock_eq_iff (c₁ c₂ : PassContext) {s₁ s₂ : Snapshot} {m₁ m₂ : SourceModule}
    {t₁ t₂ : ConcreteTable} (h₁ : concreteTable s₁ m₁ = .ok t₁)
    (h₂ : concreteTable s₂ m₂ = .ok t₂) (generic : ImportPath) :
    (Facts.ofConcrete c₁ m₁ t₁).aliasBlock generic =
        (Facts.ofConcrete c₂ m₂ t₂).aliasBlock generic ↔
      SameAliases generic s₁ m₁ s₂ m₂ := by
  constructor
  · intro h
    obtain ⟨lines, imports⟩ := aliasBlock_inj h₁ h₂ h
    refine ⟨fun name types => ?_, fun path => ?_⟩
    · have transfer : ∀ {sa sb : Snapshot} {ma mb : SourceModule},
          (∀ line, (∃ d, sa.Defines generic ma d.1 d.2 ∧ definitionLine d = line) →
            ∃ d, sb.Defines generic mb d.1 d.2 ∧ definitionLine d = line) →
          sa.Defines generic ma name types → sb.Defines generic mb name types := by
        intro sa sb ma mb step defines
        obtain ⟨d, found, same⟩ := step _ ⟨(name, types), defines, rfl⟩
        have exactly : d = (name, types) :=
          definitionLine_inj found.types (Snapshot.Defines.types (d := (name, types)) defines) same
        rwa [exactly] at found
      constructor
      · apply transfer
        intro line hl
        rwa [← mem_aliasLines_iff (c := c₂) h₂, ← lines, mem_aliasLines_iff h₁]
      · apply transfer
        intro line hl
        rwa [← mem_aliasLines_iff (c := c₁) h₁, lines, mem_aliasLines_iff h₂]
    · rw [← mem_imports_iff (c := c₁) h₁, imports, mem_imports_iff h₂]
  · rintro ⟨definitions, imports⟩
    have lines : (Facts.ofConcrete c₁ m₁ t₁).aliasLines generic =
        (Facts.ofConcrete c₂ m₂ t₂).aliasLines generic := by
      apply SortedSet.ext_mem
      intro line
      rw [mem_aliasLines_iff h₁, mem_aliasLines_iff h₂]
      simp only [definitions]
    have paths : (Facts.ofConcrete c₁ m₁ t₁).imports generic =
        (Facts.ofConcrete c₂ m₂ t₂).imports generic := by
      apply SortedSet.ext_mem
      intro path
      rw [mem_imports_iff h₁, mem_imports_iff h₂, imports]
    simp only [Facts.aliasBlock, lines, paths]

/-! ## The whole text -/

/-- The lines behind the marker. -/
def Facts.tailLines (f : Facts) (generic : ImportPath) : List String :=
  ["    return None", "", Facts.moduleLine f.summary.modulePath,
    Facts.summaryLine f.summary.text?] ++ f.aliasBlock generic

theorem content_eq_append (f : Facts) (generic : ImportPath) :
    f.content generic =
      "from typing import TYPE_CHECKING\n\n" ++ Facts.markerLine (f.marker.getD Facts.emptyMarker) ++
        "\n" ++ String.join ((f.tailLines generic).map (· ++ "\n")) := by
  apply String.toList_inj.mp
  simp [Facts.content, Facts.lines, Facts.headLines, Facts.tailLines, String.toList_join]

section Installed

variable {c : PassContext} {s : Snapshot} {m : SourceModule} {table : ConcreteTable}

theorem unbroken_aliasBlock (h : concreteTable s m = .ok table) (generic : ImportPath) :
    ∀ line ∈ (Facts.ofConcrete c m table).aliasBlock generic, Unbroken line := by
  intro line mem
  rw [aliasBlock_of_lines] at mem
  split at mem
  · cases mem
  · simp only [List.cons_append, List.nil_append, List.mem_cons, List.mem_append,
      List.mem_map] at mem
    rcases mem with rfl | rfl | ⟨p, -, rfl⟩ | ⟨l, hl, rfl⟩
    · decide
    · decide
    · exact Unbroken.append (by decide) p.unbroken_text
    · exact Unbroken.append (by decide) (isImportLine_aliasLine h hl).2

theorem unbroken_moduleLine (p : ImportPath) : Unbroken (Facts.moduleLine p) :=
  (Unbroken.append (by decide) p.unbroken_text).append (by decide)

theorem unbroken_summary {v p : ImportPath} {apps significant : Fingerprint} {summary : String}
    (h : (Summary.mk v p (.installed apps significant)).text? = some summary) :
    Unbroken summary := by
  rw [summaryText_installed, Option.some.injEq] at h
  subst h
  have virtual := (v.unbroken_text.append (t := "::") (by decide)).append p.unbroken_text
  have hashed := (virtual.append (t := "::installed_apps=") (by decide)).append apps.unbroken_toHex
  exact (hashed.append (t := "::significant=") (by decide)).append significant.unbroken_toHex

theorem unbroken_tailLines (h : concreteTable s m = .ok table) (generic : ImportPath) :
    ∀ line ∈ (Facts.ofConcrete c m table).tailLines generic, Unbroken line := by
  intro line mem
  simp only [Facts.tailLines, List.cons_append, List.nil_append, List.mem_cons] at mem
  rcases mem with rfl | rfl | rfl | rfl | mem
  · decide
  · decide
  · exact unbroken_moduleLine _
  · cases text : (Facts.ofConcrete c m table).summary.text? with
    | none => decide
    | some summary =>
      have stated := unbroken_summary (h := text)
      exact (Unbroken.append (by decide) stated).append (by decide)
  · exact unbroken_aliasBlock h generic line mem

end Installed

/-- Texts with one marker and one summary are equal exactly if the modules have the same
aliases. -/
theorem content_ofConcrete_eq_iff {c₁ c₂ : PassContext} {s₁ s₂ : Snapshot}
    {m₁ m₂ : SourceModule} {t₁ t₂ : ConcreteTable} (h₁ : concreteTable s₁ m₁ = .ok t₁)
    (h₂ : concreteTable s₂ m₂ = .ok t₂) (generic : ImportPath)
    (markers : (Facts.ofConcrete c₁ m₁ t₁).marker = (Facts.ofConcrete c₂ m₂ t₂).marker)
    (summaries : (Facts.ofConcrete c₁ m₁ t₁).summary.text? =
      (Facts.ofConcrete c₂ m₂ t₂).summary.text?) :
    (Facts.ofConcrete c₁ m₁ t₁).content generic = (Facts.ofConcrete c₂ m₂ t₂).content generic ↔
      SameAliases generic s₁ m₁ s₂ m₂ := by
  have modules : m₁.path = m₂.path := (summaryText_inj summaries).2.1
  rw [← aliasBlock_eq_iff c₁ c₂ h₁ h₂, content_eq_append, content_eq_append,
    markers]
  constructor
  · intro h
    have joined : String.join (((Facts.ofConcrete c₁ m₁ t₁).tailLines generic).map (· ++ "\n")) =
        String.join (((Facts.ofConcrete c₂ m₂ t₂).tailLines generic).map (· ++ "\n")) := by
      apply String.toList_inj.mp
      simpa only [String.toList_append, List.append_cancel_left_eq] using congrArg String.toList h
    have tails := join_ended_inj (unbroken_tailLines h₁ generic) (unbroken_tailLines h₂ generic)
      joined
    simp only [Facts.tailLines, List.cons_append, List.nil_append, List.cons_eq_cons] at tails
    exact tails.2.2.2.2
  · intro h
    simp only [Facts.tailLines, h, summaries]
    simp [Facts.ofConcrete, modules]

/-- The texts of one generator with one summary are equal exactly if the modules have the same
aliases, since the summary determines the marker. -/
theorem content_of_generator_eq_iff (g : Generator) {s₁ s₂ : Snapshot} {m₁ m₂ : SourceModule}
    {t₁ t₂ : ConcreteTable} (h₁ : concreteTable s₁ m₁ = .ok t₁)
    (h₂ : concreteTable s₂ m₂ = .ok t₂)
    (summaries : (Facts.ofConcrete (g.context s₁) m₁ t₁).summary.text? =
      (Facts.ofConcrete (g.context s₂) m₂ t₂).summary.text?) :
    (Facts.ofConcrete (g.context s₁) m₁ t₁).content g.settings.genericQueryset =
        (Facts.ofConcrete (g.context s₂) m₂ t₂).content g.settings.genericQueryset ↔
      SameAliases g.settings.genericQueryset s₁ m₁ s₂ m₂ := by
  have markers := marker?_congr g.policy summaries
  refine content_ofConcrete_eq_iff h₁ h₂ _ ?_ summaries
  rw [marker_ofConcrete, marker_ofConcrete]
  exact markers

end VirtualModules
