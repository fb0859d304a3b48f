import VirtualModules.Proofs.Framing
import VirtualModules.Proofs.StoredReports
import VirtualModules.Proofs.UninstalledModules

/-!
# Fingerprints of significant paths

The summary of an installed module states the fingerprint of a stream of bytes that stands for the
paths that are significant for the module (`Snapshot.Significant`) and for nothing else: two modules
have one stream exactly if the same paths are significant for both (`significantBytes_eq_iff`). The
stream frames the texts of the paths in ascending order, and framing keeps any parts apart, also
empty ones and those that look like framed parts themselves (`framing_injective`).
-/

namespace VirtualModules

/-! ## What is significant -/

/-- A path is significant for a module if one of its models has the path, as its own, as its
queryset or at the other end of a field, or if a concrete descendant of one of its models has it, as
its own or as its queryset. -/
inductive Snapshot.Significant (s : Snapshot) (m : SourceModule) : ImportPath → Prop
  | model {a : Model} (mem : a ∈ m.models.values) : s.Significant m a.path
  | queryset {a : Model} {path : ImportPath} (mem : a ∈ m.models.values)
      (custom : a.customQueryset = some path) : s.Significant m path
  | related {a : Model} {field : Field} {path : ImportPath} (mem : a ∈ m.models.values)
      (held : field ∈ a.fields.values) (other : field.relatedModel = some path) :
      s.Significant m path
  | descendant {a d : Model} {concrete : List Model} (mem : a ∈ m.models.values)
      (found : s.concreteModels a.path = .ok concrete) (descends : d ∈ concrete) :
      s.Significant m d.path
  | descendantQueryset {a d : Model} {concrete : List Model} {path : ImportPath}
      (mem : a ∈ m.models.values) (found : s.concreteModels a.path = .ok concrete)
      (descends : d ∈ concrete) (custom : d.customQueryset = some path) : s.Significant m path

theorem mem_relatedPaths_iff {m : SourceModule} {path : ImportPath} :
    path ∈ relatedPaths m ↔ ∃ a ∈ m.models.values, a.path = path ∨ a.customQueryset = some path ∨
      ∃ field ∈ a.fields.values, field.relatedModel = some path := by
  simp only [relatedPaths, Model.relatedModels, SortedSet.mem_ofList, List.mem_flatMap,
    List.mem_append, List.mem_cons, Option.mem_toList, List.mem_filterMap, or_assoc,
    eq_comm (a := path)]

/-- The paths whose change is to be noticed are the significant ones. -/
theorem mem_significantPaths_iff {s : Snapshot} {m : SourceModule} {table : ConcreteTable}
    (h : concreteTable s m = .ok table) (path : ImportPath) :
    path ∈ significantPaths m table ↔ s.Significant m path := by
  rw [significantPaths, SortedSet.mem_union, mem_relatedPaths_iff, mem_descendantPaths_iff h]
  constructor
  · rintro (⟨a, mem, rfl | custom | ⟨field, held, other⟩⟩ |
      ⟨_, concrete, ⟨⟨a, mem, rfl⟩, found, -⟩, d, descends, rfl | custom⟩)
    · exact .model mem
    · exact .queryset mem custom
    · exact .related mem held other
    · exact .descendant mem found descends
    · exact .descendantQueryset mem found descends custom
  · intro significant
    cases significant with
    | model mem => exact .inl ⟨_, mem, .inl rfl⟩
    | queryset mem custom => exact .inl ⟨_, mem, .inr (.inl custom)⟩
    | related mem held other => exact .inl ⟨_, mem, .inr (.inr ⟨_, held, other⟩)⟩
    | descendant mem found descends =>
      exact .inr ⟨_, _, Snapshot.aliased_of_mem mem found descends, _, descends, .inl rfl⟩
    | descendantQueryset mem found descends custom =>
      exact .inr ⟨_, _, Snapshot.aliased_of_mem mem found descends, _, descends, .inr custom⟩

/-! ## Streams -/

/-- The bytes that the fingerprint of the significant paths is made of. -/
def Facts.significantBytes (f : Facts) : Bytes :=
  frame (pathParts (significantPaths f.module f.concrete))

theorem pathParts_inj {paths paths' : SortedSet ImportPath}
    (h : pathParts paths = pathParts paths') : paths = paths' := by
  refine SortedSet.ext_toList ((List.map_inj_right ?_).mp h)
  intro p q same
  exact ImportPath.ext_text (ofText_inj same)

theorem short_pathParts {paths : SortedSet ImportPath} (fits : ∀ p ∈ paths, Stored.PathFits p) :
    ∀ part ∈ pathParts paths, part.length < 2 ^ 64 := by
  intro part mem
  obtain ⟨p, listed, rfl⟩ := List.mem_map.mp mem
  exact fits p listed

section Streams

variable {c c₁ c₂ : PassContext} {s s₁ s₂ : Snapshot} {m m₁ m₂ : SourceModule} {f f₁ f₂ : Facts}

/-- The summary of an installed module states the fingerprint of its stream. -/
theorem state_of_gather (installed : m.installed = true) (gathered : Facts.gather c s m = .ok f) :
    f.summary.state = .installed c.apps (.ofBytes f.significantBytes) := by
  obtain ⟨table, -, rfl⟩ := gather_installed installed gathered
  rfl

/-- The stream of an installed module is made of the significant paths. -/
theorem significant_of_gather (installed : m.installed = true)
    (gathered : Facts.gather c s m = .ok f) (path : ImportPath) :
    path ∈ significantPaths f.module f.concrete ↔ s.Significant m path := by
  obtain ⟨table, found, rfl⟩ := gather_installed installed gathered
  exact mem_significantPaths_iff found path

/-- Two installed modules have one stream exactly if the same paths are significant for both. -/
theorem significantBytes_eq_iff (installed₁ : m₁.installed = true)
    (installed₂ : m₂.installed = true) (gathered₁ : Facts.gather c₁ s₁ m₁ = .ok f₁)
    (gathered₂ : Facts.gather c₂ s₂ m₂ = .ok f₂)
    (fits₁ : ∀ p, s₁.Significant m₁ p → Stored.PathFits p)
    (fits₂ : ∀ p, s₂.Significant m₂ p → Stored.PathFits p) :
    f₁.significantBytes = f₂.significantBytes ↔
      ∀ p, s₁.Significant m₁ p ↔ s₂.Significant m₂ p := by
  have members₁ := significant_of_gather installed₁ gathered₁
  have members₂ := significant_of_gather installed₂ gathered₂
  constructor
  · intro same p
    have short₁ := short_pathParts fun q mem => fits₁ q ((members₁ q).mp mem)
    have short₂ := short_pathParts fun q mem => fits₂ q ((members₂ q).mp mem)
    have sets := pathParts_inj (frame_inj short₁ short₂ same)
    rw [← members₁, ← members₂, sets]
  · intro same
    -- a set lists its paths in ascending order, so the members alone determine the stream
    have sets : significantPaths f₁.module f₁.concrete = significantPaths f₂.module f₂.concrete :=
      SortedSet.ext_mem fun p => by rw [members₁, members₂, same]
    rw [Facts.significantBytes, Facts.significantBytes, sets]

end Streams

/-- The fingerprint of some parts is that of the stream that frames them, and no two sequences of
parts have one stream, as long as each part is shorter than 2^64 bytes. The summaries of two
installed modules state the fingerprints of such streams. If the paths are that short, too, as every
text in memory is, the streams are equal if and only if the same paths are significant for both
modules. -/
theorem framing_injective :
    (∀ parts : List Bytes, Fingerprint.ofParts parts = .ofBytes (frame parts)) ∧
    (∀ parts parts' : List Bytes, (∀ part ∈ parts, part.length < 2 ^ 64) →
      (∀ part ∈ parts', part.length < 2 ^ 64) → (frame parts = frame parts' ↔ parts = parts')) ∧
    ∀ (c₁ c₂ : PassContext) (s₁ s₂ : Snapshot) (m₁ m₂ : SourceModule) (f₁ f₂ : Facts),
      m₁.installed = true → m₂.installed = true →
      Facts.gather c₁ s₁ m₁ = .ok f₁ → Facts.gather c₂ s₂ m₂ = .ok f₂ →
      f₁.summary.state = .installed c₁.apps (.ofBytes f₁.significantBytes) ∧
      f₂.summary.state = .installed c₂.apps (.ofBytes f₂.significantBytes) ∧
      ((∀ p, s₁.Significant m₁ p → Stored.PathFits p) →
        (∀ p, s₂.Significant m₂ p → Stored.PathFits p) →
        (f₁.significantBytes = f₂.significantBytes ↔
          ∀ p, s₁.Significant m₁ p ↔ s₂.Significant m₂ p)) := by
  refine ⟨fun _ => rfl, fun parts parts' short short' => ?_, ?_⟩
  · exact ⟨frame_inj short short', congrArg frame⟩
  · intro c₁ c₂ s₁ s₂ m₁ m₂ f₁ f₂ installed₁ installed₂ gathered₁ gathered₂
    exact ⟨state_of_gather installed₁ gathered₁, state_of_gather installed₂ gathered₂,
      significantBytes_eq_iff installed₁ installed₂ gathered₁ gathered₂⟩

namespace Adoption

/-- For the parents' module its models and the child are significant, whichever of the models the
child descends from. -/
theorem significant_parents {parent : ImportPath} (h : parent = first ∨ parent = second)
    (p : ImportPath) :
    (adoption parent).Significant parentModule p ↔ p = first ∨ p = second ∨ p = child := by
  rcases h with rfl | rfl
  · have listed : (significantPaths parentModule
        (.ofList [(first, [childOf first]), (second, [])])).toList = [first, second, child] := rfl
    rw [← mem_significantPaths_iff concreteTable_first, ← SortedSet.mem_toList, listed]
    simp
  · have listed : (significantPaths parentModule
        (.ofList [(first, []), (second, [childOf second])])).toList = [first, second, child] := rfl
    rw [← mem_significantPaths_iff concreteTable_second, ← SortedSet.mem_toList, listed]
    simp

theorem concreteTable_child : concreteTable (adoption first) (childModuleOf first true) =
    .ok (.ofList [(child, [childOf first])]) := rfl

/-- For the child's module the child alone is: an ancestor is not. -/
theorem significant_child (p : ImportPath) :
    (adoption first).Significant (childModuleOf first true) p ↔ p = child := by
  have listed : (significantPaths (childModuleOf first true)
      (.ofList [(child, [childOf first])])).toList = [child] := rfl
  rw [← mem_significantPaths_iff concreteTable_child, ← SortedSet.mem_toList, listed]
  simp

theorem models_fit {p : ImportPath} (h : p = first ∨ p = second ∨ p = child) :
    Stored.PathFits p := by
  rcases h with rfl | rfl | rfl
  · exact (by decide : (Bytes.ofText "app.models.A").length < 2 ^ 64)
  · exact (by decide : (Bytes.ofText "app.models.B").length < 2 ^ 64)
  · exact (by decide : (Bytes.ofText "ext.models.X").length < 2 ^ 64)

theorem parents_fit {parent : ImportPath} (h : parent = first ∨ parent = second) (p : ImportPath)
    (significant : (adoption parent).Significant parentModule p) : Stored.PathFits p :=
  models_fit ((significant_parents h p).mp significant)

theorem child_fits (p : ImportPath)
    (significant : (adoption first).Significant (childModuleOf first true) p) :
    Stored.PathFits p :=
  models_fit (.inr (.inr ((significant_child p).mp significant)))

/-- An empty part behind another one. -/
def emptyLast : List Bytes := [.ofText "ab", []]

/-- Two parts are told from the one part that is their stream. The stream of the parents' module
stays when the child changes its parent, and that of the child's module is another one. -/
theorem adoption_framed :
    ((∀ part ∈ emptyLast, part.length < 2 ^ 64) ∧
      (∀ part ∈ [frame emptyLast], part.length < 2 ^ 64) ∧
      frame emptyLast ≠ frame [frame emptyLast]) ∧
    (parentModule.installed = true ∧ (childModuleOf first true).installed = true ∧
      (∀ p, (adoption first).Significant parentModule p → Stored.PathFits p) ∧
      (∀ p, (adoption second).Significant parentModule p → Stored.PathFits p) ∧
      ∀ p, (adoption first).Significant (childModuleOf first true) p → Stored.PathFits p) ∧
    ∃ f₁ f₂ f₃,
      Facts.gather (generator.context (adoption first)) (adoption first) parentModule = .ok f₁ ∧
      Facts.gather (generator.context (adoption second)) (adoption second) parentModule = .ok f₂ ∧
      Facts.gather (generator.context (adoption first)) (adoption first)
        (childModuleOf first true) = .ok f₃ ∧
      f₁.significantBytes = f₂.significantBytes ∧ f₁.significantBytes ≠ f₃.significantBytes := by
  obtain ⟨-, apart, streams⟩ := framing_injective
  have short : ∀ part ∈ emptyLast, part.length < 2 ^ 64 := by decide
  have short' : ∀ part ∈ [frame emptyLast], part.length < 2 ^ 64 := by decide
  have fits₁ := parents_fit (.inl rfl)
  have fits₂ := parents_fit (.inr rfl)
  have gathered₁ := gather_of_concreteTable (generator.context (adoption first)) rfl
    concreteTable_first
  have gathered₂ := gather_of_concreteTable (generator.context (adoption second)) rfl
    concreteTable_second
  have gathered₃ := gather_of_concreteTable (generator.context (adoption first)) rfl
    concreteTable_child
  refine ⟨⟨short, short', fun same => ?_⟩, ⟨rfl, rfl, fits₁, fits₂, child_fits⟩, _, _, _,
    gathered₁, gathered₂, gathered₃, ?_, fun same => ?_⟩
  · exact absurd ((apart _ _ short short').mp same) (by decide)
  · obtain ⟨-, -, stream_iff⟩ := streams _ _ _ _ _ _ _ _ rfl rfl gathered₁ gathered₂
    refine (stream_iff fits₁ fits₂).mpr fun p => ?_
    rw [significant_parents (.inl rfl), significant_parents (.inr rfl)]
  · obtain ⟨-, -, stream_iff⟩ := streams _ _ _ _ _ _ _ _ rfl rfl gathered₁ gathered₃
    have here : (adoption first).Significant parentModule first :=
      (significant_parents (.inl rfl) first).mpr (.inl rfl)
    have there := ((stream_iff fits₁ child_fits).mp same first).mp here
    exact absurd ((significant_child first).mp there) (by decide)

end Adoption

end VirtualModules
