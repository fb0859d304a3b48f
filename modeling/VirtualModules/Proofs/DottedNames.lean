import VirtualModules.Proofs.Namespaces

/-!
# The grammar of import paths

A name is an ASCII letter or an underscore, and ASCII letters, digits and underscores behind it
(`IsName`). A text spells some names if it has a dot between each two of them
(`ImportPath.Spells`). Reading accepts the texts that spell at least one name, each of which spells
only the segments of the path that it gives (`ofString_accepts_iff`).
-/

namespace VirtualModules

/-! ## Characters -/

/-- An ASCII letter. -/
def IsAsciiLetter (c : Char) : Prop := ('A' ≤ c ∧ c ≤ 'Z') ∨ ('a' ≤ c ∧ c ≤ 'z')

/-- An ASCII digit or letter. -/
def IsAsciiAlphanumeric (c : Char) : Prop :=
  ('0' ≤ c ∧ c ≤ '9') ∨ ('A' ≤ c ∧ c ≤ 'Z') ∨ ('a' ≤ c ∧ c ≤ 'z')

instance (c : Char) : Decidable (IsAsciiAlphanumeric c) := inferInstanceAs (Decidable (_ ∨ _))

theorem isAlpha_iff {c : Char} : c.isAlpha = true ↔ IsAsciiLetter c := by
  change (decide ('A' ≤ c ∧ c ≤ 'Z') || ('a' ≤ c && c ≤ 'z')) = true ↔ _
  simp only [Bool.or_eq_true, Bool.and_eq_true, decide_eq_true_eq, IsAsciiLetter]

theorem isAlphanum_iff {c : Char} : c.isAlphanum = true ↔ IsAsciiAlphanumeric c := by
  rw [Char.isAlphanum, Bool.or_eq_true, isAlpha_iff]
  change _ ∨ ('0' ≤ c && c ≤ '9') = true ↔ _
  simp only [Bool.and_eq_true, decide_eq_true_eq, IsAsciiLetter, IsAsciiAlphanumeric]
  tauto

/-! ## Names -/

/-- An ASCII letter or an underscore, followed by ASCII letters, digits and underscores. -/
def IsName (s : String) : Prop :=
  ∃ c rest, s.toList = c :: rest ∧ (IsAsciiLetter c ∨ c = '_') ∧
    ∀ d ∈ rest, IsAsciiAlphanumeric d ∨ d = '_'

theorem isIdentifier_iff {s : String} : isIdentifier s.toList = true ↔ IsName s := by
  have start : ∀ c, isIdentifierStart c = true ↔ IsAsciiLetter c ∨ c = '_' := by
    intro c
    rw [isIdentifierStart, Bool.or_eq_true, beq_iff_eq, isAlpha_iff, or_comm]
  have later : ∀ d, isIdentifierChar d = true ↔ IsAsciiAlphanumeric d ∨ d = '_' := by
    intro d
    rw [isIdentifierChar, Bool.or_eq_true, beq_iff_eq, isAlphanum_iff, or_comm]
  rw [IsName]
  cases s.toList with
  | nil => simp [isIdentifier]
  | cons c rest =>
    simp only [isIdentifier, Bool.and_eq_true, start, List.all_eq_true, later]
    constructor
    · exact fun h => ⟨c, rest, rfl, h⟩
    · rintro ⟨c', rest', same, h⟩
      cases same
      exact h

namespace ImportPath

/-! ## Dotted texts -/

/-- The text is that of at least one name, with dots between them. -/
structure Spells (s : String) (names : List String) : Prop where
  nonempty : names ≠ []
  each : ∀ n ∈ names, IsName n
  text : s = ".".intercalate names

theorem spells_segments (p : ImportPath) : Spells p.text p.segments where
  nonempty := p.segments_ne_nil
  each n mem := by
    obtain ⟨cs, mem_cs, rfl⟩ := List.mem_map.mp mem
    rw [← isIdentifier_iff, String.toList_ofList]
    exact isIdentifier_of_mem_segmentChars mem_cs
  text := by
    have chars : p.segments.map String.toList = p.segmentChars := by simp [segments]
    rw [← String.toList_inj, String.toList_intercalate, chars]
    exact (List.intercalate_splitOn '.').symm

/-- What is spelled is the text of a path with these segments. -/
theorem Spells.exists_path {s : String} {names : List String} (spells : Spells s names) :
    ∃ p : ImportPath, p.text = s ∧ p.segments = names := by
  have identifiers : ∀ cs ∈ names.map String.toList, isIdentifier cs = true := by
    intro cs mem
    obtain ⟨n, mem_n, rfl⟩ := List.mem_map.mp mem
    exact isIdentifier_iff.mpr (spells.each n mem_n)
  have nonempty : names.map String.toList ≠ [] := by simpa using spells.nonempty
  refine ⟨ofSegmentChars _ nonempty identifiers, ?_, ?_⟩
  · rw [spells.text, ← String.toList_inj, String.toList_intercalate]
    exact String.toList_ofList
  · rw [segments, segmentChars_ofSegmentChars, List.map_map]
    simp

/-- The text of a path spells nothing but its segments. -/
theorem spells_text_iff {p : ImportPath} {names : List String} :
    Spells p.text names ↔ names = p.segments := by
  constructor
  · intro spells
    obtain ⟨q, text, rfl⟩ := spells.exists_path
    rw [ext_text text]
  · rintro rfl
    exact p.spells_segments

/-- The segments of two paths, one after the other, are those of a path. -/
theorem exists_segments_append (p r : ImportPath) :
    ∃ q : ImportPath, q.segments = p.segments ++ r.segments := by
  have nonempty : p.segmentChars ++ r.segmentChars ≠ [] :=
    List.append_ne_nil_of_left_ne_nil p.segmentChars_ne_nil _
  have identifiers : ∀ cs ∈ p.segmentChars ++ r.segmentChars, isIdentifier cs = true :=
    fun cs mem => (List.mem_append.mp mem).elim isIdentifier_of_mem_segmentChars
      isIdentifier_of_mem_segmentChars
  refine ⟨ofSegmentChars _ nonempty identifiers, ?_⟩
  rw [segments, segmentChars_ofSegmentChars, List.map_append]
  rfl

/-- A joined text is a path exactly if what was appended is one, and then the segments of both
follow each other. -/
theorem join_eq_ok_iff {p q : ImportPath} {s : String} :
    p.join s = .ok q ↔ ∃ r, ofString s = .ok r ∧ q.segments = p.segments ++ r.segments := by
  have joined : (p.text ++ "." ++ s).toList = p.text.toList ++ '.' :: s.toList := by simp
  have pieces : ∀ r : ImportPath, q.segments = p.segments ++ r.segments ↔
      q.text.toList = p.text.toList ++ '.' :: r.text.toList := by
    intro r
    rw [text_eq_iff, segments, segments, segments, ← List.map_append]
    exact (List.map_injective_iff.mpr fun _ _ => String.ofList_inj.mp).eq_iff
  simp only [join, ofString_eq_ok_iff, pieces, ← String.toList_inj, joined]
  constructor
  · intro whole
    have valid := q.valid
    rw [whole, isDotted_append, Bool.and_eq_true] at valid
    exact ⟨⟨s, valid.2⟩, rfl, whole⟩
  · rintro ⟨r, same, whole⟩
    rw [whole, same]

/-- A text is accepted exactly if it spells at least one name. The names are the segments of the
path that it gives, and no others are spelled by it. A text can be joined to a path exactly if it is
accepted itself, and then its segments follow those of the path. -/
theorem ofString_accepts_iff (s : String) :
    ((∃ p, ofString s = .ok p) ↔ ∃ names, Spells s names) ∧
    (∀ p, ofString s = .ok p → ∀ names, Spells s names ↔ names = p.segments) ∧
    ∀ p : ImportPath,
      ((∃ q, p.join s = .ok q) ↔ ∃ r, ofString s = .ok r) ∧
      ∀ q r, p.join s = .ok q → ofString s = .ok r → q.segments = p.segments ++ r.segments := by
  refine ⟨⟨?_, ?_⟩, ?_, fun p => ⟨⟨?_, ?_⟩, ?_⟩⟩
  · rintro ⟨p, read⟩
    rw [ofString_eq_ok_iff] at read
    exact ⟨p.segments, read ▸ p.spells_segments⟩
  · rintro ⟨names, spells⟩
    obtain ⟨p, text, -⟩ := spells.exists_path
    exact ⟨p, ofString_eq_ok_iff.mpr text⟩
  · intro p read names
    rw [ofString_eq_ok_iff] at read
    rw [← read, spells_text_iff]
  · rintro ⟨q, joined⟩
    obtain ⟨r, read, -⟩ := join_eq_ok_iff.mp joined
    exact ⟨r, read⟩
  · rintro ⟨r, read⟩
    obtain ⟨q, segments⟩ := exists_segments_append p r
    exact ⟨q, join_eq_ok_iff.mpr ⟨r, read, segments⟩⟩
  · intro q r joined read
    obtain ⟨r', read', segments⟩ := join_eq_ok_iff.mp joined
    rw [read] at read'
    cases read'
    exact segments

/-- A path is read from the names that it is spelled with and is joined with another one, but
nothing spells a text with two dots in a row. -/
theorem shop_spelled :
    ∃ p q r : ImportPath,
      ofString "shop._v2" = .ok p ∧ ofString "models.Order1" = .ok r ∧
      p.join "models.Order1" = .ok q ∧ q.segments = ["shop", "_v2", "models", "Order1"] ∧
      (∀ names, Spells "shop._v2" names ↔ names = ["shop", "_v2"]) ∧
      ¬ ∃ names, Spells "shop..v2" names := by
  let shop : ImportPath := ⟨"shop._v2", by decide⟩
  let order : ImportPath := ⟨"models.Order1", by decide⟩
  let whole : ImportPath := ⟨"shop._v2.models.Order1", by decide⟩
  have read : ofString "shop._v2" = .ok shop := rfl
  have read_order : ofString "models.Order1" = .ok order := rfl
  have joined : shop.join "models.Order1" = .ok whole := ofString_eq_ok_iff.mpr (by decide)
  have segments : shop.segments = ["shop", "_v2"] := by decide
  have segments_order : order.segments = ["models", "Order1"] := by decide
  obtain ⟨-, spelled, -⟩ := ofString_accepts_iff "shop._v2"
  obtain ⟨-, -, joins⟩ := ofString_accepts_iff "models.Order1"
  obtain ⟨accepted, -, -⟩ := ofString_accepts_iff "shop..v2"
  refine ⟨shop, whole, order, read, read_order, joined, ?_, ?_, ?_⟩
  · rw [(joins shop).2 whole order joined read_order, segments, segments_order]
    rfl
  · exact segments ▸ spelled shop read
  · rw [← accepted]
    rintro ⟨p, read⟩
    cases read

end ImportPath

end VirtualModules
