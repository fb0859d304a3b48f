import VirtualModules.ImportPath

/-!
# The segments of import paths

A path has segments (`segments_ne_nil`) and is determined by them (`ext_segmentChars`). A child of a
path has one segment more than the path, and it determines both the path and that segment
(`child_inj`). A path with a parent is a child of the parent (`parent?_eq_some_iff_child`).
-/

namespace VirtualModules.ImportPath

theorem ext_segmentChars {p q : ImportPath} (h : p.segmentChars = q.segmentChars) : p = q := by
  have texts := congrArg (['.'].intercalate ·) h
  simp only [segmentChars, List.intercalate_splitOn] at texts
  exact ext_text (String.toList_inj.mp texts)

theorem ext_segments {p q : ImportPath} (h : p.segments = q.segments) : p = q :=
  ext_segmentChars ((List.map_inj_right fun _ _ => String.ofList_inj.mp).mp h)

theorem segments_ne_nil (p : ImportPath) : p.segments ≠ [] := by
  simp [segments, segmentChars]

/-- Nothing below a path has just one segment. -/
theorem singleton_ne_segments_append (p : ImportPath) (name : String) {names : List String}
    (more : names ≠ []) : [name] ≠ p.segments ++ names := by
  intro same
  have lengths := congrArg List.length same
  have segments := List.length_pos_iff.mpr p.segments_ne_nil
  have further := List.length_pos_iff.mpr more
  simp only [List.length_append, List.length_singleton] at lengths
  omega

/-- The path of a non-empty list of identifiers. -/
def ofSegmentChars (names : List (List Char)) (nonempty : names ≠ [])
    (valid : ∀ cs ∈ names, isIdentifier cs = true) : ImportPath where
  text := String.ofList (['.'].intercalate names)
  valid := by
    rw [isDotted, String.toList_ofList,
      List.splitOn_intercalate '.' (fun cs h => dot_not_mem_identifier (valid cs h)) nonempty]
    exact List.all_eq_true.mpr valid

theorem segmentChars_ofSegmentChars {names : List (List Char)} (nonempty : names ≠ [])
    (valid : ∀ cs ∈ names, isIdentifier cs = true) :
    (ofSegmentChars names nonempty valid).segmentChars = names := by
  rw [segmentChars, ofSegmentChars, String.toList_ofList,
    List.splitOn_intercalate '.' (fun cs h => dot_not_mem_identifier (valid cs h)) nonempty]

/-! ## Single segments and children -/

/-- The path of one segment. -/
def single (i : Identifier) : ImportPath :=
  ofChars i.chars (by rw [isDotted_of_not_mem (dot_not_mem_identifier i.valid), i.valid])

theorem toList_text_single (i : Identifier) : (single i).text.toList = i.chars :=
  String.toList_ofList

theorem toList_text_child (p : ImportPath) (i : Identifier) :
    (p.child i).text.toList = p.text.toList ++ '.' :: i.chars := by
  simp [child, Identifier.text]

theorem segmentChars_single (i : Identifier) : (single i).segmentChars = [i.chars] := by
  rw [segmentChars, toList_text_single,
    List.splitOn_eq_singleton (dot_not_mem_identifier i.valid)]

theorem segmentChars_child (p : ImportPath) (i : Identifier) :
    (p.child i).segmentChars = p.segmentChars ++ [i.chars] := by
  rw [segmentChars, toList_text_child, List.splitOn_append_cons_self,
    List.splitOn_eq_singleton (dot_not_mem_identifier i.valid)]
  rfl

theorem segments_single (i : Identifier) : (single i).segments = [i.text] := by
  simp [segments, segmentChars_single, Identifier.text]

theorem segments_child (p : ImportPath) (i : Identifier) :
    (p.child i).segments = p.segments ++ [i.text] := by
  simp [segments, segmentChars_child, Identifier.text]

/-- A path has one segment or is a child. -/
theorem single_or_child (p : ImportPath) :
    (∃ i, p = single i) ∨ ∃ (q : ImportPath) (i : Identifier), p = q.child i := by
  obtain ⟨init, last, segments⟩ :=
    List.eq_nil_or_concat p.segmentChars |>.resolve_left p.segmentChars_ne_nil
  rw [List.concat_eq_append] at segments
  have identifiers : ∀ cs ∈ init ++ [last], isIdentifier cs = true := fun cs mem =>
    isIdentifier_of_mem_segmentChars (segments ▸ mem)
  have valid : isIdentifier last = true := identifiers last (by simp)
  by_cases top : init = []
  · refine .inl ⟨⟨last, valid⟩, ext_segmentChars ?_⟩
    rw [segmentChars_single, segments, top, List.nil_append]
  · refine .inr ⟨ofSegmentChars init top fun cs mem =>
      identifiers cs (List.mem_append_left _ mem), ⟨last, valid⟩, ext_segmentChars ?_⟩
    rw [segmentChars_child, segmentChars_ofSegmentChars, segments]

/-- What holds for single segments and passes on to children holds for all paths. -/
theorem child_induction {motive : ImportPath → Prop} (p : ImportPath)
    (single : ∀ i, motive (single i)) (child : ∀ p i, motive p → motive (p.child i)) :
    motive p := by
  generalize size : p.segmentChars.length = n
  induction n generalizing p with
  | zero => exact absurd (List.length_eq_zero_iff.mp size) p.segmentChars_ne_nil
  | succ n ih =>
    rcases single_or_child p with ⟨i, rfl⟩ | ⟨q, i, rfl⟩
    · exact single i
    · refine child q i (ih q ?_)
      rw [segmentChars_child, List.length_append, List.length_singleton] at size
      omega

/-! ## Cuts -/

theorem ofChars_text (p : ImportPath) (valid : isDotted p.text.toList = true) :
    ofChars p.text.toList valid = p :=
  ext_text String.ofList_toList

theorem parent?_single (i : Identifier) : (single i).parent? = none := by
  have undotted := dot_not_mem_identifier i.valid
  simp only [parent?, toList_text_single, cutLast_of_not_mem undotted, Option.pmap_none]

theorem parent?_child (p : ImportPath) (i : Identifier) : (p.child i).parent? = some p := by
  have undotted := dot_not_mem_identifier i.valid
  simp only [parent?, toList_text_child, cutLast_append undotted, Option.pmap_some, ofChars_text]

theorem name_single (i : Identifier) : (single i).name = i := by
  simp only [name, toList_text_single, cutLast_of_not_mem (dot_not_mem_identifier i.valid)]

theorem name_child (p : ImportPath) (i : Identifier) : (p.child i).name = i := by
  simp only [name, toList_text_child, cutLast_append (dot_not_mem_identifier i.valid)]

theorem prefixes_single (i : Identifier) : (single i).prefixes = [single i] := by
  have undotted := dot_not_mem_identifier i.valid
  simp only [prefixes, toList_text_single, beforeDots_of_not_mem undotted, List.pmap_nil]

theorem prefixes_child (p : ImportPath) (i : Identifier) :
    (p.child i).prefixes = p.child i :: p.prefixes := by
  have undotted := dot_not_mem_identifier i.valid
  simp only [prefixes, toList_text_child, beforeDots_append undotted, List.pmap_cons, ofChars_text]

theorem segmentChars_eq_concat_name (p : ImportPath) :
    p.segmentChars = p.segmentChars.dropLast ++ [p.name.chars] := by
  rcases single_or_child p with ⟨i, rfl⟩ | ⟨q, i, rfl⟩
  · rw [segmentChars_single, name_single]
    rfl
  · rw [segmentChars_child, name_child, List.dropLast_concat]

/-- Children are equal only if they are the same child of the same path. -/
theorem child_inj {p q : ImportPath} {i j : Identifier} (h : p.child i = q.child j) :
    p = q ∧ i = j := by
  have names := congrArg name h
  have chars := congrArg segmentChars h
  rw [name_child, name_child] at names
  rw [segmentChars_child, segmentChars_child] at chars
  exact ⟨ext_segmentChars (List.append_inj_left' chars rfl), names⟩

theorem segments_eq_concat_name (p : ImportPath) :
    p.segments = p.segments.dropLast ++ [p.name.text] := by
  have chars := p.segmentChars_eq_concat_name
  rw [segments, ← List.map_dropLast, Identifier.text, ← List.map_singleton, ← List.map_append,
    ← chars]

/-- The parent of a path has all of its segments but the last. -/
theorem parent?_eq_some_iff {p q : ImportPath} :
    p.parent? = some q ↔ p.segmentChars.dropLast = q.segmentChars := by
  rcases single_or_child p with ⟨i, rfl⟩ | ⟨p, i, rfl⟩
  · simp [parent?_single, segmentChars_single, q.segmentChars_ne_nil.symm]
  · rw [parent?_child, segmentChars_child, List.dropLast_concat, Option.some.injEq]
    exact ⟨congrArg segmentChars, ext_segmentChars⟩

/-- A path with a parent is the parent's child of its last segment. -/
theorem parent?_eq_some_iff_child {p q : ImportPath} :
    p.parent? = some q ↔ p = q.child p.name := by
  rcases single_or_child p with ⟨i, rfl⟩ | ⟨p, i, rfl⟩
  · rw [parent?_single]
    refine iff_of_false nofun fun same => ?_
    have segments := congrArg List.length (congrArg segmentChars same)
    have nonempty := List.length_pos_iff.mpr q.segmentChars_ne_nil
    rw [segmentChars_child, segmentChars_single, List.length_append, List.length_singleton,
      List.length_singleton] at segments
    omega
  · rw [parent?_child, name_child, Option.some.injEq]
    exact ⟨congrArg (child · i), fun same => (child_inj same).1⟩

end VirtualModules.ImportPath
