import Mathlib.Data.List.Infix
import VirtualModules.Proofs.Paths

/-!
# Paths within namespaces

A path lies within a namespace if its segments begin with those of the namespace
(`ImportPath.LiesWithin`). Both ways to tell this from texts agree with it: `isWithin` looks for the
namespace and a dot at the start of a text (`isWithin_iff`), and `prefixes` lists all namespaces
(`mem_prefixes_iff`).
-/

namespace VirtualModules.ImportPath

/-- The segments of the path begin with those of the namespace. -/
def LiesWithin (p nspace : ImportPath) : Prop := nspace.segments <+: p.segments

theorem liesWithin_iff {p nspace : ImportPath} :
    p.LiesWithin nspace ↔ nspace.segmentChars <+: p.segmentChars :=
  List.prefix_map_iff_of_injective fun _ _ same => String.ofList_inj.mp same

/-- A text that goes on behind a dot has the segments before the dot and those behind it. -/
theorem text_eq_iff {p nspace : ImportPath} {rest : List Char} :
    p.text.toList = nspace.text.toList ++ '.' :: rest ↔
      p.segmentChars = nspace.segmentChars ++ rest.splitOn '.' := by
  have cut : (nspace.text.toList ++ '.' :: rest).splitOn '.' =
      nspace.segmentChars ++ rest.splitOn '.' := List.splitOn_append_cons_self _ _
  rw [← cut, segmentChars]
  constructor
  · exact congrArg (List.splitOn '.')
  · intro same
    have texts := congrArg (['.'].intercalate ·) same
    simpa only [List.intercalate_splitOn] using texts

/-- More segments than a namespace has are what some text behind a dot is cut into. -/
theorem exists_splitOn_eq {p : ImportPath} {names : List (List Char)} (nonempty : names ≠ [])
    (mem : ∀ cs ∈ names, cs ∈ p.segmentChars) : ∃ rest : List Char, rest.splitOn '.' = names :=
  ⟨['.'].intercalate names, List.splitOn_intercalate '.' (fun cs h =>
    dot_not_mem_identifier (isIdentifier_of_mem_segmentChars (mem cs h))) nonempty⟩

theorem isWithin_iff_text {p nspace : ImportPath} :
    p.isWithin nspace = true ↔
      p = nspace ∨ ∃ rest, p.text.toList = nspace.text.toList ++ '.' :: rest := by
  unfold isWithin
  split
  · next no_match =>
    refine iff_of_false nofun ?_
    rintro (rfl | ⟨rest, text⟩)
    · have self := List.isPrefixOf?_eq_some_iff_append_eq.mpr (List.append_nil p.text.toList)
      rw [no_match] at self
      cases self
    · rw [List.isPrefixOf?_eq_some_iff_append_eq.mpr text.symm] at no_match
      cases no_match
  · next whole =>
    rw [List.isPrefixOf?_eq_some_iff_append_eq, List.append_nil] at whole
    exact iff_of_true rfl (.inl (ext_text (String.toList_inj.mp whole.symm)))
  · next c rest cut =>
    rw [List.isPrefixOf?_eq_some_iff_append_eq] at cut
    rw [← cut, beq_iff_eq]
    constructor
    · rintro rfl
      exact .inr ⟨rest, rfl⟩
    · rintro (rfl | ⟨rest', same⟩)
      · simp at cut
      · exact (List.cons_eq_cons.mp (List.append_cancel_left same)).1

/-- The text of a path tells which namespaces it lies within. -/
theorem isWithin_iff {p nspace : ImportPath} : p.isWithin nspace = true ↔ p.LiesWithin nspace := by
  rw [isWithin_iff_text, liesWithin_iff]
  constructor
  · rintro (rfl | ⟨rest, text⟩)
    · exact List.prefix_refl _
    · exact ⟨_, (text_eq_iff.mp text).symm⟩
  · rintro ⟨names, segments⟩
    by_cases none : names = []
    · rw [none, List.append_nil] at segments
      exact .inl (ext_segmentChars segments.symm)
    · obtain ⟨rest, pieces⟩ := exists_splitOn_eq (p := p) none fun cs mem =>
        segments ▸ List.mem_append_right _ mem
      exact .inr ⟨rest, text_eq_iff.mpr (by rw [pieces, segments])⟩

theorem liesWithin_single_iff {i : Identifier} {nspace : ImportPath} :
    (single i).LiesWithin nspace ↔ nspace = single i := by
  rw [liesWithin_iff, segmentChars_single, ← List.nil_append [i.chars], List.prefix_concat_iff,
    List.nil_append, ← segmentChars_single, List.prefix_nil]
  simp only [nspace.segmentChars_ne_nil, or_false]
  exact ⟨ext_segmentChars, congrArg segmentChars⟩

theorem liesWithin_child_iff {p nspace : ImportPath} {i : Identifier} :
    (p.child i).LiesWithin nspace ↔ nspace = p.child i ∨ p.LiesWithin nspace := by
  rw [liesWithin_iff, liesWithin_iff, segmentChars_child, List.prefix_concat_iff,
    ← segmentChars_child]
  exact or_congr ⟨ext_segmentChars, congrArg segmentChars⟩ Iff.rfl

/-- The prefixes of a path are the namespaces that it lies within. -/
theorem mem_prefixes_iff {p nspace : ImportPath} : nspace ∈ p.prefixes ↔ p.LiesWithin nspace := by
  induction p using child_induction with
  | single i => rw [prefixes_single, List.mem_singleton, liesWithin_single_iff]
  | child p i ih => rw [prefixes_child, List.mem_cons, liesWithin_child_iff, ih]

end VirtualModules.ImportPath
