import VirtualModules.Facts
import VirtualModules.Proofs.DottedNames

/-!
# Cuts and extensions of paths

Parents and prefixes are cut out of the text of a path at its dots, and the names of virtual modules
are put together from texts; none of these is read again. Each is told by the segments alone
(`ImportPath.ListsNamespaces`), reading would accept it, and it gives the same path
(`ImportPath.CutsAreRead`). The hash and the path before it can be told from a hashed name
(`ImportPath.hashed_eq_iff`).
-/

namespace VirtualModules

theorem Identifier.text_appendHash (i : Identifier) (hash : UInt64) :
    (i.appendHash hash).text = i.text ++ String.ofList (hexDigits 16 hash.toNat) :=
  String.ofList_append

theorem Identifier.appendHash_inj {i j : Identifier} {hash hash' : UInt64}
    (h : i.appendHash hash = j.appendHash hash') : i = j ∧ hash = hash' := by
  have chars : i.chars ++ hexDigits 16 hash.toNat = j.chars ++ hexDigits 16 hash'.toNat :=
    congrArg Identifier.chars h
  obtain ⟨starts, digits⟩ := List.append_inj' chars (by simp)
  have numbers := hexDigits_inj hash.toNat_lt hash'.toNat_lt digits
  cases i
  cases j
  cases starts
  exact ⟨rfl, UInt64.toNat_inj.mp numbers⟩

namespace ImportPath

/-! ## Parents and names -/

/-- The segments are those of the parent, if there is one, and the name. -/
theorem segments_eq_parent_name (p : ImportPath) :
    p.segments = (p.parent?.map segments).getD [] ++ [p.name.text] := by
  rcases single_or_child p with ⟨i, rfl⟩ | ⟨q, i, rfl⟩
  · rw [segments_single, parent?_single, name_single]
    rfl
  · rw [segments_child, parent?_child, name_child]
    rfl

/-- A path is joined from its parent and its name. -/
theorem join_parent_name {p q : ImportPath} (h : p.parent? = some q) :
    q.join p.name.text = .ok p := by
  have child := parent?_eq_some_iff_child.mp h
  exact ofString_eq_ok_iff.mpr (congrArg text child)

/-! ## Prefixes -/

theorem map_segments_prefixes (p : ImportPath) :
    p.prefixes.map segments = p.segments.inits.tail.reverse := by
  induction p using child_induction with
  | single i => rw [prefixes_single, List.map_singleton, segments_single]; rfl
  | child p i ih =>
    rw [prefixes_child, List.map_cons, ih, segments_child, List.inits_append]
    obtain ⟨first, rest, segments⟩ := List.exists_cons_of_ne_nil p.segments_ne_nil
    simp [segments]

theorem length_prefixes (p : ImportPath) : p.prefixes.length = p.segments.length := by
  induction p using child_induction with
  | single i => rw [prefixes_single, segments_single]; rfl
  | child p i ih =>
    rw [prefixes_child, segments_child, List.length_cons, ih, List.length_append]
    rfl

theorem length_text_child (p : ImportPath) (i : Identifier) :
    p.text.length < (p.child i).text.length := by
  rw [← String.length_toList, ← String.length_toList, toList_text_child, List.length_append,
    List.length_cons]
  omega

theorem length_text_le_of_mem_prefixes {p q : ImportPath} (mem : q ∈ p.prefixes) :
    q.text.length ≤ p.text.length := by
  induction p using child_induction with
  | single i =>
    rw [prefixes_single, List.mem_singleton] at mem
    rw [mem]
  | child p i ih =>
    rw [prefixes_child, List.mem_cons] at mem
    rcases mem with rfl | mem
    · exact Nat.le_refl _
    · have shorter := ih mem
      have longer := p.length_text_child i
      omega

/-- Each prefix of a path is shorter than those listed before it. -/
theorem prefixes_shortening (p : ImportPath) :
    p.prefixes.Pairwise fun a b => b.text.length < a.text.length := by
  induction p using child_induction with
  | single i => rw [prefixes_single]; exact List.pairwise_singleton _ _
  | child p i ih =>
    rw [prefixes_child, List.pairwise_cons]
    refine ⟨fun q mem => ?_, ih⟩
    have shorter := length_text_le_of_mem_prefixes mem
    have longer := p.length_text_child i
    omega

/-- The prefixes are the path and all its namespaces: they have the leading runs of its segments,
one for each number of segments, from all of them down to one. -/
structure ListsNamespaces (p : ImportPath) : Prop where
  first : p.prefixes.head? = some p
  segments : p.prefixes.map segments = p.segments.inits.tail.reverse
  length : p.prefixes.length = p.segments.length
  shortening : p.prefixes.Pairwise fun a b => b.text.length < a.text.length

theorem listsNamespaces (p : ImportPath) : p.ListsNamespaces :=
  ⟨rfl, p.map_segments_prefixes, p.length_prefixes, p.prefixes_shortening⟩

/-! ## Reading what is cut out -/

/-- Reading accepts what is cut out of the text of a path or put together behind it, and gives the
path that stands for it. -/
structure CutsAreRead (p : ImportPath) : Prop where
  parent : (cutLast p.text.toList).1.map (fun cs => ofString (.ofList cs)) = p.parent?.map .ok
  prefixes : (p.text.toList :: beforeDots p.text.toList).map (fun cs => ofString (.ofList cs)) =
    p.prefixes.map .ok
  hashed : ∀ (start : Identifier) (hash : UInt64),
    ofString (p.text ++ "." ++ start.text ++ .ofList (hexDigits 16 hash.toNat)) =
      .ok (p.child (start.appendHash hash))
  virtual : ∀ module : ImportPath,
    ofString (p.text ++ ".mod_" ++ .ofList (hexDigits 16 (shortHash (.ofText module.text)).toNat)) =
      .ok (virtualPath p module)

theorem ofString_toList_text (p : ImportPath) : ofString (.ofList p.text.toList) = .ok p := by
  rw [String.ofList_toList, ofString_text]

theorem ofString_hashed (p : ImportPath) (start : Identifier) (hash : UInt64) :
    ofString (p.text ++ "." ++ start.text ++ .ofList (hexDigits 16 hash.toNat)) =
      .ok (p.child (start.appendHash hash)) := by
  rw [ofString_eq_ok_iff]
  change p.text ++ "." ++ (start.appendHash hash).text = _
  rw [start.text_appendHash, ← String.append_assoc]

theorem cutsAreRead (p : ImportPath) : p.CutsAreRead where
  parent := by
    rcases single_or_child p with ⟨i, rfl⟩ | ⟨q, i, rfl⟩
    · rw [toList_text_single, cutLast_of_not_mem (dot_not_mem_identifier i.valid), parent?_single]
      rfl
    · rw [toList_text_child, cutLast_append (dot_not_mem_identifier i.valid), parent?_child]
      exact congrArg some q.ofString_toList_text
  prefixes := by
    induction p using child_induction with
    | single i =>
      rw [prefixes_single, List.map_cons, ofString_toList_text, toList_text_single,
        beforeDots_of_not_mem (dot_not_mem_identifier i.valid)]
      rfl
    | child p i ih =>
      rw [prefixes_child, List.map_cons, ofString_toList_text, toList_text_child,
        beforeDots_append (dot_not_mem_identifier i.valid), ih]
      rfl
  hashed := p.ofString_hashed
  virtual module := by
    have start : p.text ++ ".mod_" = p.text ++ "." ++ virtualNameStart.text := by
      rw [String.append_assoc]
      rfl
    rw [start]
    exact p.ofString_hashed virtualNameStart _

/-! ## Hashed names -/

/-- Hashed names are equal only if they have the same hash behind the same start in one
namespace. -/
theorem hashed_eq_iff {p q : ImportPath} {i j : Identifier} {hash hash' : UInt64} :
    p.child (i.appendHash hash) = q.child (j.appendHash hash') ↔ p = q ∧ i = j ∧ hash = hash' := by
  constructor
  · intro same
    obtain ⟨paths, names⟩ := child_inj same
    exact ⟨paths, Identifier.appendHash_inj names⟩
  · rintro ⟨rfl, rfl, rfl⟩
    rfl

/-! ## All operations -/

/-- Every operation on paths agrees with their segments: a path is within a namespace exactly if its
segments begin with those of the namespace, and exactly if the namespace is one of its prefixes.
Prefixes list the path and its namespaces, whatever is cut out or put together without reading would
be read as the same path, a parent joined with the name is the path again, and hashed names are told
apart. -/
theorem operations_by_segments (p nspace : ImportPath) :
    (p.isWithin nspace = true ↔ nspace.segments <+: p.segments) ∧
    (p.isWithin nspace = true ↔ nspace ∈ p.prefixes) ∧
    p.ListsNamespaces ∧
    p.CutsAreRead ∧
    p.segments = (p.parent?.map segments).getD [] ++ [p.name.text] ∧
    (∀ q, p.parent? = some q → q.join p.name.text = .ok p) ∧
    ∀ (i j : Identifier) (hash hash' : UInt64),
      p.child (i.appendHash hash) = nspace.child (j.appendHash hash') ↔
        p = nspace ∧ i = j ∧ hash = hash' :=
  ⟨isWithin_iff, isWithin_iff.trans mem_prefixes_iff.symm, p.listsNamespaces, p.cutsAreRead,
    p.segments_eq_parent_name, fun _ => join_parent_name, fun _ _ _ _ => hashed_eq_iff⟩

/-- A path lies outside a namespace of which one of its segments begins with the last one, and is
joined again from its parent and its name. -/
theorem similar_outside :
    ∃ p q nspace : ImportPath,
      p.text = "app.models2.Parent" ∧ nspace.text = "app.models" ∧
      p.parent? = some q ∧ p.name.text = "Parent" ∧ q.join "Parent" = .ok p ∧
      ¬ nspace.segments <+: p.segments ∧ nspace ∉ p.prefixes ∧ p.prefixes.length = 3 := by
  let p : ImportPath := ⟨"app.models2.Parent", by decide⟩
  let q : ImportPath := ⟨"app.models2", by decide⟩
  let nspace : ImportPath := ⟨"app.models", by decide⟩
  have parent : p.parent? = some q := by decide
  have name : p.name.text = "Parent" := by decide
  have outside : ¬ p.isWithin nspace = true := by decide
  obtain ⟨by_segments, by_prefixes, lists, -, -, joins, -⟩ := operations_by_segments p nspace
  refine ⟨p, q, nspace, rfl, rfl, parent, name, ?_, ?_, ?_, ?_⟩
  · rw [← name]
    exact joins q parent
  · rwa [← by_segments]
  · rwa [← by_prefixes]
  · exact lists.length.trans (by decide)

end ImportPath

end VirtualModules
