import VirtualModules.Proofs.ArtifactFiles
import VirtualModules.Proofs.Lines

/-!
# Files that keep out of each other's way

Where the extension is not empty and has no slash, the path of an artifact's file has the names of
its location for parts (`parts_artifactFile`), each of them plain
(`isPlainName_of_mem_artifactFile`). Different virtual modules have files that are different and do
not lie below each other (`artifactFile_inj`, `DottedLast.eq_of_isPrefix`). The file of an artifact
below a root is the one in which a resolver looks for its module there (`moduleFile_eq`).
-/

namespace VirtualModules

/-- A name that leads to something directly below where it is taken from. -/
structure IsPlainName (name : String) : Prop where
  nonempty : name ≠ ""
  not_here : name ≠ "."
  not_upward : name ≠ ".."
  no_slash : '/' ∉ name.toList

/-- The location lies below the root and is not the root itself. -/
def StrictlyInside (root loc : Location) : Prop :=
  ∃ names, names ≠ [] ∧ (∀ name ∈ names, IsPlainName name) ∧ loc = root ++ names

/-! ## Names of files -/

section Extension

variable {extension : String}

/-- Paths are told apart by the files of their artifacts. -/
theorem artifactFile_inj {p q : ImportPath}
    (h : artifactFile extension p = artifactFile extension q) : p = q := by
  rw [artifactFile_eq, artifactFile_eq] at h
  obtain ⟨inits, lasts⟩ := List.append_inj' h (by simp)
  have names := withExtension_text_inj (List.singleton_inj.mp lasts)
  refine ImportPath.ext_segments ?_
  rw [p.segments_eq_concat_name, q.segments_eq_concat_name, inits, names]

/-- The file of a module below a root is that of an artifact with its path. -/
theorem moduleFile_eq (root : Location) (extension : String) (p : ImportPath) :
    Resolver.moduleFile root extension p = root ++ artifactFile extension p := by
  rw [Resolver.moduleFile, setExtension_append_segments, artifactFile_eq]

theorem artifactFile_ne_nil (extension : String) (p : ImportPath) :
    artifactFile extension p ≠ [] := by
  rw [artifactFile_eq]
  simp

variable (one_part : '/' ∉ extension.toList)

include one_part

theorem slash_not_mem_withExtension (i : Identifier) :
    '/' ∉ (withExtension i.text extension).toList := by
  have in_name : '/' ∉ i.text.toList := i.not_mem_text rfl
  rw [withExtension_text]
  split
  · exact in_name
  · simp only [String.toList_append, List.mem_append, not_or]
    exact ⟨⟨in_name, by decide⟩, one_part⟩

theorem isPlainName_of_mem_artifactFile {p : ImportPath} :
    ∀ name ∈ artifactFile extension p, IsPlainName name := by
  intro name mem
  obtain ⟨part, not_upward⟩ := plain_artifactFile extension p name mem
  have no_slash : '/' ∉ name.toList := by
    rw [artifactFile_eq, List.mem_append, List.mem_singleton] at mem
    rcases mem with mem | rfl
    · obtain ⟨cs, mem_cs, rfl⟩ := List.mem_map.mp (List.dropLast_subset _ mem)
      exact Identifier.not_mem_text ⟨cs, ImportPath.isIdentifier_of_mem_segmentChars mem_cs⟩ rfl
    · exact slash_not_mem_withExtension one_part p.name
  simp only [FilePath.isBlankPart, Bool.or_eq_false_iff, decide_eq_false_iff_not] at part
  exact ⟨part.1, part.2, not_upward, no_slash⟩

/-- The path that is written for the location of a file has its names for parts. -/
theorem parts_artifactFile (p : ImportPath) :
    FilePath.parts ⟨"/".intercalate (artifactFile extension p)⟩ = artifactFile extension p := by
  have pieces : ((artifactFile extension p).map String.toList) ≠ [] := by
    simpa using artifactFile_ne_nil extension p
  have undivided : ∀ cs ∈ (artifactFile extension p).map String.toList, '/' ∉ cs := by
    intro cs mem
    obtain ⟨name, mem_name, rfl⟩ := List.mem_map.mp mem
    exact (isPlainName_of_mem_artifactFile one_part name mem_name).no_slash
  rw [FilePath.parts, String.toList_intercalate]
  change ((['/'].intercalate _).splitOn '/').map String.ofList = _
  rw [List.splitOn_intercalate '/' undivided pieces, List.map_map]
  simp

end Extension

/-! ## Files below roots -/

/-- With an extension that has no slash, as one of letters and digits has none, different virtual
modules have different files, of which none is a directory above another. The parts of their paths
are plain names, so staging finds each of them strictly inside every root, and there a resolver
looks for the module of the same path. -/
theorem artifactFiles_separate {extension : String} (nonempty : extension ≠ "")
    (one_part : '/' ∉ extension.toList) :
    (∀ p q, p ≠ q →
      artifactFile extension p ≠ artifactFile extension q ∧
      ¬ artifactFile extension p <+: artifactFile extension q ∧
      ¬ artifactFile extension q <+: artifactFile extension p) ∧
    (∀ p, FilePath.parts ⟨"/".intercalate (artifactFile extension p)⟩ = artifactFile extension p ∧
      ∀ name ∈ artifactFile extension p, IsPlainName name) ∧
    (∀ (summaries : Table Location (Option String)) (root : Location) (p : ImportPath),
      ∃ target, (Staging.mk extension summaries).locate root p = .ok target ∧
        target = root ++ artifactFile extension p ∧ StrictlyInside root target) ∧
    (∀ root p, Resolver.moduleFile root extension p = root ++ artifactFile extension p) ∧
    ∀ (t : FileTree) (roots : List Location) (p : ImportPath),
      Resolver.ofSearchPaths roots extension t p = roots.any fun root =>
        t.isFile (root ++ artifactFile extension p) ||
          t.isFile (Resolver.packageFile root extension p) := by
  have plain : ∀ p, ∀ name ∈ artifactFile extension p, IsPlainName name := fun _ =>
    isPlainName_of_mem_artifactFile one_part
  have dotted := dottedLast_artifactFile nonempty
  refine ⟨fun p q differ => ⟨?_, ?_, ?_⟩, fun p => ⟨parts_artifactFile one_part p, plain p⟩,
    fun summaries root p => ?_, fun root p => moduleFile_eq root extension p,
    fun t roots p => ?_⟩
  · exact fun same => differ (artifactFile_inj same)
  · exact fun above => differ (artifactFile_inj ((dotted p).eq_of_isPrefix (dotted q) above))
  · exact fun above => differ (artifactFile_inj ((dotted q).eq_of_isPrefix (dotted p) above)).symm
  · exact ⟨_, Staging.locate_eq _ root p, rfl, _, artifactFile_ne_nil extension p, plain p, rfl⟩
  · simp only [Resolver.ofSearchPaths, moduleFile_eq]

/-- A virtual module and one that it is the namespace of have separate files. -/
theorem nested_separate :
    ∃ p q : ImportPath, p.text = "virtual.app" ∧ q.text = "virtual.app.py" ∧ p ≠ q ∧
      artifactFile "py" p = ["virtual", "app.py"] ∧
      ¬ artifactFile "py" p <+: artifactFile "py" q ∧
      (Staging.new "py").locate ["scratch"] q = .ok ["scratch", "virtual", "app", "py.py"] ∧
      StrictlyInside ["scratch"] ["scratch", "virtual", "app", "py.py"] := by
  let p : ImportPath := ⟨"virtual.app", by decide⟩
  let q : ImportPath := p.child ⟨"py".toList, by decide⟩
  have one_part : '/' ∉ "py".toList := by decide
  have differ : p ≠ q := by decide
  have file : artifactFile "py" p = ["virtual", "app.py"] := by decide
  have file_q : artifactFile "py" q = ["virtual", "app", "py.py"] := by
    rw [artifactFile_child]
    decide
  obtain ⟨separate, -, inside, -⟩ := artifactFiles_separate (by decide) one_part
  obtain ⟨target, located, rfl, strictly⟩ := inside ∅ ["scratch"] q
  rw [file_q] at located strictly
  exact ⟨p, q, rfl, rfl, differ, file, (separate p q differ).2.1, located, strictly⟩

end VirtualModules
