import VirtualModules.Install
import VirtualModules.Proofs.MakingDirectories
import VirtualModules.Proofs.Paths

/-!
# Where artifacts lie

The file of a virtual module lies directly in the directory of its namespace
(`artifactFile_child`). All its names are plain (`plain_artifactFile`), so it is staged below every
root (`Staging.locate_eq`). Virtual modules of one namespace have different files
(`artifactFile_child_inj`). With an extension, the last name of a file is the only one with a dot
(`dottedLast_artifactFile`), so no file lies below another one (`DottedLast.eq_of_isPrefix`) and
none is in the place of a directory above (`DottedLast.ne_undotted`).
-/

namespace VirtualModules

/-! ## Plain names -/

/-- A name that starts with something else than a dot is plain. -/
theorem plain_of_start {name : String} {c : Char} {rest : List Char}
    (starts : name.toList = c :: rest) (notDot : c ≠ '.') :
    FilePath.isBlankPart name = false ∧ name ≠ ".." := by
  have differs : ∀ other : String, other.toList.head? ≠ some c → name ≠ other := by
    rintro other head rfl
    simp [starts] at head
  have empty := differs "" (by simp)
  have dot := differs "." (by simpa using notDot.symm)
  have dots := differs ".." (by simpa using notDot.symm)
  simp [FilePath.isBlankPart, empty, dot, dots]

theorem start_of_identifier {cs : List Char} (h : isIdentifier cs = true) :
    ∃ c rest, cs = c :: rest ∧ c ≠ '.' := by
  cases cs with
  | nil => cases h
  | cons c rest =>
    refine ⟨c, rest, rfl, ?_⟩
    rintro rfl
    exact dot_not_mem_identifier h List.mem_cons_self

theorem plain_segments (p : ImportPath) : FileTree.Plain p.segments := by
  intro name mem
  obtain ⟨cs, mem_cs, rfl⟩ := List.mem_map.mp mem
  obtain ⟨c, rest, starts, notDot⟩ :=
    start_of_identifier (ImportPath.isIdentifier_of_mem_segmentChars mem_cs)
  exact plain_of_start (by rw [String.toList_ofList, starts]) notDot

theorem plain_name (i : Identifier) : FilePath.isBlankPart i.text = false ∧ i.text ≠ ".." := by
  obtain ⟨c, rest, starts, notDot⟩ := start_of_identifier i.valid
  exact plain_of_start (by rw [Identifier.text, String.toList_ofList, starts]) notDot

/-! ## Extensions -/

theorem fileStem_text (i : Identifier) : fileStem i.text = i.text := by
  rw [fileStem, Identifier.text, String.toList_ofList,
    cutLast_of_not_mem (dot_not_mem_identifier i.valid)]

/-- An identifier has no extension yet. -/
theorem withExtension_text (i : Identifier) (extension : String) :
    withExtension i.text extension =
      if extension = "" then i.text else i.text ++ "." ++ extension := by
  rw [withExtension, fileStem_text]

theorem plain_withExtension (i : Identifier) (extension : String) :
    FilePath.isBlankPart (withExtension i.text extension) = false ∧
      withExtension i.text extension ≠ ".." := by
  obtain ⟨c, rest, starts, notDot⟩ := start_of_identifier i.valid
  rw [withExtension_text]
  split
  · exact plain_name i
  · have extended :
        (i.text ++ "." ++ extension).toList = c :: (rest ++ '.' :: extension.toList) := by
      simp [Identifier.text, starts]
    exact plain_of_start extended notDot

theorem withExtension_text_inj {i j : Identifier} {extension : String}
    (h : withExtension i.text extension = withExtension j.text extension) : i = j := by
  have texts : i.text = j.text := by
    rw [withExtension_text, withExtension_text] at h
    split at h
    · exact h
    · exact (String.append_left_inj _).mp ((String.append_left_inj _).mp h)
  have chars : i.chars = j.chars := String.ofList_inj.mp texts
  cases i
  cases j
  cases chars
  rfl

theorem fileName?_append_plain (destination : Location) {init : Location} {name : String}
    (plain : FilePath.isBlankPart name = false ∧ name ≠ "..") :
    fileName? (destination ++ (init ++ [name])) = some name := by
  rw [fileName?, Location.dropBlank_append_concat destination init plain.1, ← List.append_assoc,
    List.getLast?_concat]
  exact if_neg plain.2

theorem setExtension_append_plain (root : Location) {init : Location} {name : String}
    (plain : FilePath.isBlankPart name = false ∧ name ≠ "..") (extension : String) :
    setExtension (root ++ (init ++ [name])) extension =
      root ++ (init ++ [withExtension name extension]) := by
  rw [setExtension, fileName?_append_plain root plain, Location.dropBlank_append_concat _ _ plain.1,
    ← List.append_assoc, ← List.append_assoc, List.dropLast_concat]

/-! ## Files of artifacts -/

/-- Below a root, the extension is set at the last segment alone. -/
theorem setExtension_append_segments (root : Location) (extension : String) (p : ImportPath) :
    setExtension (root ++ p.segments) extension =
      root ++ (p.segments.dropLast ++ [withExtension p.name.text extension]) := by
  have parts := p.segments_eq_concat_name
  rw [parts, setExtension_append_plain root (plain_name p.name), List.dropLast_concat]

theorem artifactFile_eq (extension : String) (p : ImportPath) :
    artifactFile extension p = p.segments.dropLast ++ [withExtension p.name.text extension] :=
  setExtension_append_segments [] extension p

theorem artifactFile_child (extension : String) (nspace : ImportPath) (i : Identifier) :
    artifactFile extension (nspace.child i) =
      nspace.segments ++ [withExtension i.text extension] := by
  rw [artifactFile_eq, ImportPath.segments_child, List.dropLast_concat, ImportPath.name_child]

theorem plain_concat {init : Location} {name : String} (plain : FileTree.Plain init)
    (last : FilePath.isBlankPart name = false ∧ name ≠ "..") :
    FileTree.Plain (init ++ [name]) := by
  intro n mem
  rcases List.mem_append.mp mem with mem | mem
  · exact plain n mem
  · rw [List.mem_singleton.mp mem]
    exact last

theorem plain_artifactFile (extension : String) (p : ImportPath) :
    FileTree.Plain (artifactFile extension p) := by
  rw [artifactFile_eq]
  refine plain_concat (fun n mem => ?_) (plain_withExtension p.name extension)
  exact plain_segments p n (List.dropLast_subset _ mem)

/-- No file of an artifact escapes from a root. -/
theorem Staging.locate_eq (s : Staging) (root : Location) (p : ImportPath) :
    s.locate root p = .ok (root ++ artifactFile s.extension p) := by
  refine if_pos (List.all_eq_true.mpr fun name mem => ?_)
  obtain ⟨part, step⟩ := plain_artifactFile s.extension p name mem
  simp [part, step]

/-- So staging an artifact makes a directory for its file and writes it there. -/
theorem Staging.stage_eq (s : Staging) (scratch : Location) (p : ImportPath) (content : Bytes)
    (summary : Option String) :
    s.stage scratch p content summary = (do
      DiskAction.makeDirectories (scratch ++ artifactFile s.extension p : Location).parent
      DiskAction.write (scratch ++ artifactFile s.extension p) content
      return { s with summaries := s.summaries.insert (artifactFile s.extension p) summary }) := by
  rw [Staging.stage, Staging.locate_eq]

/-- Children of a namespace have one file only if they are the same. -/
theorem artifactFile_child_inj {extension : String} {nspace : ImportPath} {i j : Identifier}
    (h : artifactFile extension (nspace.child i) = artifactFile extension (nspace.child j)) :
    nspace.child i = nspace.child j := by
  rw [artifactFile_child, artifactFile_child] at h
  rw [withExtension_text_inj (List.singleton_inj.mp (List.append_cancel_left h))]

/-! ## Files with an extension -/

/-- Names without dots, as those of a directory of virtual modules. -/
def Undotted (names : Location) : Prop := ∀ name ∈ names, '.' ∉ name.toList

/-- Plain names of which the last one has a dot, and only the last one. -/
structure DottedLast (file : Location) : Prop where
  plain : FileTree.Plain file
  split : ∃ init name, file = init ++ [name] ∧ Undotted init ∧ '.' ∈ name.toList

theorem undotted_segments (p : ImportPath) : Undotted p.segments := by
  intro name mem
  obtain ⟨cs, mem_cs, rfl⟩ := List.mem_map.mp mem
  rw [String.toList_ofList]
  exact dot_not_mem_identifier (ImportPath.isIdentifier_of_mem_segmentChars mem_cs)

theorem dottedLast_artifactFile {extension : String} (extended : extension ≠ "")
    (virtualPath : ImportPath) : DottedLast (artifactFile extension virtualPath) where
  plain := plain_artifactFile extension virtualPath
  split := by
    refine ⟨_, _, artifactFile_eq extension virtualPath, fun n mem => ?_, ?_⟩
    · exact undotted_segments virtualPath n (List.dropLast_subset _ mem)
    · simp [withExtension_text, extended]

section DottedLast

variable {file other : Location}

theorem DottedLast.nonempty (dotted : DottedLast file) : file ≠ [] := by
  obtain ⟨init, name, rfl, -⟩ := dotted.split
  simp

theorem Undotted.of_prefix {names names' : Location} (undotted : Undotted names)
    (way : names' <+: names) : Undotted names' :=
  fun name mem => undotted name (way.subset mem)

/-- Leading names of a file are undotted, unless they are all. -/
theorem DottedLast.eq_or_undotted (dotted : DottedLast file) {names : Location}
    (way : names <+: file) : names = file ∨ Undotted names := by
  obtain ⟨init, name, rfl, undotted, -⟩ := dotted.split
  rcases List.prefix_concat_iff.mp way with rfl | way
  · exact .inl rfl
  · exact .inr (undotted.of_prefix way)

theorem DottedLast.not_undotted (dotted : DottedLast file) : ¬ Undotted file := by
  obtain ⟨init, name, rfl, -, dot⟩ := dotted.split
  exact fun undotted => undotted name (by simp) dot

/-- No file lies below another one. -/
theorem DottedLast.eq_of_isPrefix (dotted : DottedLast file) (dotted' : DottedLast other)
    (way : file <+: other) : file = other :=
  (dotted'.eq_or_undotted way).resolve_right dotted.not_undotted

/-- Wherever it lies, a file is in no place of an undotted directory. -/
theorem DottedLast.ne_undotted (dotted : DottedLast file) {names : Location} (nonempty : names ≠ [])
    (undotted : Undotted names) (loc loc' : Location) : loc ++ file ≠ loc' ++ names := by
  obtain ⟨init, name, rfl, -, dot⟩ := dotted.split
  obtain ⟨init', name', rfl⟩ := List.eq_nil_or_concat names |>.resolve_left nonempty
  intro same
  rw [List.concat_eq_append, ← List.append_assoc, ← List.append_assoc] at same
  have last := List.singleton_inj.mp (List.append_inj_right' same rfl)
  exact undotted name' (by simp) (last ▸ dot)

/-- What a file lies below, wherever it lies, is another file in its place, or all of it lies
below. -/
theorem DottedLast.prefix_cases (dotted : DottedLast file) (dotted' : DottedLast other)
    {loc loc' : Location} (below : loc ++ file <+: loc' ++ other) :
    loc ++ file <+: loc' ∨ loc ++ file = loc' ++ other := by
  rcases List.prefix_or_prefix_of_prefix below (List.prefix_append loc' other) with above | above
  · exact .inl above
  · obtain ⟨names, whole⟩ := above
    rw [← whole] at below ⊢
    rw [List.prefix_append_right_inj] at below
    by_cases none : names = []
    · simp [none]
    · refine .inr (congrArg (loc' ++ ·) ((dotted'.eq_or_undotted below).resolve_right ?_))
      exact fun undotted => dotted.ne_undotted none undotted loc loc' whole.symm

end DottedLast

end VirtualModules
