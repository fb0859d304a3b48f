import VirtualModules.Pass
import VirtualModules.Proofs.ArtifactFiles
import VirtualModules.Proofs.MakingDirectories

/-!
# Staging artifacts

Staging writes the artifacts below the scratch directory and nowhere else. `Staged` says what a tree
holds after some of them: of several artifacts for one file the last one (`latest`), and the
directory of the namespace as soon as there is one. Staging goes through unless some names are too
long (`stageAll_ends`), and where it stops, nothing has changed outside the scratch directory
(`KeptOutside`).
-/

namespace VirtualModules

/-! ## Running actions -/

namespace DiskAction

variable {ε α β : Type} {t t' : FileTree}

theorem bind_of_ok {x : DiskAction ε α} {f : α → DiskAction ε β} {a : α} (h : x t = .ok a t') :
    (x >>= f) t = f a t' := by
  simp only [bind, EStateM.bind, h]

theorem bind_of_error {x : DiskAction ε α} {f : α → DiskAction ε β} {e : ε}
    (h : x t = .error e t') : (x >>= f) t = .error e t' := by
  simp only [bind, EStateM.bind, h]

theorem bind_congr {x : DiskAction ε α} {f : α → DiskAction ε β} (h : x t = x t') :
    (x >>= f) t = (x >>= f) t' := by
  simp only [bind, EStateM.bind, h]

theorem get_bind {f : FileTree → DiskAction ε β} : ((get : DiskAction ε FileTree) >>= f) t = f t t :=
  rfl

theorem change_of_some {location : Location} {f : FileTree → Option FileTree} (h : f t = some t') :
    change location f t = .ok () t' := by
  simp only [change, h]

theorem change_of_none {location : Location} {f : FileTree → Option FileTree} (h : f t = none) :
    change location f t = .error ⟨location⟩ t := by
  simp only [change, h]

theorem always_of_ok {x : DiskAction ε α} {last : FileTree → FileTree} {a : α} (h : x t = .ok a t') :
    x.always last t = .ok a (last t') := by
  simp only [always, h]

theorem always_of_error {x : DiskAction ε α} {last : FileTree → FileTree} {e : ε}
    (h : x t = .error e t') : x.always last t = .error e (last t') := by
  simp only [always, h]

theorem mapError_of_ok {x : DiskAction ε α} {f : ε → β} {a : α} (h : x t = .ok a t') :
    x.mapError f t = .ok a t' := by
  simp only [mapError, h]

theorem mapError_of_error {x : DiskAction ε α} {f : ε → β} {e : ε} (h : x t = .error e t') :
    x.mapError f t = .error (f e) t' := by
  simp only [mapError, h]

theorem makeDirectories_of_isDirectory {names : Location}
    (h : (t.makeDirectories names).isDirectory names = true) :
    makeDirectories names t = .ok () (t.makeDirectories names) := by
  simp only [makeDirectories, h, if_true]

theorem makeDirectories_of_not_isDirectory {names : Location}
    (h : ¬ (t.makeDirectories names).isDirectory names = true) :
    makeDirectories names t = .error ⟨names⟩ (t.makeDirectories names) := by
  simp only [makeDirectories, if_neg h]

end DiskAction

open FileTree

/-- Below a root, making directories on a free way goes through. -/
theorem FileTree.Root.makeDirectories_ok {t : FileTree} {destination d q : Location}
    (root : t.Root destination d) (plain : Plain q) (nonempty : q ≠ [])
    (short : Short destination q) (free : t.FreeWay d q) :
    ∃ t', DiskAction.makeDirectories (destination ++ q) t = .ok () t' ∧ MadeOnly d q t t' ∧
      t'.Root destination d ∧ t'.entries.get? (d ++ q) = some .directory := by
  have there := root.makeDirectories_exists plain nonempty short free
  have made := root.makeDirectories_made plain nonempty
  exact ⟨_, DiskAction.makeDirectories_of_isDirectory there, made, made.root root,
    (((made.root root).isDirectory_iff plain nonempty).mp there).2⟩

/-! ## The last artifact of a file -/

/-- The last of some artifacts whose file this is. -/
def latest (extension : String) (file : Location) (artifacts : List Artifact) : Option Artifact :=
  artifacts.reverse.find? fun a => artifactFile extension a.virtualPath = file

theorem latest_concat (extension : String) (file : Location) (artifacts : List Artifact)
    (a : Artifact) :
    latest extension file (artifacts ++ [a]) =
      if artifactFile extension a.virtualPath = file then some a
      else latest extension file artifacts := by
  simp only [latest, List.reverse_append, List.reverse_singleton, List.singleton_append,
    List.find?_cons]
  split <;> simp_all

theorem of_latest {extension : String} {file : Location} {artifacts : List Artifact} {a : Artifact}
    (h : latest extension file artifacts = some a) :
    a ∈ artifacts ∧ artifactFile extension a.virtualPath = file := by
  have mem := List.mem_of_find?_eq_some h
  have here := List.find?_some h
  exact ⟨List.mem_reverse.mp mem, by simpa using here⟩

theorem latest_of_mem (extension : String) {artifacts : List Artifact} {a : Artifact}
    (mem : a ∈ artifacts) :
    ∃ b, latest extension (artifactFile extension a.virtualPath) artifacts = some b := by
  rw [← Option.isSome_iff_exists, latest, List.find?_isSome]
  exact ⟨a, List.mem_reverse.mpr mem, by simp⟩

/-! ## Files of a namespace -/

/-- The artifact lies directly in a namespace. -/
def Artifact.LiesIn (nspace : ImportPath) (a : Artifact) : Prop := ∃ i, a.virtualPath = nspace.child i

section Files

variable {extension : String} {nspace : ImportPath} {a : Artifact}

theorem Artifact.LiesIn.file (h : a.LiesIn nspace) (extension : String) :
    ∃ name, artifactFile extension a.virtualPath = nspace.segments ++ [name] ∧
      Plain (nspace.segments ++ [name]) := by
  obtain ⟨i, here⟩ := h
  rw [here]
  exact ⟨_, artifactFile_child extension nspace i,
    artifactFile_child extension nspace i ▸ plain_artifactFile extension (nspace.child i)⟩

theorem not_prefix_concat (l : Location) (name : String) : ¬ l ++ [name] <+: l := by
  intro way
  have lengths := way.length_le
  simp only [List.length_append, List.length_singleton] at lengths
  omega

/-- No artifact is in the place of a directory. -/
theorem latest_on_way {artifacts : List Artifact} (lie : ∀ a ∈ artifacts, a.LiesIn nspace)
    {r : Location} (way : r <+: nspace.segments) : latest extension r artifacts = none := by
  cases found : latest extension r artifacts with
  | none => rfl
  | some a =>
    obtain ⟨mem, here⟩ := of_latest found
    obtain ⟨name, file, -⟩ := (lie a mem).file extension
    rw [← here, file] at way
    exact absurd way (not_prefix_concat _ name)

end Files

/-! ## What staging leaves -/

/-- Nothing has changed outside the scratch directory, and it is there. -/
structure KeptOutside (base : FileTree) (destination d : Location) (scratch : String)
    (t : FileTree) : Prop where
  root : t.Root destination d
  outside : ∀ l, ¬ d ++ [scratch] <+: l → t.entries.get? l = base.entries.get? l
  directory : t.entries.get? (d ++ [scratch]) = some .directory

/-- After staging the artifacts `done`, the scratch directory holds the last one of every file, and
directories for them. -/
structure Staged (base : FileTree) (destination d : Location) (scratch extension : String)
    (nspace : ImportPath) (done : List Artifact) (staging : Staging) (t : FileTree) : Prop
    extends KeptOutside base destination d scratch t where
  extension_eq : staging.extension = extension
  summaries : ∀ file, staging.summaries.get? file = (latest extension file done).map (·.summary)
  content : ∀ r, r ≠ [] → t.entries.get? (d ++ scratch :: r) =
    match latest extension r done with
    | some a => some (.file (.ofText a.content))
    | none => if done ≠ [] ∧ r <+: nspace.segments then some .directory else none
  short : ∀ a ∈ done, Short destination (scratch :: artifactFile extension a.virtualPath)
  lie : ∀ a ∈ done, a.LiesIn nspace

section Stage

variable {base t t' : FileTree} {destination d : Location} {scratch extension : String}
  {nspace : ImportPath} {done : List Artifact} {staging : Staging}

theorem KeptOutside.made (kept : KeptOutside base destination d scratch t) {r : Location}
    (made : MadeOnly d (scratch :: r) t t') : KeptOutside base destination d scratch t' where
  root := made.root kept.root
  outside l outside := by
    rcases made l with same | ⟨-, -, q, nonempty, way, rfl⟩
    · rw [same, kept.outside l outside]
    · obtain ⟨name, rest, rfl⟩ := List.exists_cons_of_ne_nil nonempty
      obtain ⟨rfl, -⟩ := List.cons_prefix_cons.mp way
      exact absurd ⟨rest, by simp⟩ outside
  directory := made.kept kept.directory

theorem Staged.freeWay (staged : Staged base destination d scratch extension nspace done staging t) :
    t.FreeWay d (scratch :: nspace.segments) := by
  intro r nonempty way
  obtain ⟨name, rest, rfl⟩ := List.exists_cons_of_ne_nil nonempty
  obtain ⟨rfl, on_way⟩ := List.cons_prefix_cons.mp way
  by_cases first : rest = []
  · subst first
    exact .inr staged.directory
  · rw [staged.content rest first, latest_on_way staged.lie on_way]
    simp only
    split
    · exact .inr rfl
    · exact .inl rfl

theorem Staged.not_directory
    (staged : Staged base destination d scratch extension nspace done staging t) (name : String) :
    t.entries.get? (d ++ scratch :: (nspace.segments ++ [name])) ≠ some .directory := by
  rw [staged.content _ (by simp)]
  split
  · exact nofun
  · rw [if_neg]
    · exact nofun
    · exact fun h => not_prefix_concat _ name h.2

/-- Where an artifact is staged, seen from the destination. -/
theorem scratch_append (destination : Location) (scratch : String) (file : Location) :
    destination ++ [scratch] ++ file = destination ++ scratch :: file := by
  simp

theorem parent_scratch_file (scratch : String) (nspace : ImportPath) (name : String)
    (plain : Plain (scratch :: (nspace.segments ++ [name]))) :
    (destination ++ scratch :: (nspace.segments ++ [name])).parent =
      destination ++ scratch :: nspace.segments := by
  rw [← List.cons_append] at plain ⊢
  exact Location.parent_append_plain _ (fun n mem => (plain n mem).1) (by simp)

/-- Once the directory is made and the file is written, one more artifact is staged. -/
theorem Staged.written {t₁ t₂ : FileTree}
    (staged : Staged base destination d scratch extension nspace done staging t) {a : Artifact}
    (lies : a.LiesIn nspace) {name : String}
    (file : artifactFile extension a.virtualPath = nspace.segments ++ [name])
    (short : Short destination (scratch :: (nspace.segments ++ [name])))
    (made : MadeOnly d (scratch :: nspace.segments) t t₁)
    (directory : t₁.entries.get? (d ++ scratch :: nspace.segments) = some .directory)
    (spec : ∀ l, t₂.entries.get? l =
      if l = d ++ scratch :: (nspace.segments ++ [name]) then some (.file (.ofText a.content))
      else t₁.entries.get? l) :
    Staged base destination d scratch extension nspace (done ++ [a])
      { staging with summaries := staging.summaries.insert (nspace.segments ++ [name]) a.summary }
      t₂ := by
  have kept := staged.toKeptOutside.made made
  refine { root := kept.root.of_entered (by simp) spec nofun, outside := ?_, directory := ?_,
           extension_eq := staged.extension_eq, summaries := ?_, content := ?_, short := ?_,
           lie := ?_ }
  · intro l outside
    rw [spec, if_neg, kept.outside l outside]
    rintro rfl
    exact outside ⟨nspace.segments ++ [name], by simp⟩
  · rw [spec, if_neg (by simp), kept.directory]
  · intro f
    rw [latest_concat, file]
    by_cases here : nspace.segments ++ [name] = f
    · subst here
      rw [Table.get?_insert_self, if_pos rfl]
      rfl
    · rw [Table.get?_insert_ne _ (Ne.symm here), if_neg here, staged.summaries]
  · intro r nonempty
    rw [spec, latest_concat, file]
    by_cases here : nspace.segments ++ [name] = r
    · subst here
      rw [if_pos rfl, if_pos rfl]
    rw [if_neg (by simpa using Ne.symm here), if_neg here]
    by_cases way : r <+: nspace.segments
    · -- all directories on the way are there now
      rw [directory_on_way directory (List.cons_prefix_cons.mpr ⟨rfl, way⟩) (by simp),
        latest_on_way staged.lie way]
      simp [way]
    · rw [made.off_way fun on_way => way (List.cons_prefix_cons.mp on_way).2,
        staged.content r nonempty]
      simp [way]
  · intro b mem
    rcases List.mem_append.mp mem with mem | mem
    · exact staged.short b mem
    · rw [List.mem_singleton.mp mem, file]
      exact short
  · intro b mem
    rcases List.mem_append.mp mem with mem | mem
    · exact staged.lie b mem
    · rw [List.mem_singleton.mp mem]
      exact lies

theorem Staged.stage_ok (staged : Staged base destination d scratch extension nspace done staging t)
    (plain_scratch : FilePath.isBlankPart scratch = false ∧ scratch ≠ "..") {a : Artifact}
    (lies : a.LiesIn nspace)
    (short : Short destination (scratch :: artifactFile extension a.virtualPath)) :
    ∃ staging' t', staging.stage (destination ++ [scratch]) a.virtualPath (.ofText a.content)
        a.summary t = .ok staging' t' ∧
      Staged base destination d scratch extension nspace (done ++ [a]) staging' t' := by
  obtain ⟨name, file, plain⟩ := lies.file extension
  have plain_file : Plain (scratch :: (nspace.segments ++ [name])) := plain.cons plain_scratch
  have plain_way : Plain (scratch :: nspace.segments) := plain.of_append.cons plain_scratch
  rw [file] at short
  have short_way : Short destination (scratch :: nspace.segments) := by
    rw [← List.cons_append] at short
    exact short.of_append
  -- first the directory is made
  obtain ⟨t₁, made_ok, made, root₁, directory⟩ :=
    staged.root.makeDirectories_ok plain_way (by simp) short_way staged.freeWay
  have unmade : t₁.entries.get? (d ++ scratch :: (nspace.segments ++ [name])) =
      t.entries.get? (d ++ scratch :: (nspace.segments ++ [name])) :=
    made.off_way (not_prefix_concat (scratch :: nspace.segments) name)
  -- then the file is written
  obtain ⟨t₂, written⟩ := root₁.write?_exists (.ofText a.content) plain_file (by simp) short
    (unmade ▸ staged.not_directory name) (by
      rw [← List.cons_append, ← List.append_assoc, List.dropLast_concat]
      exact .inr directory)
  obtain ⟨-, -, spec⟩ := root₁.write?_ok plain_file (by simp) written
  have written_ok : DiskAction.write (destination ++ scratch :: (nspace.segments ++ [name]))
      (.ofText a.content) t₁ = .ok () t₂ := DiskAction.change_of_some written
  refine ⟨_, t₂, ?_, staged.written lies file short made directory spec⟩
  simp only [Staging.stage_eq, staged.extension_eq, file, scratch_append,
    parent_scratch_file scratch nspace name plain_file]
  rw [DiskAction.bind_of_ok made_ok, DiskAction.bind_of_ok written_ok]
  rfl

/-- Where staging an artifact stops, its names are too long, and nothing has changed outside the
scratch directory. -/
theorem Staged.stage_error
    (staged : Staged base destination d scratch extension nspace done staging t)
    (plain_scratch : FilePath.isBlankPart scratch = false ∧ scratch ≠ "..") {a : Artifact}
    (lies : a.LiesIn nspace)
    (long : ¬ Short destination (scratch :: artifactFile extension a.virtualPath)) :
    ∃ e t', staging.stage (destination ++ [scratch]) a.virtualPath (.ofText a.content)
        a.summary t = .error e t' ∧ KeptOutside base destination d scratch t' := by
  obtain ⟨name, file, plain⟩ := lies.file extension
  have plain_file : Plain (scratch :: (nspace.segments ++ [name])) := plain.cons plain_scratch
  have plain_way : Plain (scratch :: nspace.segments) := plain.of_append.cons plain_scratch
  rw [file] at long
  have made := staged.root.makeDirectories_made plain_way (by simp)
  have kept := staged.toKeptOutside.made made
  simp only [Staging.stage_eq, staged.extension_eq, file, scratch_append,
    parent_scratch_file scratch nspace name plain_file]
  by_cases there : (t.makeDirectories (destination ++ scratch :: nspace.segments)).isDirectory
      (destination ++ scratch :: nspace.segments) = true
  · have made_ok := DiskAction.makeDirectories_of_isDirectory there
    rw [DiskAction.bind_of_ok made_ok]
    generalize t.makeDirectories (destination ++ scratch :: nspace.segments) = t₁ at made kept
    have root₁ := kept.root
    cases written : t₁.write? (destination ++ scratch :: (nspace.segments ++ [name]))
        (.ofText a.content) with
    | none =>
      have refused : DiskAction.write (destination ++ scratch :: (nspace.segments ++ [name]))
          (.ofText a.content) t₁ = .error ⟨_⟩ t₁ := DiskAction.change_of_none written
      rw [DiskAction.bind_of_error refused]
      exact ⟨_, t₁, rfl, kept⟩
    | some t₂ => exact absurd (root₁.write?_ok plain_file (by simp) written).1 long
  · rw [DiskAction.bind_of_error (DiskAction.makeDirectories_of_not_isDirectory there)]
    exact ⟨_, _, rfl, kept⟩

/-- All artifacts are staged, or the names of one are too long. -/
theorem Staged.stageAll_ends
    (staged : Staged base destination d scratch extension nspace done staging t)
    (plain_scratch : FilePath.isBlankPart scratch = false ∧ scratch ≠ "..")
    {artifacts : List Artifact} (lie : ∀ a ∈ artifacts, a.LiesIn nspace) :
    (∃ staging' t', stageAll (destination ++ [scratch]) staging artifacts t = .ok staging' t' ∧
        Staged base destination d scratch extension nspace (done ++ artifacts) staging' t') ∨
      ((∃ a ∈ artifacts,
          ¬ Short destination (scratch :: artifactFile extension a.virtualPath)) ∧
        ∃ e t', stageAll (destination ++ [scratch]) staging artifacts t = .error e t' ∧
          KeptOutside base destination d scratch t') := by
  unfold stageAll
  induction artifacts generalizing done staging t with
  | nil => exact .inl ⟨staging, t, rfl, by simpa using staged⟩
  | cons a rest ih =>
    have lies := lie a List.mem_cons_self
    rw [List.foldlM_cons]
    by_cases short : Short destination (scratch :: artifactFile extension a.virtualPath)
    · obtain ⟨staging₁, t₁, step, staged₁⟩ := staged.stage_ok plain_scratch lies short
      rw [DiskAction.bind_of_ok step]
      rcases ih staged₁ (fun b mem => lie b (List.mem_cons_of_mem _ mem)) with
        ⟨staging', t', folded, staged'⟩ | ⟨⟨b, mem, long⟩, failed⟩
      · exact .inl ⟨staging', t', folded, by simpa using staged'⟩
      · exact .inr ⟨⟨b, List.mem_cons_of_mem _ mem, long⟩, failed⟩
    · obtain ⟨e, t₁, step, kept⟩ := staged.stage_error plain_scratch lies short
      rw [DiskAction.bind_of_error step]
      exact .inr ⟨⟨a, List.mem_cons_self, short⟩, e, t₁, rfl, kept⟩

end Stage

end VirtualModules
