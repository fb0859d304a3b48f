import VirtualModules.Proofs.CombinedReports
import VirtualModules.Proofs.Framing
import VirtualModules.Proofs.ReportUnions
import VirtualModules.Proofs.StoredReports

/-!
# Versions of combined reports

The version of a combined report is the fingerprint of `versionBytes`, which stand for the
artifacts' virtual paths and summaries with the count of each and for nothing else
(`versionBytes_eq_iff`). Neither these nor the merged reports depend on the order of the artifacts
(`combine_perm`).

An artifact that is repeated leaves the merged report as it is. The bytes of the version get longer
by it, though, so the version is another one unless two fingerprints collide
(`combine_repeated_iff`).
-/

namespace VirtualModules

/-! ## Entries -/

namespace VersionEntry

/-- The path of an entry and its summary, if any. -/
def texts (e : VersionEntry) : List String := e.1.text :: e.2.toList

theorem texts_inj {a b : VersionEntry} (h : a.texts = b.texts) : a = b := by
  obtain ⟨p, s⟩ := a
  obtain ⟨q, t⟩ := b
  obtain ⟨paths, summaries⟩ := List.cons_eq_cons.mp h
  have same : p = q := ImportPath.ext_text paths
  subst same
  cases s <;> cases t <;> simp_all

/-- Entries are in the order of their texts, one after the other. -/
theorem le_iff {a b : VersionEntry} : a.le b = true ↔ a.texts ≤ b.texts := by
  obtain ⟨p, s⟩ := a
  obtain ⟨q, t⟩ := b
  rw [texts, texts, List.cons_le_cons_iff]
  by_cases here : p = q
  · subst here
    have summaries : VersionEntry.le (p, s) (p, t) = true ↔ s.toList ≤ t.toList := by
      cases s with
      | none => simp [le]
      | some s =>
        cases t with
        | none => simp [le]
        | some t =>
          rw [Option.toList_some, Option.toList_some, List.cons_le_cons_iff]
          simp [le, Std.le_iff_lt_or_eq]
    rw [summaries, or_iff_right Std.lt_irrefl, and_iff_right rfl]
  · have differ : p.text ≠ q.text := fun same => here (ImportPath.ext_text same)
    have less : p ≤ q ↔ p.text < q.text :=
      ⟨fun h => Std.lt_of_le_of_ne h differ, Std.le_of_lt⟩
    simp [le, here, differ, less]

theorem le_total (a b : VersionEntry) : (a.le b || b.le a) = true := by
  rw [Bool.or_eq_true, le_iff, le_iff]
  exact Std.le_total

theorem le_trans (a b c : VersionEntry) (hab : a.le b = true) (hbc : b.le c = true) :
    a.le c = true :=
  le_iff.mpr (Std.le_trans (le_iff.mp hab) (le_iff.mp hbc))

theorem le_antisymm (a b : VersionEntry) (hab : a.le b = true) (hba : b.le a = true) : a = b :=
  texts_inj (Std.le_antisymm (le_iff.mp hab) (le_iff.mp hba))

theorem length_parts (e : VersionEntry) : e.parts.length = 3 := by
  obtain ⟨p, s⟩ := e
  cases s <;> rfl

/-- The tag in the middle tells an entry without a summary from all that have one. -/
theorem parts_inj (a b : VersionEntry) (h : a.parts = b.parts) : a = b := by
  have tags : Bytes.ofText "some" ≠ Bytes.ofText "none" := fun same =>
    absurd (ofText_inj same) (by decide)
  obtain ⟨p, s⟩ := a
  obtain ⟨q, t⟩ := b
  cases s <;> cases t <;> simp only [parts, List.cons.injEq, tags, tags.symm, false_and,
    and_false, and_true, true_and] at h
  · rw [ImportPath.ext_text (ofText_inj h)]
  · rw [ImportPath.ext_text (ofText_inj h.1), ofText_inj h.2]

end VersionEntry

/-! ## What the version is made of -/

theorem mergeSort_eq_iff {xs ys : List VersionEntry} :
    xs.mergeSort VersionEntry.le = ys.mergeSort VersionEntry.le ↔ xs.Perm ys := by
  constructor
  · intro same
    have sorted := List.mergeSort_perm xs VersionEntry.le
    rw [same] at sorted
    exact sorted.symm.trans (List.mergeSort_perm ys _)
  · intro perm
    have sorted := fun zs => List.pairwise_mergeSort VersionEntry.le_trans VersionEntry.le_total zs
    refine List.Perm.eq_of_pairwise (fun a b _ _ => VersionEntry.le_antisymm a b) (sorted xs)
      (sorted ys) ?_
    exact (List.mergeSort_perm xs _).trans (perm.trans (List.mergeSort_perm ys _).symm)

/-- The parts of a version stand for its entries, as often as they occur. -/
theorem versionParts_eq_iff {xs ys : List VersionEntry} :
    versionParts xs = versionParts ys ↔ xs.Perm ys := by
  rw [← mergeSort_eq_iff]
  exact ⟨flatMap_inj_of_length (by decide) VersionEntry.length_parts VersionEntry.parts_inj,
    congrArg (List.flatMap VersionEntry.parts)⟩

/-- The bytes that the version of some artifacts is the fingerprint of. -/
def versionBytes (artifacts : List Artifact) : Bytes :=
  frame (versionParts (artifacts.map Artifact.versionEntry))

theorem version_eq (artifacts : List Artifact) :
    version artifacts = (Fingerprint.ofBytes (versionBytes artifacts)).toHex := rfl

/-- The texts that an artifact adds to a version are shorter than 2^64 bytes, as every text in
memory is. -/
def Artifact.VersionFits (a : Artifact) : Prop :=
  Stored.PathFits a.virtualPath ∧ ∀ s, a.summary = some s → Stored.TextFits s

theorem short_versionParts {artifacts : List Artifact} (fits : ∀ a ∈ artifacts, a.VersionFits) :
    ∀ part ∈ versionParts (artifacts.map Artifact.versionEntry), part.length < 2 ^ 64 := by
  have tags : (Bytes.ofText "some").length < 2 ^ 64 ∧ (Bytes.ofText "none").length < 2 ^ 64 ∧
      (Bytes.ofText "").length < 2 ^ 64 := by
    decide
  intro part mem
  obtain ⟨e, entry, mem⟩ := List.mem_flatMap.mp mem
  obtain ⟨a, listed, rfl⟩ := List.mem_map.mp (List.mem_mergeSort.mp entry)
  obtain ⟨path, summary⟩ := fits a listed
  rw [Artifact.versionEntry] at mem
  cases present : a.summary with
  | none =>
    rw [present] at mem
    simp only [VersionEntry.parts, List.mem_cons, List.not_mem_nil, or_false] at mem
    rcases mem with rfl | rfl | rfl
    · exact path
    · exact tags.2.1
    · exact tags.2.2
  | some s =>
    rw [present] at mem
    simp only [VersionEntry.parts, List.mem_cons, List.not_mem_nil, or_false] at mem
    rcases mem with rfl | rfl | rfl
    · exact path
    · exact tags.1
    · exact summary s present

/-- The bytes of a version stand for the paths and summaries of the artifacts, as often as they
occur. -/
theorem versionBytes_eq_iff {l l' : List Artifact} (fits : ∀ a ∈ l, a.VersionFits)
    (fits' : ∀ a ∈ l', a.VersionFits) :
    versionBytes l = versionBytes l' ↔
      (l.map Artifact.versionEntry).Perm (l'.map Artifact.versionEntry) := by
  rw [← versionParts_eq_iff]
  exact ⟨frame_inj (short_versionParts fits) (short_versionParts fits'), congrArg frame⟩

theorem versionBytes_perm {l l' : List Artifact}
    (perm : (l.map Artifact.versionEntry).Perm (l'.map Artifact.versionEntry)) :
    versionBytes l = versionBytes l' :=
  congrArg frame (versionParts_eq_iff.mpr perm)

/-! ## The order of the artifacts -/

theorem Report.mergeAll_perm {r u : Report} {l l' : List Artifact} (perm : l.Perm l')
    (h : r.mergeAll l = .ok u) : r.mergeAll l' = .ok u := by
  refine foldlM_ok_perm ?_ perm h
  exact merge?_swap

theorem version_perm {l l' : List Artifact} (perm : l.Perm l') : version l = version l' := by
  rw [version_eq, version_eq, versionBytes_perm (perm.map _)]

theorem combine_perm {l l' : List Artifact} (perm : l.Perm l') {c : Combined}
    (h : combine l = .ok c) : combine l' = .ok c := by
  obtain ⟨merged, versions⟩ := combine_eq_ok_iff.mp h
  exact combine_eq_ok_iff.mpr
    ⟨Report.mergeAll_perm perm merged, versions.trans (version_perm perm)⟩

/-- Combining does not look at the order of the artifacts: either it fails in every order, or it
gives the same report and version in all. The version is the fingerprint of bytes that stand for the
virtual paths and summaries with the count of each: no other collection has the same bytes, be it
that a summary is missing, empty or anything else. -/
theorem combine_unordered (l l' : List Artifact) :
    (l.Perm l' → ∀ c, combine l = .ok c ↔ combine l' = .ok c) ∧
    (∀ c, combine l = .ok c → c.version = (Fingerprint.ofBytes (versionBytes l)).toHex) ∧
    ((∀ a ∈ l, a.VersionFits) → (∀ a ∈ l', a.VersionFits) →
      (versionBytes l = versionBytes l' ↔
        (l.map fun a => (a.virtualPath, a.summary)).Perm
          (l'.map fun a => (a.virtualPath, a.summary)))) := by
  refine ⟨fun perm c => ⟨combine_perm perm, combine_perm perm.symm⟩, fun c h => ?_,
    versionBytes_eq_iff⟩
  rw [← version_eq]
  exact (combine_eq_ok_iff.mp h).2

namespace Adoption

/-- The artifact of the parents' module, with a summary and with just the module in its report. -/
def summed : Artifact where
  virtualPath := ⟨"summed.parents", by decide⟩
  summary := some "1"
  content := ""
  report := (∅ : Report).registerModule parents ⟨"summed.parents", by decide⟩

/-- The artifact of the child's module with a given summary. -/
def childWith (summary : Option String) : Artifact where
  virtualPath := ⟨"summed.child", by decide⟩
  summary
  content := ""
  report := (∅ : Report).registerModule childModule ⟨"summed.child", by decide⟩

theorem summed_merged : ∃ u, (∅ : Report).mergeAll [summed, childWith none] = .ok u := ⟨_, rfl⟩

theorem childWith_fits : (childWith none).VersionFits ∧ (childWith (some "")).VersionFits := by
  refine ⟨⟨?_, nofun⟩, ?_, ?_⟩
  · exact (by decide : (Bytes.ofText "summed.child").length < 2 ^ 64)
  · exact (by decide : (Bytes.ofText "summed.child").length < 2 ^ 64)
  · rintro _ ⟨⟩
    exact (by decide : (Bytes.ofText "").length < 2 ^ 64)

/-- Two artifacts are combined in either order, and the bytes of a version tell a summary that is
missing from an empty one. -/
theorem summed_unordered :
    ([summed, childWith none].Perm [childWith none, summed] ∧
      ∃ c, combine [summed, childWith none] = .ok c ∧ combine [childWith none, summed] = .ok c ∧
        c.version = (Fingerprint.ofBytes (versionBytes [summed, childWith none])).toHex) ∧
    (childWith none).VersionFits ∧ (childWith (some "")).VersionFits ∧
      versionBytes [childWith none] ≠ versionBytes [childWith (some "")] := by
  have perm : [summed, childWith none].Perm [childWith none, summed] := .swap _ _ _
  obtain ⟨u, merged⟩ := summed_merged
  have combined : combine [summed, childWith none] =
      .ok ⟨version [summed, childWith none], u⟩ := combine_eq_ok_iff.mpr ⟨merged, rfl⟩
  obtain ⟨either, versions, -⟩ :=
    combine_unordered [summed, childWith none] [childWith none, summed]
  obtain ⟨-, -, told⟩ := combine_unordered [childWith none] [childWith (some "")]
  obtain ⟨fits, fits'⟩ := childWith_fits
  refine ⟨⟨perm, _, combined, (either perm _).mp combined, versions _ combined⟩, fits, fits', ?_⟩
  intro same
  have entries := (told (by simpa using fits) (by simpa using fits')).mp same
  simp [childWith] at entries

end Adoption

/-! ## Repeated artifacts -/

/-- An artifact that is merged once more adds nothing to the report. -/
theorem Report.mergeAll_repeated {r u : Report} {l l' : List Artifact} {a : Artifact} (mem : a ∈ l)
    (repeated : l'.Perm (a :: l)) (h : r.mergeAll l = .ok u) : r.mergeAll l' = .ok u := by
  obtain ⟨before, after, rfl⟩ := List.append_of_mem mem
  -- the artifact last, once and twice
  have once : (before ++ a :: after).Perm ((before ++ after) ++ [a]) :=
    List.perm_middle.trans (List.perm_append_singleton _ _).symm
  have twice : (((before ++ after) ++ [a]) ++ [a]).Perm l' :=
    ((List.perm_append_singleton _ _).trans (once.symm.cons a)).trans repeated.symm
  have merged := mergeAll_perm once h
  refine mergeAll_perm twice ?_
  rw [mergeAll_concat, merged]
  rw [mergeAll_concat, bind_eq_ok_iff] at merged
  obtain ⟨_, -, last⟩ := merged
  exact merge?_again last

/-- An artifact adds its own parts to the bytes of a version. -/
theorem length_versionBytes_cons (a : Artifact) (l : List Artifact) :
    (versionBytes (a :: l)).length =
      (frame a.versionEntry.parts).length + (versionBytes l).length := by
  have unsorted : ∀ l, (versionBytes l).length =
      ((l.map Artifact.versionEntry).flatMap fun e => frame e.parts).length := by
    intro l
    have perm := (List.mergeSort_perm (l.map Artifact.versionEntry) VersionEntry.le).flatMap_right
      fun e => frame e.parts
    rw [← perm.length_eq, versionBytes, versionParts, frame, List.flatMap_assoc]
    rfl
  rw [unsorted, unsorted, List.map_cons, List.flatMap_cons, List.length_append]

theorem length_frame_parts_pos (e : VersionEntry) : 0 < (frame e.parts).length := by
  cases shown : e.parts with
  | nil =>
    have count := e.length_parts
    rw [shown] at count
    cases count
  | cons part rest =>
    rw [frame_cons, List.length_append, Bytes.length_littleEndian]
    omega

/-- Where an artifact is repeated, combining gives the same report. The version is the fingerprint
of more bytes then, so it is the same only if these have the fingerprint that the fewer bytes
have. -/
theorem combine_repeated_iff {l l' : List Artifact} {a : Artifact} {c : Combined}
    (combined : combine l = .ok c) (mem : a ∈ l) (repeated : l'.Perm (a :: l)) :
    combine l' = .ok ⟨version l', c.report⟩ ∧
      (versionBytes l).length < (versionBytes l').length ∧
      (combine l' = .ok c ↔
        Fingerprint.ofBytes (versionBytes l') = Fingerprint.ofBytes (versionBytes l)) := by
  obtain ⟨merged, versions⟩ := combine_eq_ok_iff.mp combined
  have merged' := Report.mergeAll_repeated mem repeated merged
  refine ⟨combine_eq_ok_iff.mpr ⟨merged', rfl⟩, ?_, ?_⟩
  · have longer := length_versionBytes_cons a l
    have added := length_frame_parts_pos a.versionEntry
    rw [versionBytes_perm (repeated.map _), longer]
    omega
  · rw [combine_eq_ok_iff, versions, version_eq, version_eq]
    constructor
    · exact fun ⟨_, same⟩ => (Fingerprint.toHex_inj same).symm
    · exact fun same => ⟨merged', by rw [same]⟩

namespace Adoption

theorem versionBytes_summed :
    versionBytes [summed] = frame summed.versionEntry.parts ∧
      versionBytes [summed, summed] =
        frame (summed.versionEntry.parts ++ summed.versionEntry.parts) := by
  have self : summed.versionEntry.le summed.versionEntry = true := by decide
  have sorted : [summed.versionEntry, summed.versionEntry].mergeSort VersionEntry.le =
      [summed.versionEntry, summed.versionEntry] :=
    List.mergeSort_of_pairwise (by simp [self])
  constructor
  · simp [versionBytes, versionParts]
  · simp [versionBytes, versionParts, sorted]

theorem summed_fingerprints :
    Fingerprint.ofBytes (versionBytes [summed, summed]) ≠
      Fingerprint.ofBytes (versionBytes [summed]) := by
  rw [versionBytes_summed.1, versionBytes_summed.2]
  decide

theorem summed_alone : ∃ u, (∅ : Report).mergeAll [summed] = .ok u ∧
    (∅ : Report).mergeAll [summed, summed] = .ok u := ⟨_, rfl, rfl⟩

/-- The version counts an artifact twice that is there twice. -/
theorem summed_repeated_version_ne :
    ∃ c d, combine [summed] = .ok c ∧ combine [summed, summed] = .ok d ∧ d.report = c.report ∧
      d.version ≠ c.version := by
  obtain ⟨u, once, twice⟩ := summed_alone
  refine ⟨⟨version [summed], u⟩, ⟨version [summed, summed], u⟩, combine_eq_ok_iff.mpr ⟨once, rfl⟩,
    combine_eq_ok_iff.mpr ⟨twice, rfl⟩, rfl, ?_⟩
  exact fun same => summed_fingerprints (Fingerprint.toHex_inj same)

/-- The merged report is the same, and the combined report is another one, since the fingerprints
differ. -/
theorem summed_repeated_ne :
    summed ∈ [summed] ∧ [summed, summed].Perm (summed :: [summed]) ∧
      ∃ c, combine [summed] = .ok c ∧
        combine [summed, summed] = .ok ⟨version [summed, summed], c.report⟩ ∧
        combine [summed, summed] ≠ .ok c := by
  obtain ⟨u, once, -⟩ := summed_alone
  have combined : combine [summed] = .ok ⟨version [summed], u⟩ := combine_eq_ok_iff.mpr ⟨once, rfl⟩
  have mem : summed ∈ [summed] := List.mem_cons_self
  obtain ⟨twice, -, same_iff⟩ := combine_repeated_iff combined mem (.refl _)
  exact ⟨mem, .refl _, _, combined, twice, fun same => summed_fingerprints (same_iff.mp same)⟩

end Adoption

end VirtualModules
