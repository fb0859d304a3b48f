import Mathlib.Data.List.Nodup
import Mathlib.Data.List.Perm.Subperm
import VirtualModules.Proofs.Staging

/-!
# Scratch directories

A scratch directory has a name that no part of an import path has (`head_ne_of_dot`), and it gets
the least number that is not taken (`freshScratchName_spec`), so which one it is depends on the
scratch names in the destination alone (`freshScratchName_congr`). What earlier passes left of that
kind is `Litter`; a pass removes it first, and nothing else (`sweepScratch_clears`).
-/

namespace VirtualModules

open FileTree

variable {t t' : FileTree} {destination d : Location}

/-! ## Scratch names -/

theorem plain_of_isScratchName {name : String} (h : isScratchName name = true) :
    FilePath.isBlankPart name = false ∧ name ≠ ".." := by
  have differs : ∀ other : String, isScratchName other = false → name ≠ other := by
    rintro other no_scratch rfl
    rw [h] at no_scratch
    cases no_scratch
  have empty := differs "" (by decide)
  have dot := differs "." (by decide)
  exact ⟨by simp [FilePath.isBlankPart, empty, dot], differs ".." (by decide)⟩

theorem dot_mem_of_isScratchName {name : String} (h : isScratchName name = true) :
    '.' ∈ name.toList := by
  rw [isScratchName, List.isPrefixOf_iff_prefix] at h
  exact h.subset (by decide)

theorem isScratchName_append (rest : String) : isScratchName (scratchStart ++ rest) = true := by
  rw [isScratchName, List.isPrefixOf_iff_prefix, String.toList_append]
  exact List.prefix_append _ _

theorem not_mem_segments {p : ImportPath} {name : String} (dot : '.' ∈ name.toList) :
    name ∉ p.segments := fun mem => undotted_segments p name mem dot

theorem head_ne_of_dot {nspace : ImportPath} {name : String} (dot : '.' ∈ name.toList)
    (q : Location) : ¬ [name] <+: nspace.segments ++ q := by
  rintro ⟨rest, whole⟩
  obtain ⟨first, others, segments⟩ := List.exists_cons_of_ne_nil nspace.segments_ne_nil
  simp only [segments, List.cons_append, List.cons_eq_cons] at whole
  exact not_mem_segments dot (by rw [segments, whole.1]; exact List.mem_cons_self)

/-! ## Numbers -/

/-- The scratch name with a number. -/
def numberedScratch (n : Nat) : String := scratchStart ++ toString n

theorem numberedScratch_inj {m n : Nat} (h : numberedScratch m = numberedScratch n) : m = n := by
  have digits : toString m = toString n := by
    have chars := congrArg String.toList h
    simp only [numberedScratch, String.toList_append] at chars
    exact String.toList_inj.mp (List.append_cancel_left chars)
  rw [Nat.toString_eq_ofList_toDigits, Nat.toString_eq_ofList_toDigits] at digits
  calc
    m = Nat.ofDigitChars 10 (Nat.toDigits 10 m) 0 := Nat.ofDigitChars_ten_toDigits.symm
    _ = Nat.ofDigitChars 10 (Nat.toDigits 10 n) 0 := by rw [String.ofList_injective digits]
    _ = n := Nat.ofDigitChars_ten_toDigits

/-- More numbers than there are names cannot all be taken. -/
theorem exists_numberedScratch_free (names : List String) :
    ∃ n < names.length + 1, numberedScratch n ∉ names := by
  by_contra taken
  push Not at taken
  have distinct : ((List.range (names.length + 1)).map numberedScratch).Nodup :=
    List.nodup_range.map fun _ _ same => numberedScratch_inj same
  have among : (List.range (names.length + 1)).map numberedScratch ⊆ names := by
    intro name mem
    obtain ⟨n, below, rfl⟩ := List.mem_map.mp mem
    exact taken n (List.mem_range.mp below)
  have lengths := (distinct.subperm among).length_le
  simp only [List.length_map, List.length_range] at lengths
  omega

/-- A new scratch directory gets the least number that is not taken. -/
theorem freshScratchName_spec (names : List String) :
    ∃ n, freshScratchName names = numberedScratch n ∧ numberedScratch n ∉ names ∧
      ∀ m < n, numberedScratch m ∈ names := by
  have search : freshScratchName names =
      (((List.range (names.length + 1)).find? fun n => !names.contains (numberedScratch n)).map
        numberedScratch).getD scratchStart := by
    simp only [freshScratchName, List.find?_map]
    rfl
  cases found : (List.range (names.length + 1)).find? fun n =>
      !names.contains (numberedScratch n) with
  | none =>
    obtain ⟨n, below, free⟩ := exists_numberedScratch_free names
    have taken := List.find?_range_eq_none.mp found n below
    simp [free] at taken
  | some n =>
    obtain ⟨free, -, least⟩ := List.find?_range_eq_some.mp found
    refine ⟨n, by rw [search, found]; rfl, by simpa using free, fun m less => ?_⟩
    simpa using least m less

theorem isScratchName_fresh (names : List String) :
    isScratchName (freshScratchName names) = true := by
  obtain ⟨n, name, -⟩ := freshScratchName_spec names
  rw [name]
  exact isScratchName_append _

theorem freshScratchName_not_mem (names : List String) : freshScratchName names ∉ names := by
  obtain ⟨n, name, free, -⟩ := freshScratchName_spec names
  rwa [name]

/-- Only the scratch names that are taken count for the new one. -/
theorem freshScratchName_congr {names names' : List String}
    (same : ∀ name, isScratchName name = true → (name ∈ names ↔ name ∈ names')) :
    freshScratchName names = freshScratchName names' := by
  obtain ⟨m, name, free, least⟩ := freshScratchName_spec names
  obtain ⟨n, name', free', least'⟩ := freshScratchName_spec names'
  have taken_iff : ∀ k, numberedScratch k ∈ names ↔ numberedScratch k ∈ names' :=
    fun k => same _ (isScratchName_append _)
  rw [name, name']
  rcases Nat.lt_trichotomy m n with less | rfl | more
  · exact absurd ((taken_iff m).mpr (least' m less)) free
  · rfl
  · exact absurd ((taken_iff n).mp (least n more)) free'

/-! ## Names in the destination -/

theorem mem_children_iff {loc : Location} {name : String} :
    name ∈ t.children loc ↔ (t.entries.get? (loc ++ [name])).isSome := by
  simp only [children, List.mem_filterMap, Prod.exists, Option.isSome_iff_exists]
  constructor
  · rintro ⟨names, entry, mem, here⟩
    split at here
    · cases here
      exact ⟨entry, (mem_below_iff.mp mem).2⟩
    · cases here
  · rintro ⟨entry, found⟩
    exact ⟨[name], entry, mem_below_iff.mpr ⟨by simp, found⟩, rfl⟩

theorem namesIn_root (root : t.Root destination d) : namesIn t destination = t.children d := by
  rw [namesIn, root.find?_self]

/-! ## Litter -/

/-- A scratch directory that was left in the destination. -/
def Litter (t : FileTree) (destination d : Location) (name : String) : Prop :=
  isScratchName name = true ∧ Short destination [name] ∧
    t.entries.get? (d ++ [name]) = some .directory

/-- The litter of some names is gone, with all below it, and nothing else has changed. -/
structure Cleared (destination d : Location) (names : List String) (t t' : FileTree) : Prop where
  gone : ∀ name ∈ names, Litter t destination d name → ∀ l, d ++ [name] <+: l →
    t'.entries.get? l = none
  others : ∀ l, (∀ name ∈ names, Litter t destination d name → ¬ d ++ [name] <+: l) →
    t'.entries.get? l = t.entries.get? l

theorem prefix_singleton_iff {name other : String} :
    d ++ [name] <+: d ++ [other] ↔ name = other := by
  rw [List.prefix_append_right_inj]
  simp

theorem litter_prune_iff {name other : String} (differ : name ≠ other) :
    Litter (t.prune (d ++ [name])) destination d other ↔ Litter t destination d other := by
  rw [Litter, Litter, get?_prune, if_neg (by rwa [prefix_singleton_iff])]

theorem sweepScratch_cons (root : t.Root destination d) (name : String) (rest : List String) :
    (Litter t destination d name ∧ sweepScratch destination (name :: rest) t =
        sweepScratch destination rest (t.prune (d ++ [name]))) ∨
      (¬ Litter t destination d name ∧
        sweepScratch destination (name :: rest) t = sweepScratch destination rest t) := by
  simp only [sweepScratch]
  rw [DiskAction.get_bind]
  by_cases scratch : isScratchName name = true
  · have plain : Plain [name] := by simpa [Plain] using plain_of_isScratchName scratch
    have directory_iff := root.isDirectory_iff plain (by simp)
    by_cases left : Litter t destination d name
    · have removed := root.removeTree?_directory plain (by simp) left.2.1 left.2.2
      have removed_ok : DiskAction.removeTree (destination ++ [name]) t =
          .ok () (t.prune (d ++ [name])) := DiskAction.change_of_some removed
      refine .inl ⟨left, ?_⟩
      rw [if_pos (by rw [scratch, directory_iff.mpr left.2]; rfl), DiskAction.bind_of_ok removed_ok]
    · refine .inr ⟨left, ?_⟩
      rw [if_neg fun both => left ⟨scratch, directory_iff.mp (Bool.and_eq_true_iff.mp both).2⟩]
  · refine .inr ⟨fun left => scratch left.1, ?_⟩
    rw [if_neg fun both => scratch (Bool.and_eq_true_iff.mp both).1]

/-- Sweeping scratch directories clears the destination of them, and of nothing else. -/
theorem sweepScratch_clears (root : t.Root destination d) (names : List String) :
    ∃ t', sweepScratch destination names t = .ok () t' ∧ Cleared destination d names t t' := by
  induction names generalizing t with
  | nil => exact ⟨t, rfl, by simp, fun l _ => rfl⟩
  | cons name rest ih =>
    rcases sweepScratch_cons root name rest with ⟨left, step⟩ | ⟨not_left, step⟩
    · obtain ⟨t', swept, cleared⟩ := ih (root.pruned (q := [name]) (by simp))
      refine ⟨t', step.trans swept, fun other mem litter l below => ?_, fun l outside => ?_⟩
      · by_cases same : name = other
        · -- what is gone by now does not come back
          subst same
          by_cases again : ∃ n ∈ rest, Litter (t.prune (d ++ [name])) destination d n ∧
              d ++ [n] <+: l
          · obtain ⟨n, mem_n, litter_n, below_n⟩ := again
            exact cleared.gone n mem_n litter_n l below_n
          · push Not at again
            rw [cleared.others l again, get?_prune, if_pos below]
        · have mem := (List.mem_cons.mp mem).resolve_left (Ne.symm same)
          exact cleared.gone other mem ((litter_prune_iff same).mpr litter) l below
      · rw [cleared.others l fun n mem litter => ?_, get?_prune,
          if_neg (outside name List.mem_cons_self left)]
        by_cases same : name = n
        · exact same ▸ outside name List.mem_cons_self left
        · exact outside n (List.mem_cons_of_mem _ mem) ((litter_prune_iff same).mp litter)
    · obtain ⟨t', swept, cleared⟩ := ih root
      refine ⟨t', step.trans swept, fun other mem litter => ?_, fun l outside => ?_⟩
      · rcases List.mem_cons.mp mem with rfl | mem
        · exact absurd litter not_left
        · exact cleared.gone other mem litter
      · exact cleared.others l fun n mem => outside n (List.mem_cons_of_mem _ mem)

/-- No scratch directory is left in the destination. -/
def Clear (t : FileTree) (destination d : Location) : Prop :=
  ∀ name, ¬ Litter t destination d name

theorem mem_children_of_litter {name : String} (h : Litter t destination d name) :
    name ∈ t.children d := by
  rw [mem_children_iff, h.2.2]
  rfl

section Cleared

variable (cleared : Cleared destination d (t.children d) t t')

include cleared

/-- What stands there after clearing stood there before. -/
theorem Cleared.get?_eq_or (l : Location) :
    t'.entries.get? l = t.entries.get? l ∨
      (t'.entries.get? l = none ∧ ∃ name, isScratchName name = true ∧ d ++ [name] <+: l) := by
  by_cases below : ∃ name, Litter t destination d name ∧ d ++ [name] <+: l
  · obtain ⟨name, litter, here⟩ := below
    exact .inr ⟨cleared.gone name (mem_children_of_litter litter) litter l here, name, litter.1,
      here⟩
  · push Not at below
    exact .inl (cleared.others l fun name _ => below name)

theorem Cleared.clear : Clear t' destination d := by
  intro name litter
  have found := litter.2.2
  by_cases before : Litter t destination d name
  · rw [cleared.gone name (mem_children_of_litter before) before _ (List.prefix_refl _)] at found
    cases found
  · rcases cleared.get?_eq_or (d ++ [name]) with same | ⟨gone, -⟩
    · exact before ⟨litter.1, litter.2.1, same ▸ found⟩
    · rw [gone] at found
      cases found

theorem Cleared.linkFree (free : t.LinkFree destination d) : t'.LinkFree destination d := by
  apply free.of_changes
  intro l
  rcases cleared.get?_eq_or l with same | ⟨gone, name, scratch, rest, rfl⟩
  · exact .inl same
  · exact .inr ⟨name :: rest, by simp, by simp, .inl gone⟩

end Cleared

theorem Clear.sweepScratch_ok (clear : Clear t destination d) (root : t.Root destination d)
    (names : List String) : sweepScratch destination names t = .ok () t := by
  obtain ⟨t', swept, cleared⟩ := sweepScratch_clears root names
  rw [swept, show t' = t from ext_get? fun l => cleared.others l fun name _ litter =>
    absurd litter (clear name)]

end VirtualModules
