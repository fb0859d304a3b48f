import VirtualModules.Proofs.AtRest
import VirtualModules.Proofs.ExactSweeps

/-!
# What an install tells

An install that goes through tells what it did. If no copy of a staged artifact lies in the place of
another one's file, placing one of them never disturbs another (`PlacedApart`, `placed_apart`, also
in a destination that is new: `placed_apart_new`), and the outcome accounts for all that has changed
(`Accounts`, `accounts_of_install`). It does not if there is such a copy (`copy_in_the_way`).
-/

namespace VirtualModules

open FileTree

/-- The destination is there, or it is empty once it was made. -/
def FileTree.ThereOrEmpty (t : FileTree) (destination d : Location) : Prop :=
  t.isDirectory destination = true ∨
    ∀ q, q ≠ [] → (t.makeDirectories destination).entries.get? (d ++ q) = none

namespace InstallPlan

variable {p : InstallPlan} {t t₁ t' : FileTree} {d c : Location} {nspace : ImportPath}
  {known : ImportPath → Bool} {e : Location × Option String}
  {items : List (Location × Option String)} {r : List Location × List Location}

/-! ## Placing artifacts that are apart -/

/-- The artifact is up to date in its place. -/
def current (p : InstallPlan) (t : FileTree) (e : Location × Option String) : Bool :=
  p.upToDate t (p.destination ++ e.1) e.2

/-- The places of some artifacts. -/
def places (p : InstallPlan) (items : List (Location × Option String)) : List Location :=
  items.map fun e => p.destination ++ e.1

/-- Artifacts to be placed, none of which has its copy in the place of another one. -/
structure Apart (d c : Location) (t : FileTree) (items : List (Location × Option String)) :
    Prop where
  dotted : ∀ e ∈ items, DottedLast e.1
  distinct : (items.map (·.1)).Nodup
  copies : ∀ e ∈ items, ∃ content, t.entries.get? (c ++ e.1) = some (.file content)
  apart : ∀ e ∈ items, ∀ e' ∈ items, e.1 ≠ e'.1 → c ++ e.1 ≠ d ++ e'.1

/-- What placing them did, told from what was up to date before. -/
structure PlacedApart (p : InstallPlan) (d c : Location) (items : List (Location × Option String))
    (t t' : FileTree) (r : List Location × List Location) : Prop where
  result : r = (p.places (items.filter fun e => !p.current t e),
    p.places (items.filter (p.current t)))
  moved : ∀ e ∈ items, p.current t e = false →
    Short p.destination e.1 ∧ t'.entries.get? (d ++ e.1) = t.entries.get? (c ++ e.1)
  others : ∀ l entry, t.entries.get? l = some entry → t'.entries.get? l = some entry ∨
    ∃ e ∈ items, p.current t e = false ∧ (l = c ++ e.1 ∨ d ++ e.1 <+: l)

theorem Apart.of_cons (apart : Apart d c t (e :: items)) : Apart d c t items where
  dotted e' mem := apart.dotted e' (List.mem_cons_of_mem _ mem)
  distinct := (List.nodup_cons.mp apart.distinct).2
  copies e' mem := apart.copies e' (List.mem_cons_of_mem _ mem)
  apart e' mem e'' mem' :=
    apart.apart e' (List.mem_cons_of_mem _ mem) e'' (List.mem_cons_of_mem _ mem')

theorem Apart.fresh (apart : Apart d c t (e :: items)) {e' : Location × Option String}
    (mem : e' ∈ items) : e'.1 ≠ e.1 := by
  intro same
  exact (List.nodup_cons.mp apart.distinct).1 (List.mem_map.mpr ⟨e', mem, same⟩)

/-- What becomes of another artifact does not touch the place of one. -/
theorem Apart.beside (apart : Apart d c t items) {e' : Location × Option String} (mem : e ∈ items)
    (mem' : e' ∈ items) (differ : e'.1 ≠ e.1) :
    ¬ (d ++ e.1 = c ++ e'.1 ∨ d ++ e'.1 <+: d ++ e.1) := by
  rintro (clash | below)
  · exact apart.apart e' mem' e mem differ clash.symm
  · rw [List.prefix_append_right_inj] at below
    exact differ ((apart.dotted e' mem').eq_of_isPrefix (apart.dotted e mem) below)

section Moved

variable {content : Bytes} (apart : Apart d c t (e :: items)) (moved : Moved d c e.1 content t t₁)

include apart moved

/-- Moving one file leaves the copies of the others where they are. -/
theorem Apart.copy_kept {e' : Location × Option String} (mem : e' ∈ items) :
    t₁.entries.get? (c ++ e'.1) = t.entries.get? (c ++ e'.1) := by
  have here := List.mem_cons_self (a := e) (l := items)
  have there := List.mem_cons_of_mem e mem
  have differ := apart.fresh mem
  exact (moved.copies (apart.dotted e here) (apart.dotted e' there) differ).resolve_left
    (apart.apart e' there e here differ)

/-- And it leaves alone what is in the places of the others. -/
theorem Apart.place_kept {e' : Location × Option String} (mem : e' ∈ items) :
    t₁.entries.get? (d ++ e'.1) = t.entries.get? (d ++ e'.1) := by
  have there := List.mem_cons_of_mem e mem
  obtain ⟨not_copy, outside⟩ := not_or.mp
    (apart.beside there List.mem_cons_self (apart.fresh mem).symm)
  rcases moved.others _ outside not_copy with same | ⟨-, -, r, nonempty, undotted, clash⟩
  · exact same
  · exact absurd clash ((apart.dotted e' there).ne_undotted nonempty undotted d d)

theorem Apart.after : Apart d c t₁ items :=
  { apart.of_cons with
    copies := fun e' mem => by
      rw [apart.copy_kept moved mem]
      exact apart.copies e' (List.mem_cons_of_mem _ mem) }

/-- So none of them comes up to date or out of date. -/
theorem Apart.current_kept (by_name : p.resolver = .ofNames known) (ground : p.Ground d c t)
    (ground₁ : p.Ground d c t₁) {e' : Location × Option String} (mem : e' ∈ items) :
    p.current t₁ e' = p.current t e' := by
  have dotted := apart.dotted e' (List.mem_cons_of_mem e mem)
  exact upToDate_congr by_name ground₁.free.toRoot ground.free.toRoot dotted.plain dotted.nonempty
    (apart.place_kept moved mem) e'.2

end Moved

theorem PlacedApart.cons_unchanged (placed : p.PlacedApart d c items t t' r)
    (current : p.current t e = true) :
    p.PlacedApart d c (e :: items) t t' (r.1, (p.destination ++ e.1) :: r.2) where
  result := by
    rw [List.filter_cons_of_neg (by simp [current]), List.filter_cons_of_pos current,
      placed.result]
    rfl
  moved := by
    refine List.forall_mem_cons.mpr ⟨fun stale => ?_, placed.moved⟩
    cases current.symm.trans stale
  others l entry found := by
    rcases placed.others l entry found with same | ⟨e', mem, there⟩
    · exact .inl same
    · exact .inr ⟨e', List.mem_cons_of_mem _ mem, there⟩

theorem PlacedApart.cons_installed {content : Bytes} (by_name : p.resolver = .ofNames known)
    (apart : Apart d c t (e :: items)) (ground : p.Ground d c t) (ground₁ : p.Ground d c t₁)
    (short : Short p.destination e.1) (moved : Moved d c e.1 content t t₁)
    (placed : p.PlacedApart d c items t₁ t' r) (stale : p.current t e = false) :
    p.PlacedApart d c (e :: items) t t' ((p.destination ++ e.1) :: r.1, r.2) := by
  have same : ∀ e' ∈ items, p.current t₁ e' = p.current t e' := fun e' mem =>
    apart.current_kept moved by_name ground ground₁ mem
  have here := List.mem_cons_self (a := e) (l := items)
  refine ⟨?_, List.forall_mem_cons.mpr ⟨fun _ => ⟨short, ?_⟩, fun e' mem stale' => ?_⟩,
    fun l entry found => ?_⟩
  · have stale_same : ∀ e' ∈ items, (!p.current t₁ e') = !p.current t e' := fun e' mem => by
      rw [same e' mem]
    rw [List.filter_cons_of_pos (by simp [stale]), List.filter_cons_of_neg (by simp [stale]),
      placed.result, List.filter_congr same, List.filter_congr stale_same]
    rfl
  · -- what is placed later is in other places
    rw [moved.copy]
    refine (placed.others _ _ moved.target).resolve_right ?_
    rintro ⟨e', mem, -, clash⟩
    exact apart.beside here (List.mem_cons_of_mem _ mem) (apart.fresh mem) clash
  · obtain ⟨short', placed'⟩ := placed.moved e' mem ((same e' mem).trans stale')
    exact ⟨short', placed'.trans (apart.copy_kept moved mem)⟩
  · by_cases at_e : l = c ++ e.1 ∨ d ++ e.1 <+: l
    · exact .inr ⟨e, here, stale, at_e⟩
    obtain ⟨not_copy, outside⟩ := not_or.mp at_e
    rcases moved.others l outside not_copy with kept | ⟨absent, -⟩
    · rcases placed.others l entry (kept.trans found) with kept' | ⟨e', mem, stale', there⟩
      · exact .inl kept'
      · exact .inr ⟨e', List.mem_cons_of_mem _ mem, (same e' mem).symm.trans stale', there⟩
    · cases absent.symm.trans found

theorem placed_apart_nil : p.PlacedApart d c [] t t ([], []) where
  result := rfl
  moved _ mem := nomatch mem
  others _ _ := .inl

/-- Artifacts that are apart are placed as each would be alone. -/
theorem placed_apart (by_name : p.resolver = .ofNames known) (apart : Apart d c t items)
    (ground : p.Ground d c t) (all : p.placeAll items t = .ok r t') :
    p.PlacedApart d c items t t' r := by
  induction items generalizing t r with
  | nil =>
    cases all
    exact placed_apart_nil
  | cons e rest ih =>
    obtain ⟨placed, t₁, r₁, one, later, listing⟩ := of_placeAll_cons_ok all
    rw [listing]
    rcases of_placeOne_ok one with ⟨current, rfl, rfl⟩ | ⟨stale, rfl, replaced⟩
    · exact (ih apart.of_cons ground later).cons_unchanged current
    · obtain ⟨ground₁, short, content, moved⟩ := ground.replace
        (apart.dotted e List.mem_cons_self) (.inr (apart.copies e List.mem_cons_self)) replaced
      exact (ih (apart.after moved) ground₁ later).cons_installed by_name apart ground ground₁ short
        moved stale

/-! ## Placing in a new destination -/

/-- The copies stay where they are wherever directories are made. -/
theorem Apart.after_makeDirectories (apart : Apart d c t items) (names : Location) :
    Apart d c (t.makeDirectories names) items :=
  { apart with
    copies := fun e mem => by
      obtain ⟨content, copy⟩ := apart.copies e mem
      exact ⟨content, get?_makeDirectories_of_some copy⟩ }

section New

variable (missing : ¬ t.isDirectory p.destination = true)
  (root : (t.makeDirectories p.destination).Root p.destination d)
  (empty : ∀ q, q ≠ [] → (t.makeDirectories p.destination).entries.get? (d ++ q) = none)

include root empty

theorem current_of_empty (dotted : DottedLast e.1) :
    p.current (t.makeDirectories p.destination) e = false := by
  apply upToDate_of_absent
  rw [← Bool.not_eq_true, root.present_iff dotted.plain dotted.nonempty, empty e.1 dotted.nonempty]
  exact fun ⟨_, there⟩ => Bool.false_ne_true there

include missing

/-- What placing artifacts did can be told from before the destination was made. -/
theorem PlacedApart.before_made (apart : Apart d c t items)
    (placed : p.PlacedApart d c items (t.makeDirectories p.destination) t' r) :
    p.PlacedApart d c items t t' r := by
  have stale : ∀ e ∈ items, p.current t e = false := fun e mem =>
    upToDate_of_missing missing (apart.dotted e mem).nonempty e.2
  have stale_made : ∀ e ∈ items, p.current (t.makeDirectories p.destination) e = false :=
    fun e mem => current_of_empty root empty (apart.dotted e mem)
  have same : ∀ e ∈ items, p.current (t.makeDirectories p.destination) e = p.current t e :=
    fun e mem => (stale_made e mem).trans (stale e mem).symm
  refine ⟨?_, fun e mem _ => ?_, fun l entry found => ?_⟩
  · have same_not : ∀ e ∈ items, (!p.current (t.makeDirectories p.destination) e) =
        !p.current t e := fun e mem => by rw [same e mem]
    rw [placed.result, List.filter_congr same, List.filter_congr same_not]
  · obtain ⟨short, moved⟩ := placed.moved e mem (stale_made e mem)
    obtain ⟨content, copy⟩ := apart.copies e mem
    rw [moved, copy]
    exact ⟨short, get?_makeDirectories_of_some copy⟩
  · refine (placed.others l entry (get?_makeDirectories_of_some found)).imp_right ?_
    rintro ⟨e, mem, -, there⟩
    exact ⟨e, mem, stale e mem, there⟩

end New

/-- The same holds where the destination is new. -/
theorem placed_apart_new (by_name : p.resolver = .ofNames known) (apart : Apart d c t items)
    (scratch : items ≠ [] → t.Root p.scratch c)
    (free : (t.makeDirectories p.destination).LinkFree p.destination d)
    (new : t.ThereOrEmpty p.destination d) (all : p.placeAll items t = .ok r t') :
    p.PlacedApart d c items t t' r := by
  cases items with
  | nil =>
    cases all
    exact placed_apart_nil
  | cons e rest =>
    have scratch := scratch (List.cons_ne_nil e rest)
    by_cases there : t.isDirectory p.destination = true
    · rw [makeDirectories_of_isDirectory there] at free
      exact placed_apart by_name apart ⟨free, scratch⟩ all
    · have empty := new.resolve_left there
      have dotted := apart.dotted e List.mem_cons_self
      have stale := current_of_empty free.toRoot empty dotted
      have apart_made := apart.after_makeDirectories p.destination
      have ground : p.Ground d c (t.makeDirectories p.destination) :=
        ⟨free, scratch.after_makeDirectories _⟩
      obtain ⟨t₁, r₁, content, ground₁, short, moved, later, listing⟩ := of_placeAll_missing there
        ground dotted (.inr (apart_made.copies e List.mem_cons_self)) all
      have placed := placed_apart by_name (apart_made.after moved) ground₁ later
      rw [listing]
      exact (placed.cons_installed by_name apart_made ground ground₁ short moved stale).before_made
        there free.toRoot empty apart

/-! ## Accounting for changes -/

/-- The outcome of an install accounts for everything it did, where the destination leads to `d` and
the scratch directory to `c`. -/
structure Accounts (p : InstallPlan) (d c : Location) (artifacts : List Artifact)
    (outcome : Outcome) (t t' : FileTree) : Prop where
  installed_ascending : outcome.installed.Pairwise (· < ·)
  unchanged_ascending : outcome.unchanged.Pairwise (· < ·)
  disjoint : ∀ loc ∈ outcome.installed, loc ∉ outcome.unchanged
  together : ∀ loc, loc ∈ outcome.installed ∨ loc ∈ outcome.unchanged ↔ p.IsTarget artifacts loc
  installed_iff : ∀ file a, latest p.extension file artifacts = some a →
    (p.destination ++ file ∈ outcome.installed ↔ t.present (p.destination ++ file) = false ∨
      p.stored? t (p.destination ++ file) ≠ a.summary)
  installed_bytes : ∀ file a, latest p.extension file artifacts = some a →
    p.destination ++ file ∈ outcome.installed →
    t'.read? (p.destination ++ file) = some (.ofText a.content)
  unchanged_bytes : ∀ loc ∈ outcome.unchanged, ∀ content, t.read? loc = some content →
    t'.read? loc = some content
  others : ∀ l entry, t.entries.get? l = some entry → t'.entries.get? l = some entry ∨
    (∃ names, l = d ++ names ∧ p.destination ++ names ∈ outcome.removed) ∨
    ∃ file, p.destination ++ file ∈ outcome.installed ∧ (l = d ++ file ∨ l = c ++ file ∨
      (t.entries.get? (d ++ file) = some .directory ∧ d ++ file <+: l))
  noop : outcome.isNoop = true → t' = t

theorem mem_places_iff {file : Location} :
    p.destination ++ file ∈ p.places items ↔ ∃ e ∈ items, e.1 = file := by
  simp [places]

theorem ascending_places (order : items.Pairwise fun a b => a.1 < b.1) :
    (p.places items).Pairwise (· < ·) :=
  List.pairwise_map.mpr (order.imp List.append_left_lt)

section Entries

variable {summaries : Table Location (Option String)}

theorem eq_of_mem_entries {e' : Location × Option String} (mem : e ∈ summaries.entries)
    (mem' : e' ∈ summaries.entries) (same : e.1 = e'.1) : e = e' := by
  have here := Table.get?_eq_some_iff.mpr mem
  have there := Table.get?_eq_some_iff.mpr mem'
  rw [← same, here] at there
  exact Prod.ext same (Option.some.inj there)

/-- Where a file has one summary, what is true of its place is true of the file. -/
theorem mem_places_filter_iff (choose : Location × Option String → Bool)
    (mem : e ∈ summaries.entries) :
    p.destination ++ e.1 ∈ p.places (summaries.entries.filter choose) ↔ choose e = true := by
  rw [mem_places_iff]
  constructor
  · rintro ⟨e', mem', same⟩
    obtain ⟨mem', chosen⟩ := List.mem_filter.mp mem'
    rwa [← eq_of_mem_entries mem' mem same]
  · intro chosen
    exact ⟨e, List.mem_filter.mpr ⟨mem, chosen⟩, rfl⟩

/-- What is up to date stays as it is. -/
theorem PlacedApart.kept_current (placed : p.PlacedApart d c summaries.entries t t' r)
    (apart : Apart d c t summaries.entries) (mem : e ∈ summaries.entries)
    (current : p.current t e = true) {entry : Entry}
    (found : t.entries.get? (d ++ e.1) = some entry) :
    t'.entries.get? (d ++ e.1) = some entry := by
  refine (placed.others _ _ found).resolve_right ?_
  rintro ⟨e', mem', stale, clash⟩
  refine apart.beside mem mem' (fun same => ?_) clash
  rw [eq_of_mem_entries mem' mem same, current] at stale
  cases stale

/-- What was there is still there, or an artifact that was installed came in its way: its copy or
its file. -/
theorem PlacedApart.others_cases (placed : p.PlacedApart d c summaries.entries t t' r)
    (apart : Apart d c t summaries.entries) {l : Location} {entry : Entry}
    (found : t.entries.get? l = some entry) : t'.entries.get? l = some entry ∨
      ∃ e ∈ summaries.entries, p.current t e = false ∧ (l = d ++ e.1 ∨ l = c ++ e.1 ∨
        (t.entries.get? (d ++ e.1) = some .directory ∧ d ++ e.1 <+: l)) := by
  rcases placed.others l entry found with same | ⟨e, mem, stale, here | below⟩
  · exact .inl same
  · exact .inr ⟨e, mem, stale, .inr (.inl here)⟩
  · refine .inr ⟨e, mem, stale, ?_⟩
    by_cases here : l = d ++ e.1
    · exact .inl here
    · obtain ⟨rest, rfl⟩ := below
      have more : rest ≠ [] := fun none => here (by rw [none, List.append_nil])
      have not_root : d ++ e.1 ≠ [] :=
        List.append_ne_nil_of_right_ne_nil _ (apart.dotted e mem).nonempty
      have directory := (holdsDirectory_of_get? more found).resolve_left not_root
      exact .inr (.inr ⟨directory, List.prefix_append _ rest⟩)

section Placed

variable (placed : p.PlacedApart d c summaries.entries t t' r)

include placed

theorem PlacedApart.mem_installed_iff (mem : e ∈ summaries.entries) :
    p.destination ++ e.1 ∈ r.1 ↔ p.current t e = false := by
  rw [placed.result, mem_places_filter_iff _ mem, Bool.not_eq_true']

theorem PlacedApart.mem_unchanged_iff (mem : e ∈ summaries.entries) :
    p.destination ++ e.1 ∈ r.2 ↔ p.current t e = true := by
  rw [placed.result, mem_places_filter_iff _ mem]

theorem PlacedApart.ascending : r.1.Pairwise (· < ·) ∧ r.2.Pairwise (· < ·) := by
  rw [placed.result]
  exact ⟨ascending_places (summaries.ascending.filter _),
    ascending_places (summaries.ascending.filter _)⟩

theorem PlacedApart.exists_of_installed {loc : Location} (mem : loc ∈ r.1) :
    ∃ e ∈ summaries.entries, p.current t e = false ∧ p.destination ++ e.1 = loc := by
  rw [placed.result] at mem
  obtain ⟨e, mem, here⟩ := List.mem_map.mp mem
  obtain ⟨mem, stale⟩ := List.mem_filter.mp mem
  exact ⟨e, mem, by simpa using stale, here⟩

theorem PlacedApart.exists_of_unchanged {loc : Location} (mem : loc ∈ r.2) :
    ∃ e ∈ summaries.entries, p.current t e = true ∧ p.destination ++ e.1 = loc := by
  rw [placed.result] at mem
  obtain ⟨e, mem, here⟩ := List.mem_map.mp mem
  obtain ⟨mem, current⟩ := List.mem_filter.mp mem
  exact ⟨e, mem, current, here⟩

theorem PlacedApart.disjoint : ∀ loc ∈ r.1, loc ∉ r.2 := by
  intro loc mem mem'
  obtain ⟨e, mem_e, stale, rfl⟩ := placed.exists_of_installed mem
  cases stale.symm.trans ((placed.mem_unchanged_iff mem_e).mp mem')

theorem PlacedApart.mem_iff (loc : Location) :
    loc ∈ r.1 ∨ loc ∈ r.2 ↔ ∃ e ∈ summaries.entries, loc = p.destination ++ e.1 := by
  constructor
  · rintro (mem | mem)
    · obtain ⟨e, mem_e, -, rfl⟩ := placed.exists_of_installed mem
      exact ⟨e, mem_e, rfl⟩
    · obtain ⟨e, mem_e, -, rfl⟩ := placed.exists_of_unchanged mem
      exact ⟨e, mem_e, rfl⟩
  · rintro ⟨e, mem_e, rfl⟩
    rw [placed.mem_installed_iff mem_e, placed.mem_unchanged_iff mem_e]
    exact (Bool.eq_false_or_eq_true _).symm

/-- Where nothing was installed, nothing has changed. -/
theorem PlacedApart.eq_of_nil (nothing : r.1 = [])
    (all : p.placeAll summaries.entries t = .ok r t') : t' = t := by
  have current : ∀ e ∈ summaries.entries, p.upToDate t (p.destination ++ e.1) e.2 = true := by
    intro e mem
    rw [← Bool.not_eq_false]
    intro stale
    have listed := (placed.mem_installed_iff mem).mpr stale
    rw [nothing] at listed
    cases listed
  injection all.symm.trans (placeAll_of_upToDate current)

end Placed

end Entries

theorem current_eq_false_iff : p.current t e = false ↔
    t.present (p.destination ++ e.1) = false ∨ p.stored? t (p.destination ++ e.1) ≠ e.2 := by
  simp only [current, upToDate, Bool.and_eq_false_iff, beq_eq_false_iff_ne]

section Install

variable {artifacts : List Artifact} {staging : Staging}

/-- What was staged is apart if no copy is in the place of another artifact's file. -/
theorem apart_of_copied (copied : Copied p.extension p.scratch c artifacts staging t)
    (extended : p.extension ≠ "")
    (apart : ∀ a ∈ artifacts, ∀ b ∈ artifacts,
      artifactFile p.extension a.virtualPath ≠ artifactFile p.extension b.virtualPath →
      c ++ artifactFile p.extension a.virtualPath ≠ d ++ artifactFile p.extension b.virtualPath) :
    Apart d c t staging.summaries.entries where
  dotted e mem := copied.dottedLast extended mem
  distinct := staging.summaries.keys_ascending.imp fun less => by
    rintro rfl
    exact Std.lt_irrefl less
  copies e mem := copied.exists_copy mem
  apart e mem e' mem' := by
    obtain ⟨a, last, -⟩ := copied.mem_entries_iff.mp mem
    obtain ⟨b, last', -⟩ := copied.mem_entries_iff.mp mem'
    obtain ⟨mem_a, file⟩ := of_latest last
    obtain ⟨mem_b, file'⟩ := of_latest last'
    rw [← file, ← file']
    exact apart a mem_a b mem_b

theorem accounts_nil : p.Accounts d c [] ⟨[], [], []⟩ t t where
  installed_ascending := .nil
  unchanged_ascending := .nil
  disjoint _ mem := nomatch mem
  together loc := by
    simp [IsTarget]
  installed_iff _ _ last := nomatch last
  installed_bytes _ _ last := nomatch last
  unchanged_bytes _ mem := nomatch mem
  others _ _ := .inl
  noop _ := rfl

section Swept

variable (copied : Copied p.extension p.scratch c artifacts staging t)
  (extended : p.extension ≠ "") (placed : p.PlacedApart d c staging.summaries.entries t t₁ r)
  (free : t₁.LinkFree p.destination d) {removed : List Location}
  (sweep : p.sweepAll (p.keptFiles staging.summaries) (p.sweepRoot nspace)
    (sweepList t₁ (p.sweepRoot nspace)) t₁ = .ok removed t')

include placed free sweep

section Bytes

include copied extended

/-- What was placed is not swept away. -/
theorem read?_of_installed {file : Location} {a : Artifact}
    (last : latest p.extension file artifacts = some a) (mem : p.destination ++ file ∈ r.1) :
    t'.read? (p.destination ++ file) = some (.ofText a.content) := by
  have swept := (swept_of_sweepAll_ok free sweep).1
  have mem_e := copied.mem_of_latest last
  have dotted := copied.dottedLast extended mem_e
  obtain ⟨short, moved⟩ := placed.moved _ mem_e ((placed.mem_installed_iff mem_e).mp mem)
  have free' := swept.linkFree free
  refine (free'.toRoot.read?_eq_some_iff dotted.plain dotted.nonempty).mpr ⟨short, ?_⟩
  rw [swept.kept_file mem_e, moved, copied.copies file a last]

/-- Neither is what was up to date. -/
theorem read?_of_unchanged (free_made : (t.makeDirectories p.destination).LinkFree p.destination d)
    (apart : Apart d c t staging.summaries.entries) {loc : Location} (mem : loc ∈ r.2)
    {content : Bytes} (read : t.read? loc = some content) : t'.read? loc = some content := by
  have swept := (swept_of_sweepAll_ok free sweep).1
  obtain ⟨e, mem_e, current, rfl⟩ := placed.exists_of_unchanged mem
  have dotted := copied.dottedLast extended mem_e
  -- where something was read, the destination was there
  rw [makeDirectories_of_read? read] at free_made
  obtain ⟨short, found⟩ :=
    (free_made.toRoot.read?_eq_some_iff dotted.plain dotted.nonempty).mp read
  have free' := swept.linkFree free
  refine (free'.toRoot.read?_eq_some_iff dotted.plain dotted.nonempty).mpr ⟨short, ?_⟩
  rw [swept.kept_file mem_e, placed.kept_current apart mem_e current found]

end Bytes

/-- What was there is still there, or it was swept away, or an artifact came in its way. -/
theorem kept_or_listed (apart : Apart d c t staging.summaries.entries) {l : Location}
    {entry : Entry} (found : t.entries.get? l = some entry) : t'.entries.get? l = some entry ∨
      (∃ names, l = d ++ names ∧ p.destination ++ names ∈ removed) ∨
      ∃ file, p.destination ++ file ∈ r.1 ∧ (l = d ++ file ∨ l = c ++ file ∨
        (t.entries.get? (d ++ file) = some .directory ∧ d ++ file <+: l)) := by
  rcases placed.others_cases apart found with kept | ⟨e, mem, stale, here⟩
  · exact (remains_or_removed free sweep kept).imp_right .inl
  · exact .inr (.inr ⟨e.1, (placed.mem_installed_iff mem).mpr stale, here⟩)

end Swept

/-- An install of staged artifacts that are apart accounts for everything it did. The scratch
directory and the destination may have to be made first. -/
theorem accounts_of_install {base : FileTree} {outcome : Outcome}
    (by_name : p.resolver = .ofNames known) (extended : p.extension ≠ "")
    (scratch : (base.makeDirectories p.scratch).Root p.scratch c)
    (staged : stageAll p.scratch (.new p.extension) artifacts base = .ok staging t)
    (free : (t.makeDirectories p.destination).LinkFree p.destination d)
    (new : t.ThereOrEmpty p.destination d)
    (apart : ∀ a ∈ artifacts, ∀ b ∈ artifacts,
      artifactFile p.extension a.virtualPath ≠ artifactFile p.extension b.virtualPath →
      c ++ artifactFile p.extension a.virtualPath ≠ d ++ artifactFile p.extension b.virtualPath)
    (installed : p.install staging.summaries nspace t = .ok outcome t') :
    p.Accounts d c artifacts outcome t t' := by
  have copied := copied_of_stageAll extended scratch staged
  have apart := apart_of_copied copied extended apart
  obtain ⟨t₃, removed, place, sweep, listing⟩ := of_install_ok installed
  obtain ⟨installed, unchanged, listed⟩ := outcome
  subst listing
  rcases linkFree_of_copied extended copied free place with free₃ | ⟨rfl, rfl, missing⟩
  · have placed := placed_apart_new by_name apart copied.root_of_entries free new place
    refine ⟨placed.ascending.1, placed.ascending.2, placed.disjoint, fun loc => ?_,
      fun file a last => ?_, fun file a last mem => ?_, fun loc mem content read => ?_,
      fun l entry found => ?_, fun noop => ?_⟩
    · exact (placed.mem_iff loc).trans (isTarget_iff copied loc).symm
    · exact (placed.mem_installed_iff (copied.mem_of_latest last)).trans current_eq_false_iff
    · exact read?_of_installed copied extended placed free₃ sweep last mem
    · exact read?_of_unchanged copied extended placed free₃ sweep free apart mem read
    · simp only [List.mem_mergeSort]
      exact kept_or_listed placed free₃ sweep apart found
    · obtain ⟨none_installed, none_removed⟩ := Bool.and_eq_true_iff.mp noop
      rw [List.isEmpty_iff] at none_installed none_removed
      have sorted := List.mergeSort_perm removed fun a b => a ≤ b
      dsimp only at none_removed
      rw [none_removed] at sorted
      have nothing : removed = [] := sorted.nil_eq.symm
      rw [eq_of_removed_nil free₃ sweep nothing, placed.eq_of_nil none_installed place]
  · obtain ⟨rfl, rfl, -⟩ := of_sweepAll_missing missing sweep
    rw [copied.entries_eq_nil_iff.mpr rfl] at place
    cases place
    rw [List.mergeSort_nil]
    exact accounts_nil

end Install

end InstallPlan

/-! ## A copy in the way -/

namespace Adoption

def settled : Artifact := ⟨⟨"v.b", by decide⟩, some "2", "", ∅⟩

/-- One of two artifacts is in its place. -/
def settledTree : FileTree :=
  (((∅ : FileTree).makeDirectories ["out", "v"]).write? ["out", "v", "b.py"]
    (.ofText "mod = \"m\"\nsummary = \"2\"\n")).getD ∅

def settledStaging : Staging :=
  ⟨"py", .ofList [(["v", "a.py"], some "1"), (["v", "b.py"], some "2")]⟩

def bothStaged : FileTree :=
  (((settledTree.makeDirectories ["tmp", "v"]).write? ["tmp", "v", "a.py"] (.ofText "")).bind
    (·.write? ["tmp", "v", "b.py"] (.ofText ""))).getD ∅

theorem stageAll_both :
    stageAll ["tmp"] (.new "py") [spare, settled] settledTree = .ok settledStaging bothStaged := rfl

theorem linkFree_settledTree : (settledTree.makeDirectories ["tmp"]).LinkFree ["tmp"] ["tmp"] :=
  linkFree_of_entries (by decide +kernel) (by decide +kernel) (by decide +kernel)

theorem linkFree_bothStaged : (bothStaged.makeDirectories ["out"]).LinkFree ["out"] ["out"] :=
  linkFree_of_entries (by decide +kernel) (by decide +kernel) (by decide +kernel)

/-- The other one is installed, and nothing else happens. -/
theorem settled_accounts : (sparePlan.resolver = .ofNames fun _ => true) ∧
    stageAll ["tmp"] (.new "py") [spare, settled] settledTree = .ok settledStaging bothStaged ∧
    ∃ outcome t',
      sparePlan.install settledStaging.summaries spareNamespace bothStaged = .ok outcome t' ∧
      outcome.installed = [["out", "v", "a.py"]] ∧ outcome.unchanged = [["out", "v", "b.py"]] ∧
      sparePlan.Accounts ["out"] ["tmp"] [spare, settled] outcome bothStaged t' := by
  have by_name : sparePlan.resolver = .ofNames fun _ => true := rfl
  refine ⟨by_name, stageAll_both, _, _, rfl, by decide +kernel, by decide +kernel, ?_⟩
  have ended : sparePlan.install settledStaging.summaries spareNamespace bothStaged = .ok _ _ := rfl
  exact InstallPlan.accounts_of_install by_name (by decide) linkFree_settledTree.toRoot
    stageAll_both linkFree_bothStaged (.inl (by decide +kernel)) (by decide +kernel) ended

/-- The copy of the second artifact lies in the place of the first one. -/
def nested : List Artifact :=
  [⟨⟨"scratch.scratch.x", by decide⟩, some "1", "first", ∅⟩,
    ⟨⟨"scratch.x", by decide⟩, some "2", "second", ∅⟩]

def nestedPlan : InstallPlan := ⟨"py", ["scratch"], [], .everything⟩

def nestedStaging : Staging :=
  ⟨"py", .ofList [(["scratch", "scratch", "x.py"], some "1"), (["scratch", "x.py"], some "2")]⟩

def nestedStaged : FileTree :=
  ((((∅ : FileTree).makeDirectories ["scratch", "scratch", "scratch"]).write?
    ["scratch", "scratch", "scratch", "x.py"] (.ofText "first")).bind
    (·.write? ["scratch", "scratch", "x.py"] (.ofText "second"))).getD ∅

theorem linkFree_scratch : ((∅ : FileTree).makeDirectories ["scratch"]).LinkFree ["scratch"]
    ["scratch"] :=
  linkFree_of_entries (by decide +kernel) (by decide +kernel) (by decide +kernel)

theorem linkFree_nestedStaged : (nestedStaged.makeDirectories []).LinkFree [] [] :=
  linkFree_of_entries (by decide +kernel) (by decide +kernel) (by decide +kernel)

theorem stageAll_nested :
    stageAll ["scratch"] (.new "py") nested ∅ = .ok nestedStaging nestedStaged := by
  have ends : (stageAll ["scratch"] (.new "py") nested).checks ∅ (fun staging t =>
      decide (staging.extension = "py" ∧ staging.summaries = nestedStaging.summaries ∧
        t = nestedStaged)) = true := by
    decide +kernel
  obtain ⟨⟨extension, summaries⟩, t, ended, checked⟩ := DiskAction.exists_of_checks ends
  obtain ⟨rfl, rfl, rfl⟩ := of_decide_eq_true checked
  exact ended

theorem nested_ends : (nestedPlan.install nestedStaging.summaries spareNamespace).checks
    nestedStaged (fun outcome t =>
      decide (outcome.installed = [["scratch", "scratch", "x.py"], ["scratch", "x.py"]]) &&
        decide (t.read? ["scratch", "scratch", "x.py"] = none) &&
        decide (t.read? ["scratch", "x.py"] = some (.ofText "first"))) = true := by
  decide +kernel

/-- Both artifacts are told to be installed, but the first one took the place of the second one's
copy and went on with it. -/
theorem copy_in_the_way : (nestedPlan.resolver = .ofNames fun _ => true) ∧
    nestedPlan.extension ≠ "" ∧
    ((∅ : FileTree).makeDirectories ["scratch"]).Root ["scratch"] ["scratch"] ∧
    stageAll ["scratch"] (.new "py") nested ∅ = .ok nestedStaging nestedStaged ∧
    (nestedStaged.makeDirectories []).LinkFree [] [] ∧ nestedStaged.ThereOrEmpty [] [] ∧
    ∃ outcome t',
      nestedPlan.install nestedStaging.summaries spareNamespace nestedStaged = .ok outcome t' ∧
      outcome.installed = [["scratch", "scratch", "x.py"], ["scratch", "x.py"]] ∧
      t'.read? ["scratch", "scratch", "x.py"] = none ∧
      t'.read? ["scratch", "x.py"] = some (.ofText "first") ∧
      ¬ nestedPlan.Accounts [] ["scratch"] nested outcome nestedStaged t' := by
  obtain ⟨outcome, t', ended, checked⟩ := DiskAction.exists_of_checks nested_ends
  simp only [Bool.and_eq_true, decide_eq_true_eq] at checked
  obtain ⟨⟨installed, absent⟩, moved_on⟩ := checked
  refine ⟨rfl, by decide, linkFree_scratch.toRoot, stageAll_nested, linkFree_nestedStaged, .inl rfl,
    outcome, t', ended, installed, absent, moved_on, fun accounts => ?_⟩
  have listed : nestedPlan.destination ++ ["scratch", "scratch", "x.py"] ∈ outcome.installed := by
    rw [installed]
    exact List.mem_cons_self
  have read := accounts.installed_bytes _ _ rfl listed
  cases absent.symm.trans read

end Adoption

end VirtualModules
