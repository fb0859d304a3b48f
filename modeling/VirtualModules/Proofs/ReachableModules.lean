import Mathlib.Logic.Function.Iterate
import VirtualModules.Report.Search

/-!
# Modules that a search reaches

The modules with a virtual module that are related to some modules, however far, are given by rules
(`Report.Reaches`). A search finds the virtual modules of exactly these
(`Search.mem_found_run_iff`): each step keeps that nothing else was found (`Search.Sound`) and that
nothing was lost (`Search.Lossless`), and the search ends when nothing is pending
(`Search.pending_run`).
-/

namespace VirtualModules

/-- The modules reached from some modules: those of them that have a virtual module, and whatever
has one and is related to a module reached. -/
inductive Report.Reaches (r : Report) (start : ImportPath → Prop) : ImportPath → Prop
  | seed {m : ImportPath} (starts : start m) (known : r.virtualModules.contains m = true) :
      r.Reaches start m
  | related {m n : ImportPath} (reached : r.Reaches start m) (related : n ∈ r.relatedTo m)
      (known : r.virtualModules.contains n = true) : r.Reaches start n

/-- The report `r'` has the virtual modules and the relations of `r`, and maybe more. -/
structure Report.Extends (r' r : Report) : Prop where
  virtualModules : ∀ {m v}, r.virtualModules.get? m = some v → r'.virtualModules.get? m = some v
  related : ∀ {a b}, b ∈ r.relatedTo a → b ∈ r'.relatedTo a

theorem Report.Extends.refl (r : Report) : r.Extends r := ⟨id, id⟩

namespace Report

variable {r r' : Report} {start start' : ImportPath → Prop} {a b : ImportPath}

theorem Extends.contains (more : r'.Extends r) (known : r.virtualModules.contains a = true) :
    r'.virtualModules.contains a = true := by
  obtain ⟨v, found⟩ := Option.isSome_iff_exists.mp known
  exact Option.isSome_iff_exists.mpr ⟨v, more.virtualModules found⟩

theorem Reaches.known (reached : r.Reaches start b) : r.virtualModules.contains b = true := by
  cases reached <;> assumption

/-- More relations lead from modules that are reached to all that fewer lead to. -/
theorem Reaches.extend (more : r'.Extends r)
    (starts : ∀ m, start m → r.virtualModules.contains m = true → r'.Reaches start' m)
    (reached : r.Reaches start b) : r'.Reaches start' b := by
  induction reached with
  | seed first known => exact starts _ first known
  | related _ step known ih => exact .related ih (more.related step) (more.contains known)

end Report

namespace Search

/-! ## Runs -/

/-- A run takes some steps, at most as many as there is work, and leaves nothing pending. -/
theorem run_eq_iterate (r : Report) (s : Search) :
    ∃ rounds ≤ s.work r, s.run r = (step r)^[rounds] s ∧ (s.run r).pending = [] := by
  fun_induction s.run r with
  | case1 s none => exact ⟨0, Nat.zero_le _, rfl, none⟩
  | case2 s more ih =>
    obtain ⟨rounds, bound, same, ended⟩ := ih
    exact ⟨rounds + 1, Nat.lt_of_le_of_lt bound (work_step_lt more), same, ended⟩

theorem pending_run (r : Report) (s : Search) : (s.run r).pending = [] :=
  have ⟨_, _, _, ended⟩ := run_eq_iterate r s
  ended

/-- What each step keeps, a run keeps. -/
theorem run_induction {r : Report} {P : Search → Prop} (kept : ∀ s, P s → P (s.step r)) {s : Search}
    (holds : P s) : P (s.run r) := by
  obtain ⟨rounds, _, same, _⟩ := run_eq_iterate r s
  rw [same]
  exact Function.Iterate.rec P holds kept rounds

/-! ## What a step keeps -/

variable {r : Report} {start : ImportPath → Prop}

/-- Only modules that are reached are going to count or have counted. -/
structure Sound (r : Report) (start : ImportPath → Prop) (s : Search) : Prop where
  pending : ∀ m ∈ s.pending, r.virtualModules.contains m = true → r.Reaches start m
  found : ∀ v ∈ s.found, ∃ m, r.Reaches start m ∧ r.virtualModules.get? m = some v

/-- Every module to start from and every module related to one that counted is visited or pending,
and those that were visited have counted. -/
structure Lossless (r : Report) (start : ImportPath → Prop) (s : Search) : Prop where
  seeds : ∀ m, start m → r.virtualModules.contains m = true → m ∈ s.visited ∨ m ∈ s.pending
  related : ∀ m ∈ s.visited, r.virtualModules.contains m = true →
    ∀ n ∈ r.relatedTo m, n ∈ s.visited ∨ n ∈ s.pending
  found : ∀ m ∈ s.visited, ∀ v, r.virtualModules.get? m = some v → v ∈ s.found

/-- What a step comes to: there is nothing left, or the next module was visited before, or it has no
virtual module, or it has one and the modules related to it come next. -/
theorem step_cases (r : Report) (s : Search) :
    (s.pending = [] ∧ s.step r = s) ∨
    ∃ module rest, s.pending = module :: rest ∧
      ((module ∈ s.visited ∧ s.step r = { s with pending := rest }) ∨
      (r.virtualModules.get? module = none ∧
        s.step r = { s with pending := rest, visited := s.visited.insert module }) ∨
      ∃ virtualPath added, r.virtualModules.get? module = some virtualPath ∧
        (∀ m, m ∈ added ↔ m ∈ r.relatedTo module ∧ m ∉ s.visited.insert module) ∧
        s.step r = ⟨added ++ rest, s.visited.insert module, s.found.insert virtualPath⟩) := by
  unfold step
  split
  · next none => exact .inl ⟨none, rfl⟩
  · next module rest pending =>
    refine .inr ⟨module, rest, pending, ?_⟩
    unfold visit
    split
    · next before => exact .inl ⟨before, rfl⟩
    · split
      · next unknown => exact .inr (.inl ⟨unknown, rfl⟩)
      · next virtualPath known =>
        exact .inr (.inr ⟨virtualPath, _, known, fun m => by simp [SortedSet.mem_toList], rfl⟩)

theorem contains_of_get? {t : PathTable} {m v : ImportPath} (known : t.get? m = some v) :
    t.contains m = true := by
  rw [Table.contains, known]
  rfl

theorem Sound.step {s : Search} (sound : s.Sound r start) : (s.step r).Sound r start := by
  obtain ⟨_, same⟩ | ⟨module, rest, pending, outcome⟩ := step_cases r s
  · rw [same]
    exact sound
  have later : ∀ m ∈ rest, r.virtualModules.contains m = true → r.Reaches start m := fun m mem =>
    sound.pending m (pending ▸ List.mem_cons_of_mem _ mem)
  obtain ⟨_, same⟩ | ⟨_, same⟩ | ⟨virtualPath, added, known, mem_added, same⟩ := outcome
  · exact same ▸ ⟨later, sound.found⟩
  · exact same ▸ ⟨later, sound.found⟩
  · have reached := sound.pending module (pending ▸ List.mem_cons_self) (contains_of_get? known)
    rw [same]
    constructor
    · intro m mem has
      rcases List.mem_append.mp mem with mem | mem
      · exact .related reached ((mem_added m).mp mem).1 has
      · exact later m mem has
    · intro v mem
      rcases SortedSet.mem_insert.mp mem with rfl | mem
      · exact ⟨module, reached, known⟩
      · exact sound.found v mem

theorem Lossless.step {s : Search} (lossless : s.Lossless r start) :
    (s.step r).Lossless r start := by
  obtain ⟨_, same⟩ | ⟨module, rest, pending, outcome⟩ := step_cases r s
  · rw [same]
    exact lossless
  have seeds := lossless.seeds
  have related := lossless.related
  simp only [pending, List.mem_cons] at seeds related
  obtain ⟨before, same⟩ | ⟨unknown, same⟩ | ⟨virtualPath, added, known, mem_added, same⟩ := outcome
  · -- the module that goes away was visited
    rw [same]
    exact ⟨by grind, by grind, lossless.found⟩
  · -- the module visited now has nothing to offer
    have lost : r.virtualModules.contains module = false := by rw [Table.contains, unknown]; rfl
    rw [same]
    constructor <;> simp only [SortedSet.mem_insert]
    · grind
    · grind
    · rintro m (rfl | visited) v has
      · rw [unknown] at has
        cases has
      · exact lossless.found m visited v has
  · rw [same]
    constructor <;> simp only [SortedSet.mem_insert, List.mem_append, mem_added]
    · grind
    · rintro m (rfl | visited) has n mem
      · grind
      · grind
    · rintro m (rfl | visited) v has
      · rw [known] at has
        exact .inl (Option.some.inj has).symm
      · exact .inr (lossless.found m visited v has)

/-! ## What a run finds -/

theorem sound_start {seeds : List ImportPath}
    (starts : ∀ m ∈ seeds, r.virtualModules.contains m = true → start m) :
    (Search.start seeds).Sound r start :=
  ⟨fun m mem known => .seed (starts m (List.mem_reverse.mp mem) known) known,
    fun _ mem => absurd mem (SortedSet.not_mem_empty _)⟩

theorem lossless_start {seeds : List ImportPath}
    (starts : ∀ m, start m → r.virtualModules.contains m = true → m ∈ seeds) :
    (Search.start seeds).Lossless r start :=
  ⟨fun m mem known => .inr (List.mem_reverse.mpr (starts m mem known)),
    fun _ mem => absurd mem (SortedSet.not_mem_empty _),
    fun _ mem => absurd mem (SortedSet.not_mem_empty _)⟩

/-- When nothing is pending any more, all that is reached was visited. -/
theorem Lossless.mem_visited {s : Search} (lossless : s.Lossless r start) (ended : s.pending = [])
    {m : ImportPath} (reached : r.Reaches start m) : m ∈ s.visited := by
  have seeds := lossless.seeds
  have related := lossless.related
  simp only [ended, List.not_mem_nil, or_false] at seeds related
  induction reached with
  | seed starts known => exact seeds _ starts known
  | @related m n reached step _ visited =>
    have known : r.virtualModules.contains m = true := by cases reached <;> assumption
    exact related m visited known n step

/-- A search finds the virtual modules of what is reached from where it starts. -/
theorem mem_found_run_iff {seeds : List ImportPath}
    (starts : ∀ m, r.virtualModules.contains m = true → (m ∈ seeds ↔ start m)) {v : ImportPath} :
    v ∈ ((Search.start seeds).run r).found ↔
      ∃ m, r.Reaches start m ∧ r.virtualModules.get? m = some v := by
  have sound := run_induction (P := Sound r start) (fun _ => .step)
    (sound_start fun m mem known => (starts m known).mp mem)
  have lossless := run_induction (P := Lossless r start) (fun _ => .step)
    (lossless_start fun m mem known => (starts m known).mpr mem)
  constructor
  · exact sound.found v
  · rintro ⟨m, reached, known⟩
    exact lossless.found m (lossless.mem_visited (pending_run r _) reached) v known

end Search

end VirtualModules
