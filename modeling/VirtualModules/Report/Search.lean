import VirtualModules.Report

/-!
# Searching related modules

A `Search` goes from module to related module, the ones met last first, and collects the virtual
modules of those it visits. Modules without a virtual module lead nowhere. Each module is expanded
at most once, so every step leaves less to do (`Search.work_step_lt`) and the search comes to an end
(`Search.run`).
-/

namespace VirtualModules

/-! ## Sums of numbers that get smaller -/

theorem foldr_add_le {α : Type} {l : List α} {f g : α → Nat} (le : ∀ a ∈ l, f a ≤ g a) :
    l.foldr (fun a n => f a + n) 0 ≤ l.foldr (fun a n => g a + n) 0 := by
  induction l with
  | nil => exact Nat.le_refl 0
  | cons a rest ih =>
    have tail := ih fun b mem => le b (List.mem_cons_of_mem _ mem)
    have head := le a List.mem_cons_self
    simp only [List.foldr_cons]
    omega

/-- Where one summand gets smaller and none gets larger, the sum gets smaller as much. -/
theorem foldr_add_add_le {α : Type} {l : List α} {f g : α → Nat} {a : α} {k : Nat} (mem : a ∈ l)
    (le : ∀ b ∈ l, f b ≤ g b) (less : f a + k ≤ g a) :
    l.foldr (fun a n => f a + n) 0 + k ≤ l.foldr (fun a n => g a + n) 0 := by
  induction l with
  | nil => cases mem
  | cons b rest ih =>
    have head := le b List.mem_cons_self
    have tail : ∀ c ∈ rest, f c ≤ g c := fun c mem => le c (List.mem_cons_of_mem _ mem)
    simp only [List.foldr_cons]
    rcases List.mem_cons.mp mem with rfl | mem
    · have others := foldr_add_le tail
      omega
    · have others := ih mem tail
      omega

/-! ## Searches -/

/-- What is left of a search and what it came to: the modules still to visit with the next one
first, those visited so far, and the virtual modules found with them. -/
structure Search where
  pending : List ImportPath
  visited : SortedSet ImportPath
  found : SortedSet ImportPath

namespace Search

/-- The search from some modules, of which the last one is visited first. -/
def start (seeds : List ImportPath) : Search := ⟨seeds.reverse, ∅, ∅⟩

/-- Visits a module, unless it was visited before. If it has a virtual module, this is found, and
the modules related to it are to be visited next. -/
def visit (r : Report) (s : Search) (module : ImportPath) : Search :=
  if module ∈ s.visited then s
  else
    let visited := s.visited.insert module
    match r.virtualModules.get? module with
    | none => { s with visited }
    | some virtualPath =>
      let related := (r.relatedTo module).toList.filter fun m => m ∉ visited
      { pending := related.reverse ++ s.pending
        visited
        found := s.found.insert virtualPath }

/-- Visits the next pending module. -/
def step (r : Report) (s : Search) : Search :=
  match s.pending with
  | [] => s
  | module :: rest => visit r { s with pending := rest } module

/-! ## The end of a search -/

/-- How many modules are to be visited at most: those that are pending, and those related to modules
not visited yet. -/
def work (r : Report) (s : Search) : Nat :=
  s.pending.length + r.virtualModules.keys.foldr
    (fun m n => (if m ∈ s.visited then 0 else (r.relatedTo m).size) + n) 0

/-- A visit leaves at most as much to do as there was. -/
theorem work_visit_le (r : Report) (s : Search) (module : ImportPath) :
    (visit r s module).work r ≤ s.work r := by
  unfold visit
  split
  · exact Nat.le_refl _
  · next fresh =>
    -- no module counts for more than it did before
    have le : ∀ m ∈ r.virtualModules.keys,
        (if m ∈ s.visited.insert module then 0 else (r.relatedTo m).size) ≤
          if m ∈ s.visited then 0 else (r.relatedTo m).size := by
      intro m _
      by_cases before : m ∈ s.visited
      · simp [before]
      · simp only [SortedSet.mem_insert, before, or_false, if_false]
        split <;> omega
    split
    · exact Nat.add_le_add_left (foldr_add_le le) _
    · next virtualPath known =>
      have key : module ∈ r.virtualModules.keys :=
        Table.contains_iff_mem_keys.mp (by rw [Table.contains, known]; rfl)
      have less := foldr_add_add_le (k := (r.relatedTo module).size) key le (by simp [fresh])
      have added := List.length_filter_le (fun m => decide (m ∉ s.visited.insert module))
        (r.relatedTo module).toList
      simp only [work, List.length_append, List.length_reverse, SortedSet.size] at *
      omega

/-- A step leaves less to do than there was. -/
theorem work_step_lt {r : Report} {s : Search} (more : s.pending ≠ []) :
    (s.step r).work r < s.work r := by
  unfold step
  split
  · next none => exact absurd none more
  · next module rest pending =>
    refine Nat.lt_of_le_of_lt (work_visit_le r _ module) ?_
    simp only [work, pending, List.length_cons]
    omega

/-- Goes on as long as there is a pending module. -/
def run (r : Report) (s : Search) : Search :=
  if s.pending = [] then s else (s.step r).run r
termination_by s.work r
decreasing_by
  next more => exact work_step_lt more

end Search

end VirtualModules
