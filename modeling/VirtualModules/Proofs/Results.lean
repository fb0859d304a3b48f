import Mathlib.Data.List.Forall2

/-!
# Results that may fail

Facts about computations that stop at the first error: a sequence succeeds exactly if both of its
parts do (`bind_eq_ok_iff`), what every step of a fold keeps holds of its result
(`foldlM_ok_invariant`), steps that can change places give the same in any order (`foldlM_ok_perm`),
and what every result of a step satisfies holds of all results of a map (`mapM_ok_forall`).

Two computations have related results if they give related values or stop at the same error
(`RelatedResults`). Sequences, folds and maps of related steps have related results.
-/

namespace VirtualModules

variable {ε α β : Type}

theorem bind_eq_ok_iff {x : Except ε α} {f : α → Except ε β} {b : β} :
    x >>= f = .ok b ↔ ∃ a, x = .ok a ∧ f a = .ok b := by
  cases x with
  | error e =>
    constructor
    · intro h
      cases h
    · rintro ⟨a, h, -⟩
      cases h
  | ok a =>
    constructor
    · exact fun h => ⟨a, rfl, h⟩
    · rintro ⟨a', h, hf⟩
      cases h
      exact hf

theorem map_eq_ok_iff {x : Except ε α} {f : α → β} {b : β} :
    x.map f = .ok b ↔ ∃ a, x = .ok a ∧ f a = b := by
  cases x with
  | error e => simp [Except.map]
  | ok a => simp [Except.map]

theorem eq_ok_of_toOption {x : Except ε α} {a : α} (h : x.toOption = some a) : x = .ok a := by
  cases x with
  | error e => cases h
  | ok b =>
    cases h
    rfl

/-- What every step of a fold keeps holds of the result, if there is one. -/
theorem foldlM_ok_invariant {step : β → α → Except ε β} (P : β → Prop)
    (keeps : ∀ {b a b'}, P b → step b a = .ok b' → P b') {l : List α} {start result : β}
    (holds : P start) (h : l.foldlM step start = .ok result) : P result := by
  induction l generalizing start with
  | nil =>
    cases h
    exact holds
  | cons a rest ih =>
    rw [List.foldlM_cons, bind_eq_ok_iff] at h
    obtain ⟨next, stepped, folded⟩ := h
    exact ih (keeps holds stepped) folded

/-- What every result of a step satisfies, all results of a map do. -/
theorem mapM_ok_forall {f : α → Except ε β} {P : β → Prop} (each : ∀ {a b}, f a = .ok b → P b)
    {l : List α} {results : List β} (h : l.mapM f = .ok results) : ∀ b ∈ results, P b := by
  induction l generalizing results with
  | nil =>
    cases h
    exact fun b mem => absurd mem List.not_mem_nil
  | cons a rest ih =>
    simp only [List.mapM_cons, bind_eq_ok_iff] at h
    obtain ⟨first, found, others, mapped, done⟩ := h
    cases done
    exact List.forall_mem_cons.mpr ⟨each found, ih mapped⟩

/-- Where any two steps of a fold can change places, the order of the items does not matter for
what it gives. -/
theorem foldlM_ok_perm {step : β → α → Except ε β}
    (swap : ∀ {a b start next result}, step start a = .ok next → step next b = .ok result →
      ∃ other, step start b = .ok other ∧ step other a = .ok result)
    {l l' : List α} (perm : l.Perm l') {start result : β} (h : l.foldlM step start = .ok result) :
    l'.foldlM step start = .ok result := by
  induction perm generalizing start with
  | nil => exact h
  | cons a _ ih =>
    rw [List.foldlM_cons, bind_eq_ok_iff] at h ⊢
    obtain ⟨next, stepped, folded⟩ := h
    exact ⟨next, stepped, ih folded⟩
  | swap a b rest =>
    simp only [List.foldlM_cons, bind_eq_ok_iff] at h ⊢
    obtain ⟨next, first, third, second, folded⟩ := h
    obtain ⟨other, first', second'⟩ := swap first second
    exact ⟨other, first', third, second', folded⟩
  | trans _ _ ih ih' => exact ih' (ih h)

/-! ## Two computations side by side -/

/-- Two computations give related values or stop at the same error. -/
inductive RelatedResults {α' : Type} (R : α → α' → Prop) : Except ε α → Except ε α' → Prop where
  | ok {a : α} {a' : α'} (related : R a a') : RelatedResults R (.ok a) (.ok a')
  | error (e : ε) : RelatedResults R (.error e) (.error e)

namespace RelatedResults

variable {α' β' : Type} {R : α → α' → Prop} {Q : β → β' → Prop}

theorem bind {x : Except ε α} {x' : Except ε α'} {f : α → Except ε β} {f' : α' → Except ε β'}
    (first : RelatedResults R x x')
    (next : ∀ {a a'}, R a a' → RelatedResults Q (f a) (f' a')) :
    RelatedResults Q (x >>= f) (x' >>= f') := by
  cases first with
  | ok related => exact next related
  | error e => exact .error e

theorem foldlM {step : β → α → Except ε β} {step' : β' → α' → Except ε β'}
    (steps : ∀ {b b'}, Q b b' → ∀ {a a'}, R a a' → RelatedResults Q (step b a) (step' b' a'))
    {l : List α} {l' : List α'} (items : List.Forall₂ R l l') {b : β} {b' : β'} (start : Q b b') :
    RelatedResults Q (l.foldlM step b) (l'.foldlM step' b') := by
  induction items generalizing b b' with
  | nil => exact .ok start
  | cons related _ ih =>
    rw [List.foldlM_cons, List.foldlM_cons]
    exact (steps start related).bind ih

theorem mapM {γ : Type} {f : γ → Except ε α} {f' : γ → Except ε α'}
    (items : ∀ c, RelatedResults R (f c) (f' c)) (l : List γ) :
    RelatedResults (List.Forall₂ R) (l.mapM f) (l.mapM f') := by
  induction l with
  | nil => exact .ok .nil
  | cons c rest ih =>
    rw [List.mapM_cons, List.mapM_cons]
    refine (items c).bind fun first => ih.bind fun others => ?_
    exact .ok (.cons first others)

/-- What is the same for related values is the same for related results. -/
theorem map_eq {γ : Type} {x : Except ε α} {x' : Except ε α'} (related : RelatedResults R x x')
    {f : α → γ} {f' : α' → γ} (same : ∀ {a a'}, R a a' → f a = f' a') : x.map f = x'.map f' := by
  cases related with
  | ok related => rw [Except.map, Except.map, same related]
  | error e => rfl

end RelatedResults

end VirtualModules
