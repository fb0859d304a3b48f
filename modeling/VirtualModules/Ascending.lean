/-!
# Lists in strictly ascending order

A list in strictly ascending order is determined by its members: `eq_of_pairwise_of_mem_iff`
says so for any asymmetric relation. Tables and sets rest on it, since they keep their content
in such lists.
-/

namespace VirtualModules

variable {α : Type}

/-- Two lists in ascending order with the same members are the same list. -/
theorem eq_of_pairwise_of_mem_iff {r : α → α → Prop} (asymm : ∀ {a b}, r a b → ¬ r b a)
    {l₁ l₂ : List α} (h₁ : l₁.Pairwise r) (h₂ : l₂.Pairwise r)
    (same : ∀ a, a ∈ l₁ ↔ a ∈ l₂) : l₁ = l₂ := by
  induction l₁ generalizing l₂ with
  | nil =>
    cases l₂ with
    | nil => rfl
    | cons b rest => simpa using same b
  | cons a rest ih =>
    cases l₂ with
    | nil => simpa using same a
    | cons b rest' =>
      obtain ⟨above_a, ascending⟩ := List.pairwise_cons.mp h₁
      obtain ⟨above_b, ascending'⟩ := List.pairwise_cons.mp h₂
      have heads : a = b := by
        rcases List.mem_cons.mp ((same a).mp List.mem_cons_self) with h | ha
        · exact h
        · rcases List.mem_cons.mp ((same b).mpr List.mem_cons_self) with h | hb
          · exact h.symm
          · exact absurd (above_b a ha) (asymm (above_a b hb))
      subst heads
      rw [ih ascending ascending' fun c => ?_]
      have := same c
      simp only [List.mem_cons] at this
      constructor
      · intro hc
        rcases this.mp (.inr hc) with rfl | hc'
        · exact absurd (above_a c hc) (asymm (above_a c hc))
        · exact hc'
      · intro hc
        rcases this.mpr (.inr hc) with rfl | hc'
        · exact absurd (above_b c hc) (asymm (above_b c hc))
        · exact hc'

end VirtualModules
