import VirtualModules.Proofs.BelowRoot

/-!
# Writing a file and reading it back

Names lead to a place where no link stands (`ne_link_of_walk`). Once a file stands at such a place,
the names that led there still do (`walk_written`): links and directories on the way are no files,
so they are what they were. Hence a file that was written is read back from the same names in every
tree (`read?_of_write?`).
-/

namespace VirtualModules

namespace FileTree

variable {t t' : FileTree}

/-- Where names lead there is no link: it would have been followed. -/
theorem ne_link_of_advance {here names loc : Location} (directory : HoldsDirectory t.entries here)
    (met : t.advance true here names = .found loc ∨ t.advance true here names = .vacant loc)
    (target : FilePath) : t.entries.get? loc ≠ some (.link target) := by
  induction names generalizing here with
  | nil =>
    simp only [advance, Arrival.found.injEq, reduceCtorEq, or_false] at met
    subst met
    rcases directory with rfl | found
    · exact fun link => (t.closed [] _ link).1 rfl
    · rw [found]
      intro link
      cases link
  | cons name rest ih =>
    rw [advance] at met
    split at met
    · exact ih directory met
    split at met
    · exact ih (HoldsDirectory.dropLast directory) met
    split at met
    · simp at met
    cases found : t.entries.get? (here ++ [name]) with
    | none =>
      rw [found] at met
      by_cases last : rest = []
      · simp only [last, if_true, reduceCtorEq, Arrival.vacant.injEq, false_or] at met
        rw [← met, found]
        intro link
        cases link
      · simp [last] at met
    | some entry =>
      rw [found] at met
      cases entry with
      | file content =>
        by_cases last : rest = []
        · simp only [last, if_true, reduceCtorEq, Arrival.found.injEq, or_false] at met
          rw [← met, found]
          intro link
          cases link
        · simp [last] at met
      | directory => exact ih (.inr found) met
      | link target => simp at met

theorem ne_link_of_walk {links : Nat} {here names loc : Location}
    (directory : HoldsDirectory t.entries here)
    (met : t.walk true links here names = .found loc ∨ t.walk true links here names = .vacant loc)
    (target : FilePath) : t.entries.get? loc ≠ some (.link target) := by
  induction links generalizing here names with
  | zero =>
    rw [walk] at met
    split at met
    · simp at met
    · exact ne_link_of_advance directory met target
  | succ links ih =>
    rw [walk] at met
    split at met
    · next link => exact ih (holdsDirectory_of_link directory link) met
    · exact ne_link_of_advance directory met target

section Written

variable {loc : Location} {content : Bytes}
  (free : ∀ entry, t.entries.get? loc = some entry → ∃ old, entry = .file old)
  (spec : ∀ l, t'.entries.get? l = if l = loc then some (.file content) else t.entries.get? l)

include free spec

/-- Once a file stands where a way ends, the way leads there; and a way that meets a link before
still does. -/
theorem advance_written {here names : Location} {arrival : Arrival}
    (met : t.advance true here names = arrival) :
    (arrival = .found loc ∨ arrival = .vacant loc →
        t'.advance true here names = .found loc) ∧
      ∀ d names', arrival = .link d names' → t'.advance true here names = .link d names' := by
  induction names generalizing here with
  | nil =>
    subst met
    simp [advance]
  | cons name rest ih =>
    rw [advance] at met ⊢
    split
    · next blank =>
      rw [if_pos blank] at met
      exact ih met
    next blank =>
    rw [if_neg blank] at met
    split
    · next up =>
      rw [if_pos up] at met
      exact ih met
    next up =>
    rw [if_neg up] at met
    split
    · next long =>
      rw [if_pos long] at met
      subst met
      simp
    next long =>
    rw [if_neg long] at met
    rw [spec]
    by_cases here_it_is : here ++ [name] = loc
    · -- a file may stand here, so that nothing is further on
      rw [if_pos here_it_is]
      cases found : t.entries.get? (here ++ [name]) with
      | none =>
        rw [found] at met
        by_cases last : rest = [] <;> simp [last, ← met, here_it_is]
      | some entry =>
        obtain ⟨old, rfl⟩ := free entry (here_it_is ▸ found)
        rw [found] at met
        by_cases last : rest = [] <;> simp [last, ← met, here_it_is]
    · rw [if_neg here_it_is]
      cases found : t.entries.get? (here ++ [name]) with
      | none =>
        rw [found] at met
        by_cases last : rest = [] <;> simp [last, ← met, here_it_is]
      | some entry =>
        rw [found] at met
        cases entry with
        | file old => by_cases last : rest = [] <;> simp [last, ← met, here_it_is]
        | directory => exact ih met
        | link target =>
          subst met
          simp

theorem walk_written {links : Nat} {here names : Location}
    (met : t.walk true links here names = .found loc ∨
      t.walk true links here names = .vacant loc) :
    t'.walk true links here names = .found loc := by
  induction links generalizing here names with
  | zero =>
    rw [walk] at met ⊢
    split at met
    · simp at met
    · rw [(advance_written free spec rfl).1 met]
  | succ links ih =>
    rw [walk] at met ⊢
    split at met
    · next link =>
      rw [(advance_written free spec link).2 _ _ rfl]
      exact ih met
    · rw [(advance_written free spec rfl).1 met]

end Written

/-- A file that was written is read back, whatever stood there and whatever links lead there. -/
theorem read?_of_write? {names : Location} {content : Bytes}
    (written : t.write? names content = some t') : t'.read? names = some content := by
  unfold write? locate follow at written
  by_cases usable : names.isUsable
  · rw [if_pos usable] at written
    -- both kinds of arrival are a place where a file can be put
    have arrived : ∃ loc, (t.walk true maxLinks [] names = .found loc ∨
        t.walk true maxLinks [] names = .vacant loc) ∧ t.put? loc (.file content) = some t' := by
      split at written
      · next loc met => exact ⟨loc, .inl met, written⟩
      · next loc met => exact ⟨loc, .inr met, written⟩
      · cases written
    obtain ⟨loc, met, put⟩ := arrived
    obtain ⟨nonempty, -, not_directory, spec⟩ := put?_ok put
    have free : ∀ entry, t.entries.get? loc = some entry → ∃ old, entry = .file old := by
      intro entry found
      cases entry with
      | file old => exact ⟨old, rfl⟩
      | directory => exact absurd found not_directory
      | link target => exact absurd found (ne_link_of_walk (.inl rfl) met target)
    have here : t'.entries.get? loc = some (.file content) := by rw [spec, if_pos rfl]
    unfold read? find? locate follow
    rw [if_pos usable, walk_written free spec met]
    simp [nonempty, entry?, here]
  · rw [if_neg usable] at written
    cases written

end FileTree

end VirtualModules
