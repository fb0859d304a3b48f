import Mathlib.Data.List.Forall2
import Mathlib.Data.List.Nodup
import VirtualModules.Table

/-!
# Tables of values, and tables side by side

A table of entries answers with the last entry of a key (`Table.get?_ofList`).

Some values, each bound to a key of its own, make a table (`Table.ofValues`). It answers with the
last value of a key (`get?_ofValues_eq_some_iff`), so the order of the values is of no matter if no
key repeats (`ofValues_perm`).

Two tables are related if they bind the same keys and bind them to related values
(`Table.Related`). Then what they list is related one by one (`Related.values`).
-/

namespace VirtualModules.Table

variable {κ ν ν' : Type} [LT κ] [LE κ] [DecidableEq κ] [Std.IsLinearOrder κ] [Std.LawfulOrderLT κ]

/-! ## Tables of entries -/

section Entries

variable [DecidableLT κ]

theorem get?_foldl_insert (t : Table κ ν) (l : List (κ × ν)) (k : κ) :
    (l.foldl (fun t e => t.insert e.1 e.2) t).get? k = (l.reverse.lookup k).or (t.get? k) := by
  induction l generalizing t with
  | nil => rfl
  | cons e rest ih =>
    obtain ⟨k', v⟩ := e
    rw [List.foldl_cons, ih, List.reverse_cons, List.lookup_append, Option.or_assoc]
    by_cases here : k = k'
    · subst here
      simp
    · simp [get?_insert_ne t here, List.lookup_cons, beq_eq_false_iff_ne.mpr here]

/-- A table of entries answers with the last one of a key. -/
theorem get?_ofList (l : List (κ × ν)) (k : κ) : (ofList l).get? k = l.reverse.lookup k := by
  rw [ofList, get?_foldl_insert, get?_empty, Option.or_none]

end Entries

/-! ## Tables of values -/

section Values

variable [DecidableLT κ]

/-- Binds each of some values to its own key, one after the other. -/
def insertAll (key : ν → κ) (t : Table κ ν) (values : List ν) : Table κ ν :=
  values.foldl (fun t v => t.insert (key v) v) t

/-- The table of some values by their keys; of several with one key the last one counts. -/
def ofValues (key : ν → κ) (values : List ν) : Table κ ν := insertAll key ∅ values

variable {key : ν → κ} {t : Table κ ν} {values : List ν} {k : κ} {v : ν}

theorem get?_insertAll (key : ν → κ) (t : Table κ ν) (values : List ν) (k : κ) :
    (t.insertAll key values).get? k =
      (values.reverse.find? fun v => key v = k).or (t.get? k) := by
  induction values generalizing t with
  | nil => rfl
  | cons v rest ih =>
    rw [insertAll, List.foldl_cons, ← insertAll, ih, List.reverse_cons, List.find?_append,
      Option.or_assoc]
    by_cases here : key v = k
    · subst here
      simp
    · simp [get?_insert_ne t (Ne.symm here), here]

theorem get?_insertAll_eq_none_iff : (t.insertAll key values).get? k = none ↔
    (∀ w ∈ values, key w ≠ k) ∧ t.get? k = none := by
  rw [get?_insertAll, Option.or_eq_none_iff, List.find?_eq_none]
  simp

theorem insertAll_append {values' : List ν} : t.insertAll key (values ++ values') =
    (t.insertAll key values).insertAll key values' := List.foldl_append

/-- A key is bound to the last of the values that have it. -/
theorem get?_ofValues_eq_some_iff : (ofValues key values).get? k = some v ↔
    key v = k ∧ ∃ before after, values = before ++ v :: after ∧ ∀ w ∈ after, key w ≠ k := by
  rw [ofValues, get?_insertAll, get?_empty, Option.or_none, List.find?_eq_some_iff_append,
    decide_eq_true_eq]
  refine and_congr_right fun _ => ?_
  constructor
  · rintro ⟨after, before, reversed, others⟩
    refine ⟨before.reverse, after.reverse, ?_, ?_⟩
    · simpa using congrArg List.reverse reversed
    · intro w mem
      simpa using others w (List.mem_reverse.mp mem)
  · rintro ⟨before, after, rfl, others⟩
    refine ⟨after.reverse, before.reverse, by simp, ?_⟩
    intro w mem
    simpa using others w (List.mem_reverse.mp mem)

/-- A key that some later value has is not bound to an earlier one. -/
theorem mem_of_get?_ofValues_append {earlier later : List ν} {w : ν}
    (found : (ofValues key (earlier ++ later)).get? (key w) = some v) (mem : w ∈ later) :
    v ∈ later := by
  rw [ofValues, insertAll_append, get?_insertAll] at found
  cases last : later.reverse.find? fun u => key u = key w with
  | none =>
    have absent := List.find?_eq_none.mp last w (List.mem_reverse.mpr mem)
    simp at absent
  | some u =>
    rw [last, Option.some_or] at found
    cases found
    exact List.mem_reverse.mp (List.mem_of_find?_eq_some last)

/-- Where no key repeats, all values are bound. -/
theorem get?_insertAll_of_nodup (distinct : (values.map key).Nodup) :
    (t.insertAll key values).get? k = some v ↔
      (v ∈ values ∧ key v = k) ∨ ((∀ w ∈ values, key w ≠ k) ∧ t.get? k = some v) := by
  rw [get?_insertAll]
  cases found : values.reverse.find? fun v => key v = k with
  | none =>
    have absent : ∀ w ∈ values, key w ≠ k := by simpa using found
    rw [Option.none_or]
    constructor
    · exact fun old => .inr ⟨absent, old⟩
    · rintro (⟨mem, here⟩ | ⟨-, old⟩)
      · exact absurd here (absent v mem)
      · exact old
  | some w =>
    have here_w : key w = k := by simpa using List.find?_some found
    have mem_w : w ∈ values := List.mem_reverse.mp (List.mem_of_find?_eq_some found)
    rw [Option.some_or, Option.some.injEq]
    constructor
    · rintro rfl
      exact .inl ⟨mem_w, here_w⟩
    · rintro (⟨mem, here⟩ | ⟨absent, -⟩)
      · exact List.inj_on_of_nodup_map distinct mem_w mem (here_w.trans here.symm)
      · exact absurd here_w (absent w mem_w)

theorem get?_ofValues_of_nodup (distinct : (values.map key).Nodup) :
    (ofValues key values).get? k = some v ↔ v ∈ values ∧ key v = k := by
  simp [ofValues, get?_insertAll_of_nodup distinct]

/-- Where no key repeats, the order of the values is of no matter. -/
theorem ofValues_perm {values' : List ν} (perm : values.Perm values')
    (distinct : (values.map key).Nodup) : ofValues key values = ofValues key values' := by
  apply ext_get?
  intro k
  apply Option.ext
  intro v
  rw [get?_ofValues_of_nodup distinct, get?_ofValues_of_nodup ((perm.map key).nodup distinct),
    perm.mem_iff]

end Values

/-! ## Tables side by side -/

/-- Two tables bind the same keys, each of them to related values. -/
def Related (R : ν → ν' → Prop) (s : Table κ ν) (t : Table κ ν') : Prop :=
  ∀ k, Option.Rel R (s.get? k) (t.get? k)

namespace Related

variable {R : ν → ν' → Prop} {s : Table κ ν} {t : Table κ ν'}

omit [LE κ] [Std.IsLinearOrder κ] [Std.LawfulOrderLT κ] in
theorem refl {R : ν → ν → Prop} (same : ∀ v, R v v) (t : Table κ ν) : Related R t t := by
  intro k
  cases t.get? k with
  | none => exact .none
  | some v => exact .some (same v)

theorem insert [DecidableLT κ] (related : Related R s t) (k : κ) {v : ν} {w : ν'} (values : R v w) :
    Related R (s.insert k v) (t.insert k w) := by
  intro k'
  by_cases here : k' = k
  · subst here
    rw [get?_insert_self, get?_insert_self]
    exact .some values
  · rw [get?_insert_ne _ here, get?_insert_ne _ here]
    exact related k'

theorem keys (related : Related R s t) : s.keys = t.keys := by
  refine eq_of_pairwise_of_mem_iff (fun h h' => Std.lt_irrefl (Std.lt_trans h h'))
    s.keys_ascending t.keys_ascending fun k => ?_
  rw [← contains_iff_mem_keys, ← contains_iff_mem_keys, contains, contains]
  have same := related k
  generalize s.get? k = left at same
  generalize t.get? k = right at same
  cases same with
  | some => rfl
  | none => rfl

/-- The entries of related tables are related one by one. -/
theorem entries (related : Related R s t) :
    List.Forall₂ (fun a b => a.1 = b.1 ∧ R a.2 b.2) s.entries t.entries := by
  have same := related.keys
  rw [List.forall₂_iff_get]
  refine ⟨by simpa [Table.keys] using congrArg List.length same, fun i left right => ?_⟩
  have key : s.entries[i].1 = t.entries[i].1 := by
    have at_i := congrArg (·[i]?) same
    simpa [Table.keys, left, right] using at_i
  have left_value : s.get? s.entries[i].1 = some s.entries[i].2 :=
    get?_eq_some_iff.mpr (List.getElem_mem left)
  have right_value : t.get? t.entries[i].1 = some t.entries[i].2 :=
    get?_eq_some_iff.mpr (List.getElem_mem right)
  have value := related s.entries[i].1
  rw [left_value, key, right_value] at value
  cases value with
  | some values => exact ⟨key, values⟩

theorem values (related : Related R s t) : List.Forall₂ R s.values t.values := by
  rw [Table.values, Table.values, List.forall₂_map_left_iff, List.forall₂_map_right_iff]
  exact related.entries.imp fun _ _ => And.right

end Related

end VirtualModules.Table
