import VirtualModules.Ascending

/-!
# Tables in ascending order

A `Table` binds keys to values and holds its bindings in strictly ascending key order, so a
table is determined by what it answers.

* `Table.get?_insert_self`, `Table.get?_insert_ne`: inserting binds one key and keeps the rest.
* `Table.get?_eq_some_iff`: a key is bound to a value exactly when the pair is an entry.
* `Table.ext_get?`: tables that give the same answers are equal.
-/

namespace VirtualModules

variable {κ ν : Type}

/-- A finite map whose bindings are listed in strictly ascending order of their keys. -/
structure Table (κ ν : Type) [LT κ] where
  entries : List (κ × ν)
  ascending : entries.Pairwise fun a b => a.1 < b.1

namespace Table

/-! ## Views and changes that need no order -/

section Views

variable [LT κ]

/-- The table without bindings. -/
def empty : Table κ ν := ⟨[], .nil⟩

instance : EmptyCollection (Table κ ν) := ⟨empty⟩
instance : Inhabited (Table κ ν) := ⟨empty⟩

theorem ext_entries {s t : Table κ ν} (h : s.entries = t.entries) : s = t := by
  cases s; cases t; simp_all

instance [DecidableEq κ] [DecidableEq ν] : DecidableEq (Table κ ν) := fun s t =>
  if h : s.entries = t.entries then .isTrue (ext_entries h) else .isFalse fun e => h (e ▸ rfl)

/-- The keys, ascending. -/
def keys (t : Table κ ν) : List κ := t.entries.map (·.1)

/-- The values, in the order of their keys. -/
def values (t : Table κ ν) : List ν := t.entries.map (·.2)

/-- The number of keys. -/
def size (t : Table κ ν) : Nat := t.entries.length

theorem keys_ascending (t : Table κ ν) : t.keys.Pairwise (· < ·) :=
  List.pairwise_map.mpr t.ascending

/-- Keeps the bindings that pass a test. -/
def filter (t : Table κ ν) (keep : κ → ν → Bool) : Table κ ν :=
  ⟨t.entries.filter fun e => keep e.1 e.2, t.ascending.filter _⟩

variable [DecidableEq κ]

/-- Removes the binding of a key, if it has one. -/
def erase (t : Table κ ν) (k : κ) : Table κ ν := t.filter fun k' _ => k' ≠ k

/-- The value bound to a key. -/
def get? (t : Table κ ν) (k : κ) : Option ν := t.entries.lookup k

def contains (t : Table κ ν) (k : κ) : Bool := (t.get? k).isSome

@[simp] theorem get?_empty (k : κ) : (∅ : Table κ ν).get? k = none := rfl

end Views

/-! ## Insertion -/

section Insertion

variable [LT κ] [DecidableLT κ] [DecidableEq κ]

/-- Puts a binding in its place among ascending ones; a binding of the same key gives way. -/
def insertEntry (k : κ) (v : ν) : List (κ × ν) → List (κ × ν)
  | [] => [(k, v)]
  | (k', v') :: rest =>
    if k < k' then (k, v) :: (k', v') :: rest
    else if k = k' then (k, v) :: rest
    else (k', v') :: insertEntry k v rest

theorem mem_insertEntry {k : κ} {v : ν} {l : List (κ × ν)} {e : κ × ν}
    (h : e ∈ insertEntry k v l) : e = (k, v) ∨ e ∈ l := by
  induction l with
  | nil => simpa [insertEntry] using h
  | cons head rest ih =>
    obtain ⟨k', v'⟩ := head
    rw [insertEntry] at h
    split at h
    · simpa using h
    · split at h <;> grind

theorem length_insertEntry_le (k : κ) (v : ν) (l : List (κ × ν)) :
    (insertEntry k v l).length ≤ l.length + 1 := by
  induction l with
  | nil => simp [insertEntry]
  | cons head rest ih =>
    rw [insertEntry]
    split
    · simp
    · split
      · simp
      · simpa using ih

theorem lookup_insertEntry_self (k : κ) (v : ν) (l : List (κ × ν)) :
    (insertEntry k v l).lookup k = some v := by
  induction l with
  | nil => simp [insertEntry]
  | cons head rest ih =>
    obtain ⟨k', v'⟩ := head
    rw [insertEntry]
    split
    · simp
    · split
      · simp
      · next differs => simp [List.lookup_cons, beq_eq_false_iff_ne.mpr differs, ih]

theorem lookup_insertEntry_ne {k k' : κ} (h : k' ≠ k) (v : ν) (l : List (κ × ν)) :
    (insertEntry k v l).lookup k' = l.lookup k' := by
  induction l with
  | nil => simp [insertEntry, List.lookup_cons, beq_eq_false_iff_ne.mpr h]
  | cons head rest ih =>
    obtain ⟨k₀, v₀⟩ := head
    rw [insertEntry]
    split
    · simp [List.lookup_cons, beq_eq_false_iff_ne.mpr h]
    · split
      · next same =>
        subst same
        simp [List.lookup_cons, beq_eq_false_iff_ne.mpr h]
      · simp [List.lookup_cons, ih]

variable [LE κ] [Std.IsLinearOrder κ] [Std.LawfulOrderLT κ]

theorem pairwise_insertEntry (k : κ) (v : ν) {l : List (κ × ν)}
    (h : l.Pairwise fun a b => a.1 < b.1) :
    (insertEntry k v l).Pairwise fun a b => a.1 < b.1 := by
  induction l with
  | nil => simp [insertEntry]
  | cons head rest ih =>
    obtain ⟨k', v'⟩ := head
    obtain ⟨below, rest_ascending⟩ := List.pairwise_cons.mp h
    rw [insertEntry]
    split
    · next less =>
      refine .cons (fun e he => ?_) h
      rcases List.mem_cons.mp he with rfl | he
      · exact less
      · exact Std.lt_trans less (below e he)
    · next notLess =>
      split
      · next same =>
        subst same
        exact .cons below rest_ascending
      · next differs =>
        refine .cons (fun e he => ?_) (ih rest_ascending)
        rcases mem_insertEntry he with rfl | he
        · exact Std.lt_of_le_of_ne (Std.not_lt.mp notLess) (Ne.symm differs)
        · exact below e he

/-- Binds a key, in place of any binding it had. -/
def insert (t : Table κ ν) (k : κ) (v : ν) : Table κ ν :=
  ⟨insertEntry k v t.entries, pairwise_insertEntry k v t.ascending⟩

/-- The table of a list of bindings; of several for one key the last one counts. -/
def ofList (l : List (κ × ν)) : Table κ ν := l.foldl (fun t e => t.insert e.1 e.2) ∅

@[simp] theorem get?_insert_self (t : Table κ ν) (k : κ) (v : ν) :
    (t.insert k v).get? k = some v := lookup_insertEntry_self k v t.entries

theorem get?_insert_ne (t : Table κ ν) {k k' : κ} (h : k' ≠ k) (v : ν) :
    (t.insert k v).get? k' = t.get? k' := lookup_insertEntry_ne h v t.entries

end Insertion

/-! ## What a table answers -/

section Answers

variable [LT κ] [DecidableEq κ] [LE κ] [Std.LawfulOrderLT κ]

theorem lookup_eq_some_iff {l : List (κ × ν)} (ascending : l.Pairwise fun a b => a.1 < b.1)
    {k : κ} {v : ν} : l.lookup k = some v ↔ (k, v) ∈ l := by
  induction l with
  | nil => simp
  | cons head rest ih =>
    obtain ⟨k', v'⟩ := head
    obtain ⟨below, rest_ascending⟩ := List.pairwise_cons.mp ascending
    by_cases h : k = k'
    · subst h
      have fresh : (k, v) ∉ rest := fun hm => absurd (below (k, v) hm) Std.lt_irrefl
      simp [fresh, eq_comm]
    · simp [List.lookup_cons, beq_eq_false_iff_ne.mpr h, ih rest_ascending, h]

/-- A key is bound to a value exactly when the pair is an entry. -/
theorem get?_eq_some_iff {t : Table κ ν} {k : κ} {v : ν} :
    t.get? k = some v ↔ (k, v) ∈ t.entries := lookup_eq_some_iff t.ascending

theorem contains_iff_mem_keys {t : Table κ ν} {k : κ} : t.contains k = true ↔ k ∈ t.keys := by
  simp only [contains, Option.isSome_iff_exists, get?_eq_some_iff, keys, List.mem_map]
  exact ⟨fun ⟨v, h⟩ => ⟨(k, v), h, rfl⟩, fun ⟨(_, v), h, e⟩ => ⟨v, e ▸ h⟩⟩

theorem mem_values_iff {t : Table κ ν} {v : ν} : v ∈ t.values ↔ ∃ k, t.get? k = some v := by
  simp only [values, List.mem_map, get?_eq_some_iff, Prod.exists]
  constructor
  · rintro ⟨k, v', mem, rfl⟩
    exact ⟨k, mem⟩
  · rintro ⟨k, mem⟩
    exact ⟨k, v, mem, rfl⟩

theorem get?_filter (t : Table κ ν) (keep : κ → ν → Bool) (k : κ) :
    (t.filter keep).get? k = (t.get? k).filter (keep k) := by
  ext v
  rw [get?_eq_some_iff, Option.filter_eq_some_iff, get?_eq_some_iff]
  simp [filter]

@[simp] theorem get?_erase_self (t : Table κ ν) (k : κ) : (t.erase k).get? k = none := by
  simp [erase, get?_filter]

theorem get?_erase_ne (t : Table κ ν) {k k' : κ} (h : k' ≠ k) :
    (t.erase k).get? k' = t.get? k' := by
  rw [erase, get?_filter]
  cases t.get? k' with
  | none => rfl
  | some v => simp [h]

/-- Tables that give the same answers are equal. -/
theorem ext_get? [Std.IsLinearOrder κ] {s t : Table κ ν}
    (same : ∀ k, s.get? k = t.get? k) : s = t := by
  refine ext_entries <| eq_of_pairwise_of_mem_iff (fun h h' => Std.lt_irrefl (Std.lt_trans h h'))
    s.ascending t.ascending fun (k, v) => ?_
  rw [← get?_eq_some_iff, ← get?_eq_some_iff, same k]

end Answers

end Table

end VirtualModules
