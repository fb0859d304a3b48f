import VirtualModules.Ascending

/-!
# Sets in ascending order

A `SortedSet` lists its members in strictly ascending order, so it is determined by them
(`SortedSet.ext_mem`). Insertion and union add exactly what they are given (`mem_insert`,
`mem_union`, `mem_ofList`).
-/

namespace VirtualModules

variable {α : Type}

/-- A finite set whose members are listed in strictly ascending order. -/
structure SortedSet (α : Type) [LT α] where
  toList : List α
  ascending : toList.Pairwise (· < ·)

namespace SortedSet

section Views

variable [LT α]

def empty : SortedSet α := ⟨[], .nil⟩

instance : EmptyCollection (SortedSet α) := ⟨empty⟩
instance : Inhabited (SortedSet α) := ⟨empty⟩

instance : Membership α (SortedSet α) := ⟨fun s a => a ∈ s.toList⟩

instance [DecidableEq α] (a : α) (s : SortedSet α) : Decidable (a ∈ s) :=
  inferInstanceAs (Decidable (a ∈ s.toList))

theorem ext_toList {s t : SortedSet α} (h : s.toList = t.toList) : s = t := by
  cases s; cases t; simp_all

instance [DecidableEq α] : DecidableEq (SortedSet α) := fun s t =>
  if h : s.toList = t.toList then .isTrue (ext_toList h) else .isFalse fun e => h (e ▸ rfl)

theorem mem_toList {a : α} {s : SortedSet α} : a ∈ s.toList ↔ a ∈ s := .rfl

@[simp] theorem not_mem_empty (a : α) : a ∉ (∅ : SortedSet α) := List.not_mem_nil

/-- The number of members. -/
def size (s : SortedSet α) : Nat := s.toList.length

end Views

section Insertion

variable [LT α] [DecidableLT α] [DecidableEq α]

/-- Puts a member in its place in an ascending list, unless it is there already. -/
def insertAscending (a : α) : List α → List α
  | [] => [a]
  | b :: rest =>
    if a < b then a :: b :: rest
    else if a = b then b :: rest
    else b :: insertAscending a rest

theorem mem_insertAscending {a b : α} {l : List α} :
    b ∈ insertAscending a l ↔ b = a ∨ b ∈ l := by
  induction l with
  | nil => simp [insertAscending]
  | cons head rest ih =>
    rw [insertAscending]
    split
    · simp
    · split <;> grind

theorem length_insertAscending_le (a : α) (l : List α) :
    (insertAscending a l).length ≤ l.length + 1 := by
  induction l with
  | nil => simp [insertAscending]
  | cons head rest ih =>
    rw [insertAscending]
    split
    · simp
    · split
      · simp
      · simpa using ih

variable [LE α] [Std.IsLinearOrder α] [Std.LawfulOrderLT α]

theorem pairwise_insertAscending (a : α) {l : List α} (h : l.Pairwise (· < ·)) :
    (insertAscending a l).Pairwise (· < ·) := by
  induction l with
  | nil => simp [insertAscending]
  | cons b rest ih =>
    obtain ⟨below, rest_ascending⟩ := List.pairwise_cons.mp h
    rw [insertAscending]
    split
    · next less =>
      refine .cons (fun c hc => ?_) h
      rcases List.mem_cons.mp hc with rfl | hc
      · exact less
      · exact Std.lt_trans less (below c hc)
    · next notLess =>
      split
      · exact h
      · next differs =>
        refine .cons (fun c hc => ?_) (ih rest_ascending)
        rcases mem_insertAscending.mp hc with rfl | hc
        · exact Std.lt_of_le_of_ne (Std.not_lt.mp notLess) (Ne.symm differs)
        · exact below c hc

/-- Adds a member. -/
def insert (s : SortedSet α) (a : α) : SortedSet α :=
  ⟨insertAscending a s.toList, pairwise_insertAscending a s.ascending⟩

/-- Adds every member of a list. -/
def insertMany (s : SortedSet α) (l : List α) : SortedSet α := l.foldl insert s

/-- The set of the members of a list. -/
def ofList (l : List α) : SortedSet α := (∅ : SortedSet α).insertMany l

/-- The members of either set. -/
def union (s t : SortedSet α) : SortedSet α := s.insertMany t.toList

instance : Union (SortedSet α) := ⟨union⟩

@[simp] theorem mem_insert {s : SortedSet α} {a b : α} : b ∈ s.insert a ↔ b = a ∨ b ∈ s :=
  mem_insertAscending

@[simp] theorem mem_insertMany {s : SortedSet α} {l : List α} {b : α} :
    b ∈ s.insertMany l ↔ b ∈ s ∨ b ∈ l := by
  induction l generalizing s with
  | nil => simp [insertMany]
  | cons a rest ih =>
    rw [insertMany, List.foldl_cons, ← insertMany, ih]
    grind [mem_insert]

@[simp] theorem mem_ofList {l : List α} {b : α} : b ∈ ofList l ↔ b ∈ l := by
  simp [ofList]

@[simp] theorem mem_union {s t : SortedSet α} {b : α} : b ∈ s ∪ t ↔ b ∈ s ∨ b ∈ t :=
  mem_insertMany

omit [DecidableLT α] [DecidableEq α] in
/-- Sets with the same members are equal. -/
theorem ext_mem {s t : SortedSet α} (same : ∀ a, a ∈ s ↔ a ∈ t) : s = t :=
  ext_toList <| eq_of_pairwise_of_mem_iff (fun h h' => Std.lt_irrefl (Std.lt_trans h h'))
    s.ascending t.ascending same

@[simp] theorem empty_union (s : SortedSet α) : ∅ ∪ s = s :=
  ext_mem fun a => by rw [mem_union, or_iff_right (not_mem_empty a)]

instance : Std.Commutative fun s t : SortedSet α => s ∪ t where
  comm s t := ext_mem fun a => by rw [mem_union, mem_union, or_comm]

instance : Std.Associative fun s t : SortedSet α => s ∪ t where
  assoc s t u := ext_mem fun a => by simp only [mem_union, or_assoc]

instance : Std.IdempotentOp fun s t : SortedSet α => s ∪ t where
  idempotent s := ext_mem fun a => by rw [mem_union, or_self]

end Insertion

end SortedSet

end VirtualModules
