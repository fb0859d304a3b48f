import VirtualModules.Proofs.MakingDirectories

/-!
# Resolving names

In a tree without links names can lead to one location only, which they spell out
(`Location.resolve`): blank names lead nowhere, and a step upward takes back the name before it.
Whether they lead there is decided by what stands where their first few lead
(`advance_found_of_kept`), and to get anywhere these have to be directories
(`Linkless.holdsDirectory_on_way`).

`OnWay` and `Below` are the locations on the way of some names and those below a location.
-/

namespace VirtualModules

open FileTree (Plain)

namespace Location

/-! ## Where names lead -/

/-- Where one more name leads. -/
def stepTo (here : Location) (name : String) : Location :=
  if FilePath.isBlankPart name then here
  else if name = ".." then here.dropLast
  else here ++ [name]

/-- Where names lead from a location if there are no links. -/
def resolveFrom (here names : Location) : Location := names.foldl stepTo here

/-- Where names lead from the root if there are no links. -/
def resolve (names : Location) : Location := resolveFrom [] names

theorem resolveFrom_append (here p q : Location) :
    resolveFrom here (p ++ q) = resolveFrom (resolveFrom here p) q := List.foldl_append

theorem resolveFrom_plain (here : Location) {q : Location} (plain : Plain q) :
    resolveFrom here q = here ++ q := by
  induction q generalizing here with
  | nil => simp [resolveFrom]
  | cons name rest ih =>
    obtain ⟨not_blank, not_up⟩ := plain name List.mem_cons_self
    have first : stepTo here name = here ++ [name] := by simp [stepTo, not_blank, not_up]
    have later := ih (here ++ [name]) fun n mem => plain n (List.mem_cons_of_mem _ mem)
    rw [resolveFrom, List.foldl_cons, first]
    simpa [resolveFrom] using later

theorem resolve_append_plain (p : Location) {q : Location} (plain : Plain q) :
    resolve (p ++ q) = resolve p ++ q := by
  rw [resolve, resolveFrom_append, resolveFrom_plain _ plain]
  rfl

theorem plain_resolveFrom {here : Location} (plain : Plain here) (names : Location) :
    Plain (resolveFrom here names) := by
  induction names generalizing here with
  | nil => exact plain
  | cons name rest ih =>
    refine ih (show Plain (stepTo here name) from ?_)
    unfold stepTo
    split
    · exact plain
    next not_blank =>
    split
    · exact fun n mem => plain n (List.dropLast_subset _ mem)
    next not_up =>
    intro n mem
    rcases List.mem_append.mp mem with above | here_last
    · exact plain n above
    · rw [List.mem_singleton.mp here_last]
      exact ⟨Bool.eq_false_iff.mpr not_blank, not_up⟩

theorem plain_resolve (names : Location) : Plain (resolve names) :=
  plain_resolveFrom (fun _ mem => absurd mem List.not_mem_nil) names

/-! ## Below a location, and on a way -/

/-- Something lies below a location. -/
def Below (loc l : Location) : Prop := ∃ q, q ≠ [] ∧ l = loc ++ q

theorem below_iff {loc l : Location} : Below loc l ↔ loc <+: l ∧ l ≠ loc := by
  constructor
  · rintro ⟨q, nonempty, rfl⟩
    exact ⟨List.prefix_append loc q, by simpa using nonempty⟩
  · rintro ⟨⟨q, rfl⟩, differs⟩
    exact ⟨q, fun none => differs (by rw [none, List.append_nil]), rfl⟩

instance (loc l : Location) : Decidable (Below loc l) := decidable_of_iff _ below_iff.symm

theorem below_append (loc : Location) {q : Location} (nonempty : q ≠ []) : Below loc (loc ++ q) :=
  ⟨q, nonempty, rfl⟩

theorem Below.extend {loc l l' : Location} (below : Below loc l) (way : l <+: l') :
    Below loc l' := by
  obtain ⟨q, nonempty, rfl⟩ := below
  obtain ⟨rest, rfl⟩ := way
  exact ⟨q ++ rest, by simp [nonempty], by simp⟩

/-- The first few of some names lead to a location. -/
def OnWay (names l : Location) : Prop := ∃ p, p <+: names ∧ resolve p = l

theorem onWay_self (names : Location) : OnWay names (resolve names) := ⟨names, List.prefix_rfl, rfl⟩

theorem OnWay.of_prefix {names names' l : Location} (on_way : OnWay names l)
    (first : names <+: names') : OnWay names' l := by
  obtain ⟨p, way, here⟩ := on_way
  exact ⟨p, way.trans first, here⟩

theorem OnWay.append {names l : Location} (on_way : OnWay names l) (q : Location) :
    OnWay (names ++ q) l := on_way.of_prefix (List.prefix_append names q)

/-- A way that goes on by plain names goes on by what they name. -/
theorem OnWay.of_append_plain {names q l : Location} (plain : Plain q)
    (on_way : OnWay (names ++ q) l) :
    OnWay names l ∨ ∃ r, r ≠ [] ∧ r <+: q ∧ l = resolve names ++ r := by
  obtain ⟨p, way, rfl⟩ := on_way
  rcases List.prefix_or_prefix_of_prefix way (List.prefix_append names q) with first | ⟨r, rfl⟩
  · exact .inl ⟨p, first, rfl⟩
  · have further : r <+: q := (List.prefix_append_right_inj names).mp way
    have plain_r : Plain r := fun n mem => plain n (further.subset mem)
    by_cases last : r = []
    · exact .inl ⟨names, List.prefix_rfl, by rw [last, List.append_nil]⟩
    · exact .inr ⟨r, last, further, resolve_append_plain names plain_r⟩

end Location

namespace FileTree

open Location (resolve resolveFrom stepTo Below OnWay)

variable {t t' : FileTree}

/-! ## Following names to where they lead -/

theorem eq_resolveFrom_of_advance {followLast : Bool} {here names loc : Location}
    (arrives : t.advance followLast here names = .found loc ∨
      t.advance followLast here names = .vacant loc) : loc = resolveFrom here names := by
  induction names generalizing here with
  | nil =>
    rcases arrives with found | vacant
    · cases found
      rfl
    · cases vacant
  | cons name rest ih =>
    rw [resolveFrom, List.foldl_cons]
    rw [advance] at arrives
    split at arrives
    · next blank =>
      rw [stepTo, if_pos blank]
      exact ih arrives
    next blank =>
    split at arrives
    · next up =>
      rw [stepTo, if_neg blank, if_pos up]
      exact ih arrives
    next up =>
    rw [stepTo, if_neg blank, if_neg up]
    split at arrives
    · simp at arrives
    split at arrives
    · by_cases last : rest = [] <;> simp_all
    · by_cases last : rest = [] <;> simp_all
    · exact ih arrives
    · split at arrives <;> simp_all

/-- Names that lead somewhere lead there as long as everything on their way stays. -/
theorem advance_found_of_kept {followLast : Bool} {here names loc : Location}
    (found : t.advance followLast here names = .found loc)
    (kept : ∀ p e, p <+: names → t.entries.get? (resolveFrom here p) = some e →
      t'.entries.get? (resolveFrom here p) = some e) :
    t'.advance followLast here names = .found loc := by
  induction names generalizing here with
  | nil => exact found
  | cons name rest ih =>
    have kept_rest : ∀ p e, p <+: rest →
        t.entries.get? (resolveFrom (stepTo here name) p) = some e →
        t'.entries.get? (resolveFrom (stepTo here name) p) = some e := fun p e way there =>
      kept (name :: p) e (by simpa using way) there
    rw [advance] at found ⊢
    by_cases blank : FilePath.isBlankPart name
    · rw [stepTo, if_pos blank] at kept_rest
      rw [if_pos blank] at found ⊢
      exact ih found kept_rest
    rw [if_neg blank] at found ⊢
    by_cases up : name = ".."
    · rw [stepTo, if_neg blank, if_pos up] at kept_rest
      rw [if_pos up] at found ⊢
      exact ih found kept_rest
    rw [stepTo, if_neg blank, if_neg up] at kept_rest
    rw [if_neg up] at found ⊢
    by_cases long : name.utf8ByteSize > Location.maxNameBytes
    · rw [if_pos long] at found
      cases found
    rw [if_neg long] at found ⊢
    have first := fun e => kept_rest [] e List.nil_prefix
    simp only [resolveFrom, List.foldl_nil] at first
    cases there : t.entries.get? (here ++ [name]) with
    | none =>
      rw [there] at found
      by_cases last : rest = [] <;> simp [last] at found
    | some entry =>
      rw [there] at found
      rw [first entry there]
      cases entry with
      | directory => exact ih found kept_rest
      | _ => exact found

/-! ## Trees without links -/

/-- There are no links in the tree, and everything has a name of its own. -/
def Linkless (t : FileTree) : Prop := ∀ item ∈ t.entries.entries, Unlinked item

instance (t : FileTree) : Decidable t.Linkless :=
  inferInstanceAs (Decidable (∀ item ∈ t.entries.entries, Unlinked item))

theorem linkless_iff :
    t.Linkless ↔ ∀ l e, t.entries.get? l = some e → Plain l ∧ ∀ target, e ≠ .link target := by
  have unlinked_iff : ∀ item, Unlinked item ↔ Plain item.1 ∧ ∀ target, item.2 ≠ .link target := by
    rintro ⟨l, _ | _ | _⟩ <;> simp [Unlinked]
  constructor
  · intro tree l e found
    exact (unlinked_iff (l, e)).mp (tree _ (Table.get?_eq_some_iff.mp found))
  · rintro each ⟨l, e⟩ mem
    exact (unlinked_iff (l, e)).mpr (each l e (Table.get?_eq_some_iff.mpr mem))

namespace Linkless

variable (tree : t.Linkless)

include tree

theorem advance_ne_link {followLast : Bool} {here names : Location} :
    ∀ d names', t.advance followLast here names ≠ .link d names' := by
  induction names generalizing here with
  | nil => exact fun _ _ => Arrival.noConfusion
  | cons name rest ih =>
    intro d names'
    rw [advance]
    split
    · exact ih d names'
    split
    · exact ih d names'
    split
    · exact Arrival.noConfusion
    split
    · split <;> exact Arrival.noConfusion
    · split <;> exact Arrival.noConfusion
    · exact ih d names'
    · next target found => exact absurd rfl ((linkless_iff.mp tree _ _ found).2 target)

theorem follow_eq (followLast : Bool) (names : Location) :
    t.follow followLast names =
      if names.isUsable then t.advance followLast [] names else .lost := by
  rw [follow, walk_of_not_link tree.advance_ne_link]

/-- Wherever names lead, it is where they say. -/
theorem eq_resolve_of_follow {followLast : Bool} {names loc : Location}
    (arrives : t.follow followLast names = .found loc ∨ t.follow followLast names = .vacant loc) :
    loc = resolve names := by
  rw [tree.follow_eq] at arrives
  split at arrives
  · exact eq_resolveFrom_of_advance arrives
  · simp at arrives

theorem get?_of_follow_vacant {followLast : Bool} {names loc : Location}
    (vacant : t.follow followLast names = .vacant loc) :
    t.entries.get? (resolve names) = none := by
  rw [← tree.eq_resolve_of_follow (.inr vacant)]
  rw [tree.follow_eq] at vacant
  split at vacant
  · exact get?_of_advance_vacant vacant
  · cases vacant

theorem of_find? {names loc : Location} {entry : Entry}
    (found : t.find? names = some (loc, entry)) :
    loc = resolve names ∧ entry? t (resolve names) = some entry := by
  have here := tree.eq_resolve_of_follow (.inl (locate_of_find? found))
  rw [find?, locate_of_find? found] at found
  obtain ⟨e, there, same⟩ := Option.map_eq_some_iff.mp found
  cases same
  exact ⟨here, here ▸ there⟩

theorem of_findLast? {names loc : Location} {entry : Entry}
    (found : t.findLast? names = some (loc, entry)) :
    loc = resolve names ∧ entry? t (resolve names) = some entry := by
  have here := tree.eq_resolve_of_follow (.inl (locateLast_of_findLast? found))
  rw [findLast?, locateLast_of_findLast? found] at found
  obtain ⟨e, there, same⟩ := Option.map_eq_some_iff.mp found
  cases same
  exact ⟨here, here ▸ there⟩

/-! ## Directories that names lead to -/

theorem isDirectory_iff {names : Location} :
    t.isDirectory names = true ↔
      t.locate names = .found (resolve names) ∧ HoldsDirectory t.entries (resolve names) := by
  constructor
  · intro there
    unfold isDirectory at there
    split at there
    · next loc found =>
      obtain ⟨rfl, entry⟩ := tree.of_find? found
      refine ⟨locate_of_find? found, ?_⟩
      unfold entry? at entry
      split at entry
      · next top => exact .inl top
      · exact .inr entry
    · cases there
  · rintro ⟨found, directory⟩
    rw [isDirectory, find?_of_holdsDirectory found directory]

/-- All names on the way to a directory lead to directories. -/
theorem holdsDirectory_on_way {names l : Location} (there : t.isDirectory names = true)
    (on_way : OnWay names l) : HoldsDirectory t.entries l := by
  obtain ⟨p, ⟨rest, rfl⟩, rfl⟩ := on_way
  obtain ⟨found, directory⟩ := tree.isDirectory_iff.mp there
  by_cases last : rest = []
  · simpa [last] using directory
  · obtain ⟨above, first, directory⟩ := locate_of_follow_append found last
    rwa [← tree.eq_resolve_of_follow (.inl first)]

/-- Names that lead to a directory lead there as long as the directories on their way stay. -/
theorem isDirectory_of_kept (tree' : t'.Linkless) {names : Location}
    (there : t.isDirectory names = true)
    (kept : ∀ l, OnWay names l → HoldsDirectory t.entries l → HoldsDirectory t'.entries l) :
    t'.isDirectory names = true := by
  obtain ⟨found, directory⟩ := tree.isDirectory_iff.mp there
  refine tree'.isDirectory_iff.mpr ⟨?_, kept _ (Location.onWay_self names) directory⟩
  rw [locate, tree.follow_eq] at found
  rw [locate, tree'.follow_eq]
  split at found
  · next usable =>
    rw [if_pos usable]
    refine advance_found_of_kept found fun p e way here => ?_
    have on_way : OnWay names (resolveFrom [] p) := ⟨p, way, rfl⟩
    have holds := tree.holdsDirectory_on_way there on_way
    have not_top := (t.closed _ _ here).1
    have directory := holds.resolve_left not_top
    cases directory.symm.trans here
    exact (kept _ on_way holds).resolve_left not_top
  · cases found

/-! ## Plain names further on from a directory -/

section Beyond

variable {names : Location} (there : t.isDirectory names = true) {name : String}
  (plain : Plain [name])

include there

theorem follow_concat (followLast : Bool) :
    t.follow followLast (names ++ [name]) =
      if Location.isUsable (names ++ [name]) then t.advance followLast (resolve names) [name]
      else .lost := by
  rw [tree.follow_eq]
  split
  · next usable =>
    obtain ⟨found, directory⟩ := tree.isDirectory_iff.mp there
    rw [locate, tree.follow_eq, if_pos (Location.isUsable_of_append usable)] at found
    rw [advance_append followLast (.inl rfl) (by simp), found]
    simp only [if_pos directory]
  · rfl

include plain

/-- What stands in a directory by a plain name is reached if its names are short enough. -/
theorem follow_concat_found (followLast : Bool) (short : Short names [name])
    (found : t.entries.get? (resolve names ++ [name]) = some .directory) :
    t.follow followLast (names ++ [name]) = .found (resolve names ++ [name]) := by
  obtain ⟨not_blank, not_up⟩ := plain name List.mem_cons_self
  have bytes := short.2 name List.mem_cons_self
  rw [tree.follow_concat there, if_pos short.1, advance, if_neg (by simp [not_blank]),
    if_neg not_up, if_neg (by omega), found]
  rfl

theorem isDirectory_concat (short : Short names [name])
    (found : t.entries.get? (resolve names ++ [name]) = some .directory) :
    t.isDirectory (names ++ [name]) = true := by
  rw [tree.isDirectory_iff, Location.resolve_append_plain names plain]
  exact ⟨tree.follow_concat_found there plain true short found, .inr found⟩

theorem findLast?_concat (short : Short names [name])
    (found : t.entries.get? (resolve names ++ [name]) = some .directory) :
    t.findLast? (names ++ [name]) = some (resolve names ++ [name], .directory) := by
  rw [findLast?, locateLast, tree.follow_concat_found there plain false short found]
  simp [found, entry?]

end Beyond

/-- A place is vacant only in a directory. -/
theorem isDirectory_of_vacant {names loc : Location} {name : String} {followLast : Bool}
    (vacant : t.follow followLast (names ++ [name]) = .vacant loc) :
    t.isDirectory names = true := by
  rw [tree.follow_eq] at vacant
  split at vacant
  · next usable =>
    rw [advance_append followLast (.inl rfl) (by simp)] at vacant
    split at vacant
    · next above first =>
      split at vacant
      · next directory =>
        have found : t.locate names = .found above := by
          rw [locate, tree.follow_eq, if_pos (Location.isUsable_of_append usable), first]
        rw [isDirectory, find?_of_holdsDirectory found directory]
      · cases vacant
    all_goals cases vacant
  · cases vacant

end Linkless

end FileTree

end VirtualModules
