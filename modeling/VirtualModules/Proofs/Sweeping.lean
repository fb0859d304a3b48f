import VirtualModules.Proofs.Placing

/-!
# Sweeping a namespace

Sweeping goes through what lies below the directory of a namespace, the content of a directory
before itself. Of each thing it decides whether it `Stays`, and removes just this one if it does not
(`sweepItem_cases`). It comes to an end unless some names are too long (`sweepAll_ends`), and then
what stated a summary is still there (`Swept.keeps_stored`), and all that is still there stays for
good: sweeping on removes nothing more (`Swept.stays`, `sweepAll_of_stays`).
-/

namespace VirtualModules

open FileTree

/-! ## What lies below a location -/

namespace FileTree

variable {t t' : FileTree} {loc : Location}

theorem lt_of_append_lt_append {a b : Location} (h : loc ++ a < loc ++ b) : a < b := by
  by_contra not_less
  by_cases same : a = b
  · rw [same] at h
    exact Std.lt_irrefl h
  · have more := Std.lt_of_le_of_ne (Std.not_lt.mp not_less) (Ne.symm same)
    exact Std.lt_irrefl (Std.lt_trans h (List.append_left_lt more))

theorem ascending_below (t : FileTree) (loc : Location) :
    (t.below loc).Pairwise fun a b => a.1 < b.1 := by
  rw [below, List.pairwise_filterMap]
  refine t.entries.ascending.imp fun {e e'} less a found b found' => ?_
  obtain ⟨l, entry⟩ := e
  obtain ⟨l', entry'⟩ := e'
  simp only at found found'
  split at found
  · next here =>
    split at found'
    · next here' =>
      cases found
      cases found'
      rw [List.isPrefixOf?_eq_some_iff_append_eq] at here here'
      rw [← here, ← here'] at less
      exact lt_of_append_lt_append less
    · cases found'
  · cases found

/-- What lies below is told by what stands there. -/
theorem below_congr {u : FileTree}
    (same : ∀ names, names ≠ [] → t.entries.get? (loc ++ names) = u.entries.get? (loc ++ names)) :
    t.below loc = u.below loc := by
  refine eq_of_pairwise_of_mem_iff (fun h h' => Std.lt_irrefl (Std.lt_trans h h'))
    (t.ascending_below loc) (u.ascending_below loc) fun (names, entry) => ?_
  rw [mem_below_iff, mem_below_iff]
  exact and_congr_right fun nonempty => by rw [same names nonempty]

theorem below_ne_nil_iff :
    t.below loc ≠ [] ↔ ∃ names, names ≠ [] ∧ (t.entries.get? (loc ++ names)).isSome := by
  constructor
  · intro some
    obtain ⟨⟨names, entry⟩, mem⟩ := List.exists_mem_of_ne_nil _ some
    obtain ⟨nonempty, found⟩ := mem_below_iff.mp mem
    exact ⟨names, nonempty, by rw [found]; rfl⟩
  · rintro ⟨names, nonempty, there⟩ none
    obtain ⟨entry, found⟩ := Option.isSome_iff_exists.mp there
    have mem := mem_below_iff.mpr ⟨nonempty, found⟩
    rw [none] at mem
    cases mem

/-- Only what stands at this one location is gone. -/
def GoneAt (loc : Location) (t t' : FileTree) : Prop :=
  ∀ l, t'.entries.get? l = if l = loc then none else t.entries.get? l

/-- With nothing below a location, removing it removes nothing else. -/
theorem goneAt_prune (nothing : t.below loc = []) : GoneAt loc t (t.prune loc) := by
  intro l
  rw [get?_prune]
  by_cases here : l = loc
  · rw [if_pos here, if_pos (here ▸ List.prefix_refl _)]
  · rw [if_neg here]
    split
    · next below =>
      obtain ⟨rest, rfl⟩ := below
      have more : rest ≠ [] := by
        rintro rfl
        exact here (List.append_nil _)
      by_contra found
      exact below_ne_nil_iff.mpr ⟨rest, more, Option.isSome_iff_ne_none.mpr (Ne.symm found)⟩ nothing
    · rfl

theorem Root.goneAt {destination d q : Location} (root : t.Root destination d) (nonempty : q ≠ [])
    (gone : GoneAt (d ++ q) t t') : t'.Root destination d := by
  apply root.of_changes
  intro l
  rw [gone]
  split
  · next here => exact .inr ⟨q, nonempty, here, fun target => nofun⟩
  · exact .inl rfl

theorem LinkFree.goneAt {destination d q : Location} (free : t.LinkFree destination d)
    (nonempty : q ≠ []) (gone : GoneAt (d ++ q) t t') : t'.LinkFree destination d := by
  apply free.of_changes
  intro l
  rw [gone]
  split
  · next here => exact .inr ⟨q, nonempty, here, .inl rfl⟩
  · exact .inl rfl

end FileTree

namespace InstallPlan

section Sweeping

variable {p : InstallPlan} {t t' : FileTree} {d : Location} {nspace : ImportPath}
  {kept : List Location}

/-! ## Sweeping one thing -/

/-- It is there as it was listed, below the directory of the namespace. -/
structure Listed (d : Location) (nspace : ImportPath) (t : FileTree) (item : Location × Entry) :
    Prop where
  nonempty : item.1 ≠ []
  plain : Plain (nspace.segments ++ item.1)
  found : t.entries.get? (d ++ (nspace.segments ++ item.1)) = some item.2

/-- It does not have to go: it is to be kept, or a directory with content, or the artifact of a
known module. -/
def Stays (p : InstallPlan) (d : Location) (nspace : ImportPath) (kept : List Location)
    (t : FileTree) (item : Location × Entry) : Prop :=
  p.destination ++ (nspace.segments ++ item.1) ∈ kept ∨
    match item.2 with
    | .directory => t.below (d ++ (nspace.segments ++ item.1)) ≠ []
    | _ => (p.stored? t (p.destination ++ (nspace.segments ++ item.1))).isSome

/-- It is to be kept, or its names are short enough to get at it. -/
def Within (p : InstallPlan) (nspace : ImportPath) (kept : List Location)
    (item : Location × Entry) : Prop :=
  p.destination ++ (nspace.segments ++ item.1) ∈ kept ∨
    Short p.destination (nspace.segments ++ item.1)

instance (p : InstallPlan) (nspace : ImportPath) (kept : List Location)
    (item : Location × Entry) : Decidable (p.Within nspace kept item) :=
  inferInstanceAs (Decidable (_ ∨ _))

/-- The first thing that has to be got at and whose names are too long for it. -/
def firstLong (p : InstallPlan) (nspace : ImportPath) (kept : List Location)
    (items : List (Location × Entry)) : Option (Location × Entry) :=
  items.find? fun item => ¬ p.Within nspace kept item

theorem of_firstLong {items : List (Location × Entry)} {long : Location × Entry}
    (first : p.firstLong nspace kept items = some long) :
    long ∈ items ∧ ¬ p.Within nspace kept long :=
  ⟨List.mem_of_find?_eq_some first, by simpa using List.find?_some first⟩

theorem firstLong_eq_none {items : List (Location × Entry)}
    (within : ∀ item ∈ items, p.Within nspace kept item) : p.firstLong nspace kept items = none :=
  List.find?_eq_none.mpr fun item mem => by simpa using within item mem

theorem sweepOne_directory (names : Location) :
    p.sweepOne names .directory t =
      if t.isDirectory names then
        match t.removeDirectory? names with
        | some t' => .ok true t'
        | none => .ok false t
      else .error ⟨names⟩ t := by
  simp only [sweepOne]
  rw [DiskAction.get_bind]
  split
  · cases t.removeDirectory? names <;> rfl
  · rfl

theorem sweepOne_file (names : Location) (content : Bytes) :
    p.sweepOne names (.file content) t =
      if (p.stored? t names).isSome then .ok false t
      else match t.removeFile? names with
        | some t' => .ok true t'
        | none => .error ⟨names⟩ t := by
  simp only [sweepOne]
  rw [DiskAction.get_bind]
  split
  · rfl
  · cases removed : t.removeFile? names with
    | some t' =>
      have done : DiskAction.removeFile names t = .ok () t' := DiskAction.change_of_some removed
      rw [DiskAction.bind_of_ok done]
      rfl
    | none =>
      have refused : DiskAction.removeFile names t = .error ⟨names⟩ t :=
        DiskAction.change_of_none removed
      rw [DiskAction.bind_of_error refused]

/-- A place that is out of reach states no summary. -/
theorem stored?_of_not_short (root : t.Root p.destination d) {q : Location} (plain : Plain q)
    (nonempty : q ≠ []) (long : ¬ Short p.destination q) :
    p.stored? t (p.destination ++ q) = none := by
  have unread : t.read? (p.destination ++ q) = none := by
    rw [Option.eq_none_iff_forall_ne_some]
    exact fun content read => long ((root.read?_eq_some_iff plain nonempty).mp read).1
  simp [stored?, storedSummary?, unread]

section One

variable (root : t.Root p.destination d) {q : Location} (plain : Plain q) (nonempty : q ≠ [])

include root plain nonempty

theorem sweepOne_directory_cases (found : t.entries.get? (d ++ q) = some .directory) :
    (Short p.destination q ∧ t.below (d ++ q) ≠ [] ∧
        p.sweepOne (p.destination ++ q) .directory t = .ok false t) ∨
      (Short p.destination q ∧ t.below (d ++ q) = [] ∧
        ∃ t', p.sweepOne (p.destination ++ q) .directory t = .ok true t' ∧ GoneAt (d ++ q) t t') ∨
      (¬ Short p.destination q ∧ p.sweepOne (p.destination ++ q) .directory t =
        .error ⟨p.destination ++ q⟩ t) := by
  have there_iff := root.isDirectory_iff plain nonempty
  rw [sweepOne_directory]
  by_cases short : Short p.destination q
  · have last := (root.findLast?_eq_some_iff plain nonempty).mpr ⟨rfl, short, found⟩
    simp only [if_pos (there_iff.mpr ⟨short, found⟩), removeDirectory?, last]
    by_cases empty : t.below (d ++ q) = []
    · exact .inr (.inl ⟨short, empty, _, by rw [empty]; rfl, goneAt_prune empty⟩)
    · refine .inl ⟨short, empty, ?_⟩
      rw [List.isEmpty_eq_false_iff.mpr empty]
      rfl
  · exact .inr (.inr ⟨short, if_neg fun there => short (there_iff.mp there).1⟩)

theorem sweepOne_file_cases {content : Bytes}
    (found : t.entries.get? (d ++ q) = some (.file content)) :
    (Short p.destination q ∧ (p.stored? t (p.destination ++ q)).isSome = true ∧
        p.sweepOne (p.destination ++ q) (.file content) t = .ok false t) ∨
      (Short p.destination q ∧ ¬ (p.stored? t (p.destination ++ q)).isSome = true ∧
        ∃ t', p.sweepOne (p.destination ++ q) (.file content) t = .ok true t' ∧
          GoneAt (d ++ q) t t') ∨
      (¬ Short p.destination q ∧ p.sweepOne (p.destination ++ q) (.file content) t =
        .error ⟨p.destination ++ q⟩ t) := by
  rw [sweepOne_file]
  by_cases short : Short p.destination q
  · by_cases stored : (p.stored? t (p.destination ++ q)).isSome = true
    · exact .inl ⟨short, stored, if_pos stored⟩
    · refine .inr (.inl ⟨short, stored, t.prune (d ++ q), ?_, get?_prune_file found⟩)
      rw [if_neg stored, root.removeFile?_file plain nonempty short found]
  · have refused : t.removeFile? (p.destination ++ q) = none := by
      unfold removeFile?
      split
      · rfl
      · rfl
      · next last => exact absurd ((root.findLast?_eq_some_iff plain nonempty).mp last).2.1 short
    refine .inr (.inr ⟨short, ?_⟩)
    rw [stored?_of_not_short root plain nonempty short, refused]
    rfl

end One

/-- A thing that is listed stays, or it is removed and nothing else, or its names are too long. -/
theorem sweepItem_cases (kept : List Location) (root : t.Root p.destination d)
    {item : Location × Entry} (listed : Listed d nspace t item) :
    (p.Within nspace kept item ∧ p.Stays d nspace kept t item ∧
        p.sweepItem kept (p.destination ++ (nspace.segments ++ item.1)) item.2 t = .ok false t) ∨
      (p.Within nspace kept item ∧ ¬ p.Stays d nspace kept t item ∧
        ∃ t', p.sweepItem kept (p.destination ++ (nspace.segments ++ item.1)) item.2 t =
            .ok true t' ∧ GoneAt (d ++ (nspace.segments ++ item.1)) t t') ∨
      (¬ p.Within nspace kept item ∧
        p.sweepItem kept (p.destination ++ (nspace.segments ++ item.1)) item.2 t =
          .error ⟨p.destination ++ (nspace.segments ++ item.1)⟩ t) := by
  obtain ⟨names, entry⟩ := item
  obtain ⟨nonempty, plain, found⟩ := listed
  have not_nil : nspace.segments ++ names ≠ [] :=
    List.append_ne_nil_of_left_ne_nil nspace.segments_ne_nil _
  by_cases keep : p.destination ++ (nspace.segments ++ names) ∈ kept
  · exact .inl ⟨.inl keep, .inl keep, by rw [sweepItem, if_pos keep]; rfl⟩
  rw [sweepItem, if_neg keep, Within, Stays, or_iff_right keep, or_iff_right keep]
  cases entry with
  | directory =>
    simpa only [not_not] using sweepOne_directory_cases root plain not_nil found
  | file content => exact sweepOne_file_cases root plain not_nil found
  | link target => exact absurd found (root.linkFree _ target not_nil)

/-! ## Sweeping several things -/

section Lists

variable {item : Location × Entry} {items : List (Location × Entry)} {t₁ : FileTree}

theorem sweepAll_cons (kept : List Location) (root : Location) (item : Location × Entry)
    (items : List (Location × Entry)) :
    p.sweepAll kept root (item :: items) = (do
      let gone ← p.sweepItem kept (root ++ item.1) item.2
      let removed ← p.sweepAll kept root items
      return if gone then (root ++ item.1) :: removed else removed) := rfl

/-- Sweeping some things and then some more. -/
theorem sweepAll_append (kept : List Location) (root : Location)
    (items₁ items₂ : List (Location × Entry)) :
    p.sweepAll kept root (items₁ ++ items₂) = (do
      let removed₁ ← p.sweepAll kept root items₁
      let removed₂ ← p.sweepAll kept root items₂
      return removed₁ ++ removed₂) := by
  induction items₁ with
  | nil => simp [sweepAll]
  | cons item rest ih =>
    simp only [List.cons_append, sweepAll_cons, ih, bind_assoc, pure_bind]
    refine bind_congr fun gone => bind_congr fun removed => bind_congr fun more => ?_
    cases gone <;> rfl

theorem sweepAll_cons_of_ok {gone : Bool} {removed : List Location}
    (one : p.sweepItem kept (p.destination ++ (nspace.segments ++ item.1)) item.2 t = .ok gone t₁)
    (all : p.sweepAll kept (p.destination ++ nspace.segments) items t₁ = .ok removed t') :
    p.sweepAll kept (p.destination ++ nspace.segments) (item :: items) t =
      .ok (if gone then (p.destination ++ (nspace.segments ++ item.1)) :: removed else removed)
        t' := by
  rw [sweepAll_cons, List.append_assoc, DiskAction.bind_of_ok one, DiskAction.bind_of_ok all]
  rfl

theorem sweepAll_cons_of_error {gone : Bool} {error : DiskError}
    (one : p.sweepItem kept (p.destination ++ (nspace.segments ++ item.1)) item.2 t = .ok gone t₁)
    (all : p.sweepAll kept (p.destination ++ nspace.segments) items t₁ = .error error t') :
    p.sweepAll kept (p.destination ++ nspace.segments) (item :: items) t = .error error t' := by
  rw [sweepAll_cons, List.append_assoc, DiskAction.bind_of_ok one, DiskAction.bind_of_error all]

theorem sweepAll_cons_stopped {error : DiskError}
    (one : p.sweepItem kept (p.destination ++ (nspace.segments ++ item.1)) item.2 t =
      .error error t') :
    p.sweepAll kept (p.destination ++ nspace.segments) (item :: items) t = .error error t' := by
  rw [sweepAll_cons, List.append_assoc, DiskAction.bind_of_error one]

/-- What sweeping some things did: some of them are gone, and none that is to be kept. -/
def Swept (p : InstallPlan) (d : Location) (nspace : ImportPath) (kept : List Location)
    (items : List (Location × Entry)) (t t' : FileTree) : Prop :=
  ∀ l, t'.entries.get? l = t.entries.get? l ∨
    (t'.entries.get? l = none ∧ ∃ item ∈ items, item.1 ≠ [] ∧
      l = d ++ (nspace.segments ++ item.1) ∧
      p.destination ++ (nspace.segments ++ item.1) ∉ kept)

theorem Swept.root (swept : p.Swept d nspace kept items t t') (root : t.Root p.destination d) :
    t'.Root p.destination d := by
  apply root.of_changes
  intro l
  rcases swept l with same | ⟨gone, item, -, nonempty, here, -⟩
  · exact .inl same
  · exact .inr ⟨_, by simp [nonempty], here, fun target => by rw [gone]; exact nofun⟩

theorem Swept.linkFree (swept : p.Swept d nspace kept items t t')
    (free : t.LinkFree p.destination d) : t'.LinkFree p.destination d := by
  apply free.of_changes
  intro l
  rcases swept l with same | ⟨gone, item, -, nonempty, here, -⟩
  · exact .inl same
  · exact .inr ⟨_, by simp [nonempty], here, .inl gone⟩

/-- What is to be kept is as it was. -/
theorem Swept.keeps (swept : p.Swept d nspace kept items t t') {q : Location}
    (keep : p.destination ++ q ∈ kept) : t'.entries.get? (d ++ q) = t.entries.get? (d ++ q) := by
  rcases swept (d ++ q) with same | ⟨-, item, -, -, here, free⟩
  · exact same
  · rw [← List.append_cancel_left here] at free
    exact absurd keep free

/-- What was not gone through is as it was. -/
theorem Swept.keeps_others (swept : p.Swept d nspace kept items t t') {names : Location}
    (other : names ∉ items.map (·.1)) :
    t'.entries.get? (d ++ (nspace.segments ++ names)) =
      t.entries.get? (d ++ (nspace.segments ++ names)) := by
  rcases swept (d ++ (nspace.segments ++ names)) with same | ⟨-, item, mem, -, here, -⟩
  · exact same
  · have same_names := List.append_cancel_left (List.append_cancel_left here)
    exact absurd (List.mem_map.mpr ⟨item, mem, same_names.symm⟩) other

theorem Swept.cons (one : t₁ = t ∨ (p.destination ++ (nspace.segments ++ item.1) ∉ kept ∧
      item.1 ≠ [] ∧ GoneAt (d ++ (nspace.segments ++ item.1)) t t₁))
    (rest : p.Swept d nspace kept items t₁ t') : p.Swept d nspace kept (item :: items) t t' := by
  intro l
  rcases rest l with same | ⟨gone, item', mem, here⟩
  · rw [same]
    rcases one with rfl | ⟨free, nonempty, gone⟩
    · exact .inl rfl
    · rw [gone]
      split
      · next here => exact .inr ⟨rfl, item, List.mem_cons_self, nonempty, here, free⟩
      · exact .inl rfl
  · exact .inr ⟨gone, item', List.mem_cons_of_mem _ mem, here⟩

/-- In one place there is one thing. -/
theorem Listed.eq_of_found (listed : Listed d nspace t item) {other : Location × Entry}
    (names : other.1 = item.1)
    (found : t.entries.get? (d ++ (nspace.segments ++ other.1)) = some other.2) :
    other = item := by
  rw [names, listed.found] at found
  exact Prod.ext names (Option.some.inj found).symm

/-- What is listed behind something that is gone is still there. -/
theorem Listed.of_gone (distinct : ((item :: items).map (·.1)).Nodup)
    (gone : GoneAt (d ++ (nspace.segments ++ item.1)) t t₁) {item' : Location × Entry}
    (mem : item' ∈ items) (listed : Listed d nspace t item') : Listed d nspace t₁ item' where
  nonempty := listed.nonempty
  plain := listed.plain
  found := by
    rw [gone, if_neg, listed.found]
    intro same
    have names := List.append_cancel_left (List.append_cancel_left same)
    exact (List.nodup_cons.mp distinct).1 (List.mem_map.mpr ⟨item', mem, names⟩)

/-- Sweeping comes to an end, or it stops at the first thing with names that are too long. -/
theorem sweepAll_ends (kept : List Location) (root : t.Root p.destination d)
    (listed : ∀ item ∈ items, Listed d nspace t item) (distinct : (items.map (·.1)).Nodup) :
    (∃ removed t', p.sweepAll kept (p.destination ++ nspace.segments) items t = .ok removed t' ∧
        p.Swept d nspace kept items t t' ∧ ∀ item ∈ items, p.Within nspace kept item) ∨
      ∃ long t', p.firstLong nspace kept items = some long ∧
        p.sweepAll kept (p.destination ++ nspace.segments) items t =
          .error ⟨p.destination ++ (nspace.segments ++ long.1)⟩ t' := by
  induction items generalizing t with
  | nil => exact .inl ⟨[], t, rfl, fun l => .inl rfl, by simp⟩
  | cons item rest ih =>
    have here := listed item List.mem_cons_self
    have distinct_rest := (List.nodup_cons.mp distinct).2
    have finish {gone : Bool} {t₁ : FileTree}
        (one : p.sweepItem kept (p.destination ++ (nspace.segments ++ item.1)) item.2 t =
          .ok gone t₁)
        (change : t₁ = t ∨ (p.destination ++ (nspace.segments ++ item.1) ∉ kept ∧ item.1 ≠ [] ∧
          GoneAt (d ++ (nspace.segments ++ item.1)) t t₁))
        (within : p.Within nspace kept item) (root₁ : t₁.Root p.destination d)
        (listed₁ : ∀ item' ∈ rest, Listed d nspace t₁ item') :
        (∃ removed t', p.sweepAll kept (p.destination ++ nspace.segments) (item :: rest) t =
            .ok removed t' ∧ p.Swept d nspace kept (item :: rest) t t' ∧
            ∀ item' ∈ item :: rest, p.Within nspace kept item') ∨
          ∃ long t', p.firstLong nspace kept (item :: rest) = some long ∧
            p.sweepAll kept (p.destination ++ nspace.segments) (item :: rest) t =
              .error ⟨p.destination ++ (nspace.segments ++ long.1)⟩ t' := by
      rcases ih root₁ listed₁ distinct_rest with
        ⟨removed, t', all, swept, withins⟩ | ⟨long, t', first, all⟩
      · exact .inl ⟨_, t', sweepAll_cons_of_ok one all, swept.cons change,
          List.forall_mem_cons.mpr ⟨within, withins⟩⟩
      · refine .inr ⟨long, t', ?_, sweepAll_cons_of_error one all⟩
        exact (List.find?_cons_of_neg (by simpa using within)).trans first
    rcases sweepItem_cases kept root here with
      ⟨within, -, one⟩ | ⟨within, goes, t₁, one, gone⟩ | ⟨long, one⟩
    · exact finish one (.inl rfl) within root fun item' mem =>
        listed item' (List.mem_cons_of_mem _ mem)
    · exact finish one (.inr ⟨fun keep => goes (.inl keep), here.nonempty, gone⟩) within
        (root.goneAt (List.append_ne_nil_of_left_ne_nil nspace.segments_ne_nil _) gone)
        fun item' mem => (listed item' (List.mem_cons_of_mem _ mem)).of_gone distinct gone mem
    · exact .inr ⟨item, t, List.find?_cons_of_pos (by simpa using long), sweepAll_cons_stopped one⟩

/-- A sweep that goes through gets at everything, and removes some of it at most. -/
theorem swept_of_ok (root : t.Root p.destination d)
    (listed : ∀ item ∈ items, Listed d nspace t item) (distinct : (items.map (·.1)).Nodup)
    {removed : List Location}
    (all : p.sweepAll kept (p.destination ++ nspace.segments) items t = .ok removed t') :
    p.Swept d nspace kept items t t' ∧ ∀ item ∈ items, p.Within nspace kept item := by
  rcases sweepAll_ends kept root listed distinct with
    ⟨removed', t'', all', swept, within⟩ | ⟨long, t'', -, all'⟩
  · cases all.symm.trans all'
    exact ⟨swept, within⟩
  · cases all.symm.trans all'

/-- Where everything stays, sweeping changes nothing. -/
theorem sweepAll_of_stays (root : t.Root p.destination d)
    (listed : ∀ item ∈ items, Listed d nspace t item)
    (within : ∀ item ∈ items, p.Within nspace kept item)
    (stays : ∀ item ∈ items, p.Stays d nspace kept t item) :
    p.sweepAll kept (p.destination ++ nspace.segments) items t = .ok [] t := by
  induction items with
  | nil => rfl
  | cons item rest ih =>
    have later := ih (fun i mem => listed i (List.mem_cons_of_mem _ mem))
      (fun i mem => within i (List.mem_cons_of_mem _ mem))
      fun i mem => stays i (List.mem_cons_of_mem _ mem)
    rcases sweepItem_cases kept root (listed item List.mem_cons_self) with
      ⟨-, -, one⟩ | ⟨-, goes, -⟩ | ⟨long, -⟩
    · exact sweepAll_cons_of_ok one later
    · exact absurd (stays item List.mem_cons_self) goes
    · exact absurd (within item List.mem_cons_self) long

end Lists

/-! ## What is still there -/

section Stays

variable {known : ImportPath → Bool} {item : Location × Entry} {items : List (Location × Entry)}

/-- If modules are known by their names alone, the stored summary depends only on what stands
there. -/
theorem stored?_congr (named : p.resolver = .ofNames known) {u : FileTree}
    (root : t.Root p.destination d) (root_u : u.Root p.destination d) {q : Location}
    (plain : Plain q) (nonempty : q ≠ [])
    (same : t.entries.get? (d ++ q) = u.entries.get? (d ++ q)) :
    p.stored? t (p.destination ++ q) = p.stored? u (p.destination ++ q) := by
  simp only [stored?, storedSummary?, named, root.read?_congr root_u plain nonempty same]
  rfl

/-- Something stays if it is the same in another tree and not emptied. -/
theorem Stays.congr (named : p.resolver = .ofNames known) {u : FileTree}
    (root : t.Root p.destination d) (root_u : u.Root p.destination d)
    (stays : p.Stays d nspace kept t item) (listed : Listed d nspace t item)
    (same : u.entries.get? (d ++ (nspace.segments ++ item.1)) =
      t.entries.get? (d ++ (nspace.segments ++ item.1)))
    (filled : t.below (d ++ (nspace.segments ++ item.1)) ≠ [] →
      u.below (d ++ (nspace.segments ++ item.1)) ≠ []) :
    p.Stays d nspace kept u item := by
  refine stays.imp_right fun holds => ?_
  have not_nil : nspace.segments ++ item.1 ≠ [] :=
    List.append_ne_nil_of_left_ne_nil nspace.segments_ne_nil _
  have stored := stored?_congr named root root_u listed.plain not_nil same.symm
  split
  · next directory =>
    rw [directory] at holds
    exact filled holds
  · next no_directory =>
    rw [← stored]
    split at holds
    · next directory => exact absurd directory no_directory
    · exact holds

/-- The content of a directory comes before itself: nothing is, or lies below, what was gone through
before. -/
def ContentFirst (items : List (Location × Entry)) : Prop :=
  items.Pairwise fun a b => ¬ a.1 <+: b.1

theorem ContentFirst.nodup (order : ContentFirst items) : (items.map (·.1)).Nodup := by
  rw [List.Nodup, List.pairwise_map]
  refine order.imp fun off same => off ?_
  rw [same]

/-- A sweep that went through, taken apart after its first thing, which stayed or was removed. -/
theorem of_sweepAll_cons (root : t.Root p.destination d)
    (distinct : ((item :: items).map (·.1)).Nodup)
    (listed : ∀ i ∈ item :: items, Listed d nspace t i) {removed : List Location}
    (all : p.sweepAll kept (p.destination ++ nspace.segments) (item :: items) t =
      .ok removed t') :
    ∃ t₁ removed₁, p.sweepAll kept (p.destination ++ nspace.segments) items t₁ =
        .ok removed₁ t' ∧
      t₁.Root p.destination d ∧ (∀ i ∈ items, Listed d nspace t₁ i) ∧
      p.Swept d nspace kept items t₁ t' ∧
      ((p.Stays d nspace kept t item ∧ t₁ = t ∧ removed = removed₁) ∨
        (¬ p.Stays d nspace kept t item ∧ GoneAt (d ++ (nspace.segments ++ item.1)) t t₁ ∧
          removed = (p.destination ++ (nspace.segments ++ item.1)) :: removed₁)) := by
  have listed_rest : ∀ i ∈ items, Listed d nspace t i := fun i mem =>
    listed i (List.mem_cons_of_mem _ mem)
  have rest_ends {t₁ : FileTree} (root₁ : t₁.Root p.destination d)
      (listed₁ : ∀ i ∈ items, Listed d nspace t₁ i) {gone : Bool}
      (one : p.sweepItem kept (p.destination ++ (nspace.segments ++ item.1)) item.2 t =
        .ok gone t₁) :
      ∃ removed₁, p.sweepAll kept (p.destination ++ nspace.segments) items t₁ =
        .ok removed₁ t' ∧ p.Swept d nspace kept items t₁ t' ∧
        removed = if gone then (p.destination ++ (nspace.segments ++ item.1)) :: removed₁
          else removed₁ := by
    rcases sweepAll_ends kept root₁ listed₁ (List.nodup_cons.mp distinct).2 with
      ⟨removed₁, t'', all₁, swept, -⟩ | ⟨long, t'', -, all₁⟩
    · rw [sweepAll_cons_of_ok one all₁] at all
      cases all
      exact ⟨removed₁, all₁, swept, rfl⟩
    · rw [sweepAll_cons_of_error one all₁] at all
      cases all
  rcases sweepItem_cases kept root (listed item List.mem_cons_self) with
    ⟨-, stays, one⟩ | ⟨-, goes, t₁, one, gone⟩ | ⟨-, one⟩
  · obtain ⟨removed₁, all₁, swept, listing⟩ := rest_ends root listed_rest one
    exact ⟨t, removed₁, all₁, root, listed_rest, swept, .inl ⟨stays, rfl, listing⟩⟩
  · have root₁ := root.goneAt
      (List.append_ne_nil_of_left_ne_nil nspace.segments_ne_nil _) gone
    have listed₁ : ∀ i ∈ items, Listed d nspace t₁ i := fun i mem =>
      (listed_rest i mem).of_gone distinct gone mem
    obtain ⟨removed₁, all₁, swept, listing⟩ := rest_ends root₁ listed₁ one
    exact ⟨t₁, removed₁, all₁, root₁, listed₁, swept, .inr ⟨goes, gone, listing⟩⟩
  · rw [sweepAll_cons_stopped one] at all
    cases all

/-- Sweeping on leaves alone what was swept first. -/
theorem Swept.keeps_first (order : ContentFirst (item :: items))
    (swept : p.Swept d nspace kept items t t') :
    t'.entries.get? (d ++ (nspace.segments ++ item.1)) =
      t.entries.get? (d ++ (nspace.segments ++ item.1)) :=
  swept.keeps_others (List.nodup_cons.mp order.nodup).1

/-- What sweeping went through and is still there stays for good. -/
theorem Swept.stays (named : p.resolver = .ofNames known) (root : t.Root p.destination d)
    (order : ContentFirst items) (listed : ∀ item ∈ items, Listed d nspace t item)
    {removed : List Location}
    (all : p.sweepAll kept (p.destination ++ nspace.segments) items t = .ok removed t') :
    ∀ item ∈ items, t'.entries.get? (d ++ (nspace.segments ++ item.1)) = some item.2 →
      p.Stays d nspace kept t' item := by
  induction items generalizing t removed with
  | nil => simp
  | cons item rest ih =>
    obtain ⟨later, order_rest⟩ := List.pairwise_cons.mp order
    have here := listed item List.mem_cons_self
    obtain ⟨t₁, removed₁, all₁, root₁, listed₁, swept, change⟩ :=
      of_sweepAll_cons root order.nodup listed all
    intro item' mem found
    rcases List.mem_cons.mp mem with rfl | mem
    · rcases change with ⟨stays, rfl, -⟩ | ⟨-, gone, -⟩
      · -- what comes later lies not below, so a directory keeps its content
        refine stays.congr named root (swept.root root) here (by rw [found, here.found]) ?_
        rw [below_ne_nil_iff, below_ne_nil_iff]
        rintro ⟨names, nonempty, there⟩
        refine ⟨names, nonempty, ?_⟩
        rcases swept (d ++ (nspace.segments ++ item'.1) ++ names) with
          same | ⟨-, other, mem_other, -, at_other, -⟩
        · rwa [same]
        · rw [List.append_assoc, List.append_assoc] at at_other
          have names_eq := List.append_cancel_left (List.append_cancel_left at_other)
          exact absurd ⟨names, names_eq⟩ (later other mem_other)
      · rw [swept.keeps_first order, gone, if_pos rfl] at found
        cases found
    · exact ih root₁ order_rest listed₁ all₁ item' mem found

/-- Sweeping leaves alone what states a summary before. -/
theorem Swept.keeps_stored (named : p.resolver = .ofNames known) (root : t.Root p.destination d)
    (order : ContentFirst items) (listed : ∀ item ∈ items, Listed d nspace t item)
    {removed : List Location}
    (all : p.sweepAll kept (p.destination ++ nspace.segments) items t = .ok removed t')
    (mem : item ∈ items) (no_directory : item.2 ≠ .directory)
    (stored : (p.stored? t (p.destination ++ (nspace.segments ++ item.1))).isSome = true) :
    t'.entries.get? (d ++ (nspace.segments ++ item.1)) = some item.2 := by
  induction items generalizing t removed with
  | nil => cases mem
  | cons first rest ih =>
    have order_rest := (List.pairwise_cons.mp order).2
    have here := listed item mem
    obtain ⟨t₁, removed₁, all₁, root₁, listed₁, swept, change⟩ :=
      of_sweepAll_cons root order.nodup listed all
    rcases List.mem_cons.mp mem with rfl | mem
    · have stays : p.Stays d nspace kept t item := by
        refine .inr ?_
        split
        · next directory => exact absurd directory no_directory
        · exact stored
      rcases change with ⟨-, rfl, -⟩ | ⟨goes, -⟩
      · rw [swept.keeps_first order, here.found]
      · exact absurd stays goes
    · -- the first thing stands elsewhere, so the summary is still there
      refine ih root₁ order_rest listed₁ all₁ mem ?_
      have same := (listed₁ item mem).found.trans here.found.symm
      rwa [stored?_congr named root₁ root here.plain
        (List.append_ne_nil_of_left_ne_nil nspace.segments_ne_nil _) same]

end Stays

/-! ## What there is to sweep -/

section SweepList

variable {destination : Location}

/-- There is something to sweep if the directory of the namespace is there. -/
theorem sweepList_cases (root : t.Root destination d) (nspace : ImportPath) :
    ((Short destination nspace.segments ∧
        t.entries.get? (d ++ nspace.segments) = some .directory) ∧
      sweepList t (destination ++ nspace.segments) = (t.below (d ++ nspace.segments)).reverse) ∨
    (¬ (Short destination nspace.segments ∧
        t.entries.get? (d ++ nspace.segments) = some .directory) ∧
      sweepList t (destination ++ nspace.segments) = []) := by
  have found_iff {loc : Location} :
      t.find? (destination ++ nspace.segments) = some (loc, .directory) ↔
        loc = d ++ nspace.segments ∧ Short destination nspace.segments ∧
          t.entries.get? (d ++ nspace.segments) = some .directory :=
    root.find?_eq_some_iff (plain_segments nspace) nspace.segments_ne_nil
  by_cases there : Short destination nspace.segments ∧
      t.entries.get? (d ++ nspace.segments) = some .directory
  · have found := found_iff.mpr ⟨rfl, there⟩
    have last := (root.findLast?_eq_some_iff (plain_segments nspace)
      nspace.segments_ne_nil).mpr ⟨rfl, there⟩
    exact .inl ⟨there, by simp only [sweepList, found, last]⟩
  · refine .inr ⟨there, ?_⟩
    unfold sweepList
    split
    · next found _ => exact absurd (found_iff.mp found).2 there
    · next found _ => exact absurd (found_iff.mp found).2 there
    · rfl

/-- The listing descends. -/
theorem descending_sweepList (root : t.Root destination d) (nspace : ImportPath) :
    (sweepList t (destination ++ nspace.segments)).Pairwise fun a b => b.1 < a.1 := by
  rcases sweepList_cases root nspace with ⟨-, list⟩ | ⟨-, list⟩
  · rw [list, List.pairwise_reverse]
    exact t.ascending_below _
  · rw [list]
    exact .nil

theorem contentFirst_sweepList (root : t.Root destination d) (nspace : ImportPath) :
    ContentFirst (sweepList t (destination ++ nspace.segments)) := by
  refine (descending_sweepList root nspace).imp fun {a b} less below => ?_
  exact Std.lt_irrefl (Std.lt_of_lt_of_le less below.le)

theorem listed_of_mem_sweepList (free : t.LinkFree destination d) {item : Location × Entry}
    (mem : item ∈ sweepList t (destination ++ nspace.segments)) : Listed d nspace t item := by
  rcases sweepList_cases free.toRoot nspace with ⟨-, list⟩ | ⟨-, list⟩
  · rw [list, List.mem_reverse] at mem
    obtain ⟨nonempty, found⟩ := mem_below_iff.mp mem
    rw [List.append_assoc] at found
    exact ⟨nonempty, free.named _ _ found, found⟩
  · rw [list] at mem
    cases mem

/-- A sweep of the whole namespace that goes through gets at everything in it. -/
theorem swept_of_sweepAll_ok (free : t.LinkFree p.destination d) {removed : List Location}
    (all : p.sweepAll kept (p.destination ++ nspace.segments)
      (sweepList t (p.destination ++ nspace.segments)) t = .ok removed t') :
    p.Swept d nspace kept (sweepList t (p.destination ++ nspace.segments)) t t' ∧
      ∀ item ∈ sweepList t (p.destination ++ nspace.segments), p.Within nspace kept item :=
  swept_of_ok free.toRoot (fun _ mem => listed_of_mem_sweepList free mem)
    (contentFirst_sweepList free.toRoot nspace).nodup all

/-- Whatever is below the directory of the namespace is listed. -/
theorem mem_sweepList_of_get? (root : t.Root destination d) {names : Location} {entry : Entry}
    (nonempty : names ≠ []) (short : Short destination nspace.segments)
    (found : t.entries.get? (d ++ (nspace.segments ++ names)) = some entry) :
    (names, entry) ∈ sweepList t (destination ++ nspace.segments) := by
  rw [← List.append_assoc] at found
  have directory : t.entries.get? (d ++ nspace.segments) = some .directory :=
    (holdsDirectory_of_get? nonempty found).resolve_left
      (List.append_ne_nil_of_right_ne_nil _ nspace.segments_ne_nil)
  rcases sweepList_cases root nspace with ⟨-, list⟩ | ⟨not_there, -⟩
  · rw [list, List.mem_reverse]
    exact mem_below_iff.mpr ⟨nonempty, found⟩
  · exact absurd ⟨short, directory⟩ not_there

theorem mem_sweepList_iff_found (root : t.Root destination d) {item : Location × Entry} :
    item ∈ sweepList t (destination ++ nspace.segments) ↔
      Short destination nspace.segments ∧ item.1 ≠ [] ∧
        t.entries.get? (d ++ (nspace.segments ++ item.1)) = some item.2 := by
  constructor
  · intro mem
    rcases sweepList_cases root nspace with ⟨⟨short, -⟩, list⟩ | ⟨-, list⟩
    · rw [list, List.mem_reverse, mem_below_iff, List.append_assoc] at mem
      exact ⟨short, mem⟩
    · rw [list] at mem
      cases mem
  · rintro ⟨short, nonempty, found⟩
    exact mem_sweepList_of_get? root nonempty short found

/-- Two trees have the same at a location and below it. -/
def SameBelow (loc : Location) (t u : FileTree) : Prop :=
  ∀ names, t.entries.get? (loc ++ names) = u.entries.get? (loc ++ names)

theorem SameBelow.get?_append {loc q : Location} {u : FileTree} (same : SameBelow (loc ++ q) t u)
    (names : Location) :
    t.entries.get? (loc ++ (q ++ names)) = u.entries.get? (loc ++ (q ++ names)) := by
  simpa using same names

theorem SameBelow.sweepList_eq {u : FileTree} (root : t.Root destination d)
    (root_u : u.Root destination d) (same : SameBelow (d ++ nspace.segments) t u) :
    sweepList t (destination ++ nspace.segments) = sweepList u (destination ++ nspace.segments) := by
  have self := same []
  rw [List.append_nil] at self
  rcases sweepList_cases root nspace with ⟨there, list⟩ | ⟨not_there, list⟩
  · rw [self] at there
    rcases sweepList_cases root_u nspace with ⟨-, list_u⟩ | ⟨not_there, -⟩
    · rw [list, list_u, below_congr fun names _ => same names]
    · exact absurd there not_there
  · rw [self] at not_there
    rcases sweepList_cases root_u nspace with ⟨there, -⟩ | ⟨-, list_u⟩
    · exact absurd there not_there
    · rw [list, list_u]

/-- What sweeping did not remove was there before. -/
theorem Swept.found_before {items : List (Location × Entry)}
    (swept : p.Swept d nspace kept items t t') {l : Location} {entry : Entry}
    (found : t'.entries.get? l = some entry) : t.entries.get? l = some entry := by
  rcases swept l with same | ⟨gone, -⟩
  · rw [← same, found]
  · cases gone.symm.trans found

/-- After some things were swept, there is to sweep what is still there. -/
theorem Swept.sweepList_eq (root : t.Root p.destination d) {items : List (Location × Entry)}
    (swept : p.Swept d nspace kept items t t') :
    sweepList t' (p.destination ++ nspace.segments) =
      (sweepList t (p.destination ++ nspace.segments)).filter fun item =>
        t'.entries.get? (d ++ (nspace.segments ++ item.1)) = some item.2 := by
  have root' := swept.root root
  have self : t'.entries.get? (d ++ nspace.segments) = t.entries.get? (d ++ nspace.segments) := by
    rcases swept (d ++ nspace.segments) with same | ⟨-, item, -, nonempty, here, -⟩
    · exact same
    · have names := List.append_cancel_left here
      simp [nonempty] at names
  rcases sweepList_cases root nspace with ⟨there, list⟩ | ⟨not_there, list⟩
  · rcases sweepList_cases root' nspace with ⟨-, list'⟩ | ⟨not_there, -⟩
    · -- both listings descend, so that they are the same as soon as they have the same members
      refine eq_of_pairwise_of_mem_iff (fun h h' => Std.lt_irrefl (Std.lt_trans h h'))
        (descending_sweepList root' nspace) ((descending_sweepList root nspace).filter _)
        fun (names, entry) => ?_
      rw [list, list', List.mem_filter, List.mem_reverse, List.mem_reverse, mem_below_iff,
        mem_below_iff, List.append_assoc, decide_eq_true_eq]
      constructor
      · rintro ⟨nonempty, found⟩
        exact ⟨⟨nonempty, swept.found_before found⟩, found⟩
      · rintro ⟨⟨nonempty, -⟩, found⟩
        exact ⟨nonempty, found⟩
    · exact absurd (self ▸ there) not_there
  · rcases sweepList_cases root' nspace with ⟨there, -⟩ | ⟨-, list'⟩
    · exact absurd (self ▸ there) not_there
    · rw [list, list', List.filter_nil]

end SweepList

end Sweeping

end InstallPlan

end VirtualModules
