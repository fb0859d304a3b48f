import VirtualModules.Proofs.Resolving
import VirtualModules.Proofs.Staging

/-!
# What an action can change

An action on a tree without links changes what its names lead to, and nothing else, however it
ends. `ModifiesOnly` says of two trees that they differ in an area at most, apart from directories
that are new on a way, and `DiskAction.WritesOnly` says so of the trees before and after an action.
There is a lemma for each of the ways in which actions are put together, and for each single
change.
-/

namespace VirtualModules

open Location (resolve OnWay)

namespace FileTree

variable {t t' t'' : FileTree} {area area' way way' : Location → Prop}

/-! ## Trees that differ in an area -/

/-- Outside the area nothing has changed, apart from new directories on the way; and there are
still no links. -/
structure ModifiesOnly (area way : Location → Prop) (t t' : FileTree) : Prop where
  linkless : t'.Linkless
  elsewhere : ∀ l, ¬ area l → t'.entries.get? l = t.entries.get? l ∨
    (t.entries.get? l = none ∧ way l ∧ t'.entries.get? l = some .directory)

namespace ModifiesOnly

theorem refl (tree : t.Linkless) : ModifiesOnly area way t t := ⟨tree, fun _ _ => .inl rfl⟩

theorem trans (first : ModifiesOnly area way t t') (second : ModifiesOnly area way t' t'') :
    ModifiesOnly area way t t'' where
  linkless := second.linkless
  elsewhere l outside := by
    rcases first.elsewhere l outside with same | ⟨absent, on_way, made⟩
    · rw [← same]
      exact second.elsewhere l outside
    · rcases second.elsewhere l outside with same | ⟨absent', -⟩
      · exact .inr ⟨absent, on_way, same.trans made⟩
      · cases absent'.symm.trans made

theorem mono (modifies : ModifiesOnly area way t t') (areas : ∀ l, area l → area' l)
    (ways : ∀ l, way l → way' l ∨ area' l) : ModifiesOnly area' way' t t' where
  linkless := modifies.linkless
  elsewhere l outside := by
    rcases modifies.elsewhere l fun inside => outside (areas l inside) with
      same | ⟨absent, on_way, made⟩
    · exact .inl same
    · exact .inr ⟨absent, (ways l on_way).resolve_right outside, made⟩

/-- What there is outside the area stays. -/
theorem kept (modifies : ModifiesOnly area way t t') {l : Location} {entry : Entry}
    (found : t.entries.get? l = some entry) (outside : ¬ area l) :
    t'.entries.get? l = some entry := by
  rcases modifies.elsewhere l outside with same | ⟨absent, -⟩
  · rw [same, found]
  · cases absent.symm.trans found

/-- What there is was there before, or is in the area, or is a directory on the way. -/
theorem of_found (modifies : ModifiesOnly area way t t') {l : Location} {entry : Entry}
    (found : t'.entries.get? l = some entry) :
    t.entries.get? l = some entry ∨ area l ∨ (way l ∧ entry = .directory) := by
  by_cases inside : area l
  · exact .inr (.inl inside)
  rcases modifies.elsewhere l inside with same | ⟨-, on_way, made⟩
  · exact .inl (same ▸ found)
  · cases made.symm.trans found
    exact .inr (.inr ⟨on_way, rfl⟩)

/-! ### Single changes -/

theorem of_entered (tree : t.Linkless) {loc : Location} {entry : Entry}
    (spec : ∀ l, t'.entries.get? l = if l = loc then some entry else t.entries.get? l)
    (plain : Plain loc) (no_link : ∀ target, entry ≠ .link target)
    (allowed : area loc ∨ (t.entries.get? loc = none ∧ way loc ∧ entry = .directory)) :
    ModifiesOnly area way t t' where
  linkless := by
    rw [linkless_iff]
    intro l e found
    rw [spec] at found
    split at found
    · next here =>
      cases found
      exact ⟨here ▸ plain, no_link⟩
    · exact linkless_iff.mp tree l e found
  elsewhere l outside := by
    rw [spec]
    split
    · next here =>
      subst here
      obtain ⟨absent, on_way, rfl⟩ := allowed.resolve_left outside
      exact .inr ⟨absent, on_way, rfl⟩
    · exact .inl rfl

theorem of_put? (tree : t.Linkless) {loc : Location} {entry : Entry}
    (put : t.put? loc entry = some t') (plain : Plain loc)
    (no_link : ∀ target, entry ≠ .link target) (inside : area loc) :
    ModifiesOnly area way t t' :=
  of_entered tree (put?_ok put).2.2.2 plain no_link (.inl inside)

theorem of_prune (tree : t.Linkless) {loc : Location} (inside : ∀ l, loc <+: l → area l) :
    ModifiesOnly area way t (t.prune loc) where
  linkless := by
    rw [linkless_iff]
    intro l e found
    rw [get?_prune] at found
    split at found
    · cases found
    · exact linkless_iff.mp tree l e found
  elsewhere l outside := by
    rw [get?_prune, if_neg fun below => outside (inside l below)]
    exact .inl rfl

theorem of_put_all (tree : t.Linkless) {loc : Location} {items : List (Location × Entry)}
    (entered : items.foldlM (fun t item => t.put? (loc ++ item.1) item.2) t = some t')
    (each : ∀ item ∈ items, Plain (loc ++ item.1) ∧ ∀ target, item.2 ≠ .link target)
    (inside : ∀ l, loc <+: l → area l) : ModifiesOnly area way t t' := by
  induction items generalizing t with
  | nil =>
    cases entered
    exact .refl tree
  | cons item rest ih =>
    rw [List.foldlM_cons] at entered
    obtain ⟨t₁, put, entered⟩ := Option.bind_eq_some_iff.mp entered
    obtain ⟨plain, no_link⟩ := each item List.mem_cons_self
    have first : ModifiesOnly area way t t₁ :=
      of_put? tree put plain no_link (inside _ (List.prefix_append loc item.1))
    exact first.trans (ih first.linkless entered fun i mem => each i (List.mem_cons_of_mem _ mem))

theorem of_moveTo? (tree : t.Linkless) {source target : Location} {entry : Entry}
    (moved : t.moveTo? source entry target = some t') (plain : Plain target)
    (no_link : ∀ target, entry ≠ .link target) (from_inside : ∀ l, source <+: l → area l)
    (to_inside : ∀ l, target <+: l → area l) : ModifiesOnly area way t t' := by
  unfold moveTo? at moved
  split at moved
  · cases moved
    exact .refl tree
  split at moved
  · cases moved
  obtain ⟨t₁, put, entered⟩ := Option.bind_eq_some_iff.mp moved
  have cleared : ModifiesOnly area way t (t.prune target) := of_prune tree to_inside
  have taken := cleared.trans (of_prune cleared.linkless from_inside)
  have first := taken.trans
    (of_put? taken.linkless put plain no_link (to_inside target List.prefix_rfl))
  refine first.trans (of_put_all first.linkless entered (fun item mem => ?_) to_inside)
  obtain ⟨plain_below, no_link_below⟩ := linkless_iff.mp tree _ _ (mem_below_iff.mp mem).2
  refine ⟨fun name mem_name => ?_, no_link_below⟩
  rcases List.mem_append.mp mem_name with above | below
  · exact plain name above
  · exact plain_below name (List.mem_append_right _ below)

end ModifiesOnly

/-! ## Single changes by name -/

namespace Linkless

variable (tree : t.Linkless)

include tree

/-- A directory is made where its names lead, and nothing stood there. -/
theorem of_makeDirectory? {names : Location} (made : t.makeDirectory? names = some t') :
    t.locateLast names = .vacant (resolve names) ∧ t.entries.get? (resolve names) = none ∧
      ∀ l, t'.entries.get? l = if l = resolve names then some .directory else t.entries.get? l := by
  unfold makeDirectory? at made
  split at made
  · next loc vacant =>
    obtain rfl := tree.eq_resolve_of_follow (.inr vacant)
    exact ⟨vacant, tree.get?_of_follow_vacant vacant, (put?_ok made).2.2.2⟩
  · cases made

theorem makeDirectoriesFrom (here names : Location) :
    ModifiesOnly area (OnWay (here ++ names)) t (t.makeDirectoriesFrom here names) := by
  induction names generalizing t here with
  | nil => exact .refl tree
  | cons name rest ih =>
    rw [FileTree.makeDirectoriesFrom, show here ++ name :: rest = here ++ [name] ++ rest by simp]
    cases made : t.makeDirectory? (here ++ [name]) with
    | none => exact ih tree _
    | some t₁ =>
      obtain ⟨-, absent, spec⟩ := tree.of_makeDirectory? made
      have first : ModifiesOnly area (OnWay (here ++ [name] ++ rest)) t t₁ :=
        .of_entered tree spec (Location.plain_resolve _) (fun _ => Entry.noConfusion)
          (.inr ⟨absent, ⟨_, List.prefix_append _ rest, rfl⟩, rfl⟩)
      exact first.trans (ih first.linkless _)

theorem makeDirectories (names : Location) :
    ModifiesOnly area (OnWay names) t (t.makeDirectories names) := by
  unfold FileTree.makeDirectories
  split
  · have made : ModifiesOnly area (OnWay ([] ++ names.makeable)) t _ :=
      tree.makeDirectoriesFrom [] names.makeable
    exact made.mono (fun _ => id) fun l on_way => .inl (on_way.of_prefix names.prefix_of_makeable)
  · exact .refl tree

theorem write? {names : Location} {content : Bytes}
    (written : t.write? names content = some t') (inside : area (resolve names)) :
    ModifiesOnly area way t t' := by
  have put : t.put? (resolve names) (.file content) = some t' := by
    unfold FileTree.write? at written
    split at written
    · next found => exact tree.eq_resolve_of_follow (.inl found) ▸ written
    · next vacant => exact tree.eq_resolve_of_follow (.inr vacant) ▸ written
    · cases written
  exact .of_put? tree put (Location.plain_resolve names) (fun _ => Entry.noConfusion) inside

section Removing

variable {names : Location} (inside : ∀ l, resolve names <+: l → area l)

include inside

theorem removeTree? (removed : t.removeTree? names = some t') : ModifiesOnly area way t t' := by
  unfold FileTree.removeTree? at removed
  split at removed
  · cases removed
  · cases removed
  · next found =>
    cases removed
    exact .of_prune tree ((tree.of_findLast? found).1 ▸ inside)

theorem removeFile? (removed : t.removeFile? names = some t') : ModifiesOnly area way t t' := by
  unfold FileTree.removeFile? at removed
  split at removed
  · cases removed
  · cases removed
  · next found =>
    cases removed
    exact .of_prune tree ((tree.of_findLast? found).1 ▸ inside)

theorem removeDirectory? (removed : t.removeDirectory? names = some t') :
    ModifiesOnly area way t t' := by
  unfold FileTree.removeDirectory? at removed
  split at removed
  · next found =>
    split at removed
    · cases removed
      exact .of_prune tree ((tree.of_findLast? found).1 ▸ inside)
    · cases removed
  · cases removed

end Removing

theorem rename? {source target : Location} (renamed : t.rename? source target = some t')
    (not_top : resolve source ≠ []) (from_inside : ∀ l, resolve source <+: l → area l)
    (to_inside : ∀ l, resolve target <+: l → area l) : ModifiesOnly area way t t' := by
  obtain ⟨entry, no_link, moved⟩ : ∃ entry, (∀ target, entry ≠ .link target) ∧
      t.moveTo? (resolve source) entry (resolve target) = some t' := by
    have no_link : ∀ loc entry, t.findLast? source = some (loc, entry) →
        ∀ target, entry ≠ .link target := by
      intro loc entry found
      obtain ⟨-, there⟩ := tree.of_findLast? found
      unfold entry? at there
      rw [if_neg not_top] at there
      exact (linkless_iff.mp tree _ _ there).2
    unfold FileTree.rename? at renamed
    split at renamed
    · next found place =>
      rw [(tree.of_findLast? found).1, tree.eq_resolve_of_follow (.inl place)] at renamed
      exact ⟨_, no_link _ _ found, renamed⟩
    · next found place =>
      rw [(tree.of_findLast? found).1, tree.eq_resolve_of_follow (.inr place)] at renamed
      exact ⟨_, no_link _ _ found, renamed⟩
    · cases renamed
  exact .of_moveTo? tree moved (Location.plain_resolve target) no_link from_inside to_inside

theorem copy? {source target : Location} (copied : t.copy? source target = some t')
    (inside : area (resolve target)) : ModifiesOnly area way t t' := by
  obtain ⟨content, -, written⟩ := Option.bind_eq_some_iff.mp copied
  exact tree.write? written inside

end Linkless

end FileTree

namespace DiskAction

open FileTree

variable {ε ε' α β : Type} {t t' : FileTree} {area way : Location → Prop}

/-! ## The tree that an action leaves -/

/-- The tree that an action leaves, however it ends. -/
def after (action : DiskAction ε α) (t : FileTree) : FileTree :=
  match action t with
  | .ok _ t' => t'
  | .error _ t' => t'

theorem after_of_ok {x : DiskAction ε α} {a : α} (h : x t = .ok a t') : x.after t = t' := by
  simp only [after, h]

theorem after_of_error {x : DiskAction ε α} {e : ε} (h : x t = .error e t') : x.after t = t' := by
  simp only [after, h]

theorem after_congr {x y : DiskAction ε α} (same : x t = y t') : x.after t = y.after t' := by
  simp only [after, same]

theorem eq_of_change_eq_error {location : Location} {f : FileTree → Option FileTree} {e : DiskError}
    (h : change location f t = .error e t') : t' = t := by
  cases changed : f t with
  | none =>
    rw [change_of_none changed] at h
    cases h
    rfl
  | some t₁ =>
    rw [change_of_some changed] at h
    cases h

theorem after_mapError (x : DiskAction ε α) (f : ε → ε') (t : FileTree) :
    (x.mapError f).after t = x.after t := by
  simp only [after, mapError]
  cases x t <;> rfl

theorem after_always (x : DiskAction ε α) (last : FileTree → FileTree) (t : FileTree) :
    (x.always last).after t = last (x.after t) := by
  simp only [after, always]
  cases x t <;> rfl

theorem after_makeDirectories (names : Location) (t : FileTree) :
    (makeDirectories names).after t = t.makeDirectories names := by
  by_cases there : (t.makeDirectories names).isDirectory names = true
  · exact after_of_ok (makeDirectories_of_isDirectory there)
  · exact after_of_error (makeDirectories_of_not_isDirectory there)

theorem after_get_bind {f : FileTree → DiskAction ε β} :
    ((get : DiskAction ε FileTree) >>= f).after t = (f t).after t := by
  simp only [after, get_bind]

/-- What holds after the first part of a sequence and is kept by the second holds after both,
however they end. -/
theorem after_bind {P : FileTree → Prop} {x : DiskAction ε α} {f : α → DiskAction ε β}
    (first : P (x.after t)) (second : ∀ a t₁, x t = .ok a t₁ → P t₁ → P ((f a).after t₁)) :
    P ((x >>= f).after t) := by
  cases ended : x t with
  | ok a t₁ =>
    rw [after_of_ok ended] at first
    rw [after_congr (bind_of_ok ended)]
    exact second a t₁ ended first
  | error e t₁ =>
    rw [after_of_error ended] at first
    rwa [after_of_error (bind_of_error ended)]

/-! ## Actions in an area -/

/-- On a tree without links, the action changes an area at most, apart from making directories
on the way. -/
def WritesOnly (area way : Location → Prop) (action : DiskAction ε α) : Prop :=
  ∀ t, t.Linkless → ModifiesOnly area way t (action.after t)

namespace WritesOnly

theorem pure (a : α) : WritesOnly area way (Pure.pure a : DiskAction ε α) :=
  fun _ tree => .refl tree

theorem bind {x : DiskAction ε α} {f : α → DiskAction ε β} (first : WritesOnly area way x)
    (second : ∀ a t t', x t = .ok a t' → WritesOnly area way (f a)) :
    WritesOnly area way (x >>= f) := by
  intro t tree
  exact after_bind (first t tree) fun a t₁ ended modifies =>
    modifies.trans (second a t t₁ ended t₁ modifies.linkless)

theorem get_bind {f : FileTree → DiskAction ε β}
    (each : ∀ t, t.Linkless → ModifiesOnly area way t ((f t).after t)) :
    WritesOnly area way ((get : DiskAction ε FileTree) >>= f) := by
  intro t tree
  rw [after_get_bind]
  exact each t tree

theorem change {names : Location} {f : FileTree → Option FileTree}
    (each : ∀ t t', t.Linkless → f t = some t' → ModifiesOnly area way t t') :
    WritesOnly area way (change names f) := by
  intro t tree
  cases changed : f t with
  | none =>
    rw [after_of_error (change_of_none changed)]
    exact .refl tree
  | some t' =>
    rw [after_of_ok (change_of_some changed)]
    exact each t t' tree changed

theorem makeDirectories {names : Location} (ways : ∀ l, OnWay names l → way l ∨ area l) :
    WritesOnly area way (makeDirectories names) := by
  intro t tree
  rw [after_makeDirectories]
  exact (tree.makeDirectories names).mono (fun _ => id) ways

theorem write {names : Location} {content : Bytes} (inside : area (resolve names)) :
    WritesOnly area way (write names content) :=
  change fun _ _ tree written => tree.write? written inside

theorem removeTree {names : Location} (inside : ∀ l, resolve names <+: l → area l) :
    WritesOnly area way (removeTree names) :=
  change fun _ _ tree removed => tree.removeTree? inside removed

theorem removeFile {names : Location} (inside : ∀ l, resolve names <+: l → area l) :
    WritesOnly area way (removeFile names) :=
  change fun _ _ tree removed => tree.removeFile? inside removed

end WritesOnly

end DiskAction

end VirtualModules
