import Mathlib.Data.List.Find
import VirtualModules.Proofs.ExactSweeps

/-!
# Sweeping in any order

In which order a directory lists what lies in it is up to the disk. A walk makes sure only that the
content of a directory comes before the directory (`WalkOrder`), and for what a sweep leaves no more
than that matters. A namespace is `Durable` if everything in it stays. Whatever a sweep goes
through, it removes nothing of a durable part (`trimmed_of_sweepAll`), and once it has gone through
everything, what it leaves is durable (`durable_of_sweepAll`). So it leaves the greatest durable
part, in whatever order (`sweepAll_arranged`), and so does a second sweep after a first one that was
cut short (`sweep_resumed`). In the same order the second one even goes on as the first one would
have (`sweepAll_resumed_in_order`), also where that does not go through.
-/

namespace VirtualModules

open FileTree

namespace InstallPlan

variable {p : InstallPlan} {d : Location} {nspace : ImportPath} {kept : List Location}
  {known : ImportPath → Bool} {t t' u u' v w : FileTree}
  {items items' : List (Location × Entry)} {removed : List Location}

/-! ## Durable namespaces -/

/-- Everything in the namespace stays. -/
def Durable (p : InstallPlan) (d : Location) (nspace : ImportPath) (kept : List Location)
    (t : FileTree) : Prop :=
  ∀ item ∈ sweepList t (p.sweepRoot nspace), p.Stays d nspace kept t item

section Durable

variable (by_name : p.resolver = .ofNames known) (free_w : w.LinkFree p.destination d)
  (durable : p.Durable d nspace kept w)

include by_name free_w durable

/-- What is durable stays where there is more in the namespace, too. -/
theorem Durable.stays_in_whole (root : t.Root p.destination d)
    (part : sweepList w (p.sweepRoot nspace) ⊆ sweepList t (p.sweepRoot nspace))
    {item : Location × Entry} (mem : item ∈ sweepList w (p.sweepRoot nspace)) :
    p.Stays d nspace kept t item := by
  have listed := listed_of_mem_sweepList free_w mem
  obtain ⟨short, -, found⟩ := (mem_sweepList_iff_found root).mp (part mem)
  refine (durable item mem).congr by_name free_w.toRoot root listed
    (found.trans listed.found.symm) fun filled => ?_
  obtain ⟨names, nonempty, there⟩ := below_ne_nil_iff.mp filled
  obtain ⟨entry, deeper⟩ := Option.isSome_iff_exists.mp there
  have deeper_mem : (item.1 ++ names, entry) ∈ sweepList w (p.sweepRoot nspace) :=
    (mem_sweepList_iff_found free_w.toRoot).mpr ⟨short, by simp [nonempty], by simpa using deeper⟩
  have deeper_found := ((mem_sweepList_iff_found root).mp (part deeper_mem)).2.2
  exact below_ne_nil_iff.mpr ⟨names, nonempty, by simpa using Option.isSome_of_eq_some deeper_found⟩

/-- Whatever a sweep goes through, it removes nothing of a durable part. -/
theorem Durable.subset_of_sweepAll (root : t.Root p.destination d)
    (part : sweepList w (p.sweepRoot nspace) ⊆ sweepList t (p.sweepRoot nspace))
    (listed : ∀ item ∈ items, Listed d nspace t item) (distinct : (items.map (·.1)).Nodup)
    (all : p.sweepAll kept (p.sweepRoot nspace) items t = .ok removed t') :
    sweepList w (p.sweepRoot nspace) ⊆ sweepList t' (p.sweepRoot nspace) := by
  induction items generalizing t removed with
  | nil =>
    cases all
    exact part
  | cons item rest ih =>
    obtain ⟨t₁, removed₁, all₁, root₁, listed₁, -, change⟩ :=
      of_sweepAll_cons root distinct listed all
    refine ih root₁ ?_ listed₁ (List.nodup_cons.mp distinct).2 all₁
    rcases change with ⟨-, rfl, -⟩ | ⟨goes, gone, -⟩
    · exact part
    · intro i mem
      obtain ⟨short, nonempty, found⟩ := (mem_sweepList_iff_found root).mp (part mem)
      refine (mem_sweepList_iff_found root₁).mpr ⟨short, nonempty, ?_⟩
      rw [gone, if_neg, found]
      intro here
      -- it would be the one that had to go, but what is durable stays
      have names : i.1 = item.1 := List.append_cancel_left (List.append_cancel_left here)
      have same : i = item := (listed item List.mem_cons_self).eq_of_found names found
      exact goes (same ▸ durable.stays_in_whole by_name free_w root part mem)

end Durable

/-! ## What sweeping leaves of a namespace -/

/-- Some things in the namespace are gone, but nothing of a durable part. -/
structure Trimmed (p : InstallPlan) (d : Location) (nspace : ImportPath) (kept : List Location)
    (t t' : FileTree) : Prop where
  free : t'.LinkFree p.destination d
  gone : ∀ l, t'.entries.get? l = t.entries.get? l ∨
    (t'.entries.get? l = none ∧ ∃ item ∈ sweepList t (p.sweepRoot nspace),
      l = d ++ (nspace.segments ++ item.1))
  keeps_durable : ∀ w : FileTree, w.LinkFree p.destination d → p.Durable d nspace kept w →
    sweepList w (p.sweepRoot nspace) ⊆ sweepList t (p.sweepRoot nspace) →
    sweepList w (p.sweepRoot nspace) ⊆ sweepList t' (p.sweepRoot nspace)

/-- What a sweep that goes through does, whatever it went through in the namespace. -/
theorem trimmed_of_sweepAll (by_name : p.resolver = .ofNames known)
    (free : t.LinkFree p.destination d) (part : items ⊆ sweepList t (p.sweepRoot nspace))
    (distinct : (items.map (·.1)).Nodup)
    (all : p.sweepAll kept (p.sweepRoot nspace) items t = .ok removed t') :
    p.Trimmed d nspace kept t t' := by
  have listed : ∀ item ∈ items, Listed d nspace t item := fun item mem =>
    listed_of_mem_sweepList free (part mem)
  obtain ⟨swept, -⟩ := swept_of_ok free.toRoot listed distinct all
  refine ⟨swept.linkFree free, fun l => ?_, fun w free_w durable sub => ?_⟩
  · exact (swept l).imp_right fun ⟨gone, item, mem, _, here, _⟩ => ⟨gone, item, part mem, here⟩
  · exact durable.subset_of_sweepAll by_name free_w free.toRoot sub listed distinct all

/-- Where everything was gone through, content first, what is left is durable. -/
theorem durable_of_sweepAll (by_name : p.resolver = .ofNames known)
    (free : t.LinkFree p.destination d) (whole : items.Perm (sweepList t (p.sweepRoot nspace)))
    (order : ContentFirst items)
    (all : p.sweepAll kept (p.sweepRoot nspace) items t = .ok removed t') :
    p.Durable d nspace kept t' := by
  have listed : ∀ item ∈ items, Listed d nspace t item := fun item mem =>
    listed_of_mem_sweepList free (whole.mem_iff.mp mem)
  obtain ⟨swept, -⟩ := swept_of_ok free.toRoot listed order.nodup all
  intro item mem
  obtain ⟨short, nonempty, found⟩ :=
    (mem_sweepList_iff_found (swept.linkFree free).toRoot).mp mem
  have before := (mem_sweepList_iff_found free.toRoot).mpr
    ⟨short, nonempty, swept.found_before found⟩
  exact Swept.stays by_name free.toRoot order listed all item (whole.mem_iff.mpr before) found

section Trimmed

variable (free : t.LinkFree p.destination d) (first : p.Trimmed d nspace kept t t')

include first

theorem Trimmed.found_before {l : Location} {entry : Entry}
    (found : t'.entries.get? l = some entry) : t.entries.get? l = some entry := by
  rcases first.gone l with same | ⟨gone, -⟩
  · rw [← same, found]
  · cases gone.symm.trans found

include free

theorem Trimmed.subset :
    sweepList t' (p.sweepRoot nspace) ⊆ sweepList t (p.sweepRoot nspace) := by
  intro item mem
  obtain ⟨short, nonempty, found⟩ := (mem_sweepList_iff_found first.free.toRoot).mp mem
  exact (mem_sweepList_iff_found free.toRoot).mpr ⟨short, nonempty, first.found_before found⟩

theorem Trimmed.trans (second : p.Trimmed d nspace kept t' u) : p.Trimmed d nspace kept t u where
  free := second.free
  gone l := by
    rcases second.gone l with same | ⟨gone, item, mem, here⟩
    · rw [same]
      exact first.gone l
    · exact .inr ⟨gone, item, first.subset free mem, here⟩
  keeps_durable w free_w durable part :=
    second.keeps_durable w free_w durable (first.keeps_durable w free_w durable part)

/-- What is left in one tree is left in another one, if that one has at least as much in the
namespace. -/
theorem Trimmed.found_in (second : p.Trimmed d nspace kept t u)
    (part : sweepList t' (p.sweepRoot nspace) ⊆ sweepList u (p.sweepRoot nspace))
    {l : Location} {entry : Entry} (found : t'.entries.get? l = some entry) :
    u.entries.get? l = some entry := by
  rcases second.gone l with same | ⟨-, item, mem, rfl⟩
  · rw [same, first.found_before found]
  · obtain ⟨short, nonempty, -⟩ := (mem_sweepList_iff_found free.toRoot).mp mem
    have mem' : (item.1, entry) ∈ sweepList t' (p.sweepRoot nspace) :=
      (mem_sweepList_iff_found first.free.toRoot).mpr ⟨short, nonempty, found⟩
    exact ((mem_sweepList_iff_found second.free.toRoot).mp (part mem')).2.2

/-- The greatest durable part of a namespace is unique. -/
theorem Trimmed.eq_of_durable (second : p.Trimmed d nspace kept t u)
    (durable : p.Durable d nspace kept t') (durable_u : p.Durable d nspace kept u) : t' = u := by
  have part := second.keeps_durable t' first.free durable (first.subset free)
  have part_u := first.keeps_durable u second.free durable_u (second.subset free)
  refine ext_get? fun l => Option.ext fun entry => ?_
  exact ⟨first.found_in free second part, second.found_in free first part_u⟩

end Trimmed

/-! ## Any order will do -/

/-- Going through the whole namespace comes to an end, or it stops at the first thing with names
that are too long. -/
theorem sweepList_ends (kept : List Location) (free : t.LinkFree p.destination d)
    (nspace : ImportPath) :
    (∃ removed t', p.sweepAll kept (p.sweepRoot nspace) (sweepList t (p.sweepRoot nspace)) t =
        .ok removed t' ∧ p.firstLong nspace kept (sweepList t (p.sweepRoot nspace)) = none) ∨
      ∃ long t', p.firstLong nspace kept (sweepList t (p.sweepRoot nspace)) = some long ∧
        p.sweepAll kept (p.sweepRoot nspace) (sweepList t (p.sweepRoot nspace)) t =
          .error ⟨p.destination ++ (nspace.segments ++ long.1)⟩ t' := by
  refine (sweepAll_ends kept free.toRoot (fun _ mem => listed_of_mem_sweepList free mem)
    (contentFirst_sweepList free.toRoot nspace).nodup).imp_left ?_
  rintro ⟨removed, t', all, -, within⟩
  exact ⟨removed, t', all, firstLong_eq_none within⟩

/-- What is out of reach is not swept, so the first thing that is out of reach is so still. -/
theorem firstLong_swept (free : t.LinkFree p.destination d)
    (part : items ⊆ sweepList t (p.sweepRoot nspace)) (distinct : (items.map (·.1)).Nodup)
    (first : p.sweepAll kept (p.sweepRoot nspace) items t = .ok removed v) :
    p.firstLong nspace kept (sweepList v (p.sweepRoot nspace)) =
      p.firstLong nspace kept (sweepList t (p.sweepRoot nspace)) := by
  have listed : ∀ item ∈ items, Listed d nspace t item := fun item mem =>
    listed_of_mem_sweepList free (part mem)
  obtain ⟨swept, within⟩ := swept_of_ok free.toRoot listed distinct first
  have list_v : sweepList v (p.sweepRoot nspace) = _ := swept.sweepList_eq free.toRoot
  rw [list_v, firstLong, List.find?_filter]
  refine List.find?_congr fun item mem => decide_eq_decide.mpr ?_
  rw [decide_eq_true_eq, decide_eq_true_eq]
  refine and_iff_right_of_imp fun long => ?_
  have found := (listed_of_mem_sweepList free mem).found
  rw [swept.keeps_others, found]
  intro gone_through
  obtain ⟨other, mem_other, names⟩ := List.mem_map.mp gone_through
  have same : item = other := (listed other mem_other).eq_of_found names.symm found
  exact long (same ▸ within other mem_other)

section Orders

variable (by_name : p.resolver = .ofNames known) (free : t.LinkFree p.destination d)

include by_name free

/-- In the same order, sweeping goes on where it was cut short: of what it went through all that is
still there stays, and the others are swept as they would have been. -/
theorem sweepAll_resumed_in_order {first rest : List (Location × Entry)}
    (listed : ∀ item ∈ first ++ rest, Listed d nspace t item) (order : ContentFirst (first ++ rest))
    (swept_first : p.sweepAll kept (p.sweepRoot nspace) first t = .ok removed v) :
    p.sweepAll kept (p.sweepRoot nspace) (first ++ rest) t = (do
      let more ← p.sweepAll kept (p.sweepRoot nspace) ((first ++ rest).filter fun item =>
        v.entries.get? (d ++ (nspace.segments ++ item.1)) = some item.2)
      return removed ++ more) v := by
  obtain ⟨order_first, -, apart⟩ := List.pairwise_append.mp order
  have listed_first : ∀ item ∈ first, Listed d nspace t item := fun item mem =>
    listed item (List.mem_append_left _ mem)
  obtain ⟨swept, within⟩ :=
    swept_of_ok free.toRoot listed_first (ContentFirst.nodup order_first) swept_first
  have still : p.sweepAll kept (p.sweepRoot nspace) (first.filter fun item =>
      v.entries.get? (d ++ (nspace.segments ++ item.1)) = some item.2) v = .ok [] v := by
    refine sweepAll_of_stays (swept.root free.toRoot) ?_ ?_ ?_
    · intro item mem
      obtain ⟨mem_first, found⟩ := List.mem_filter.mp mem
      have before := listed_first item mem_first
      exact ⟨before.nonempty, before.plain, of_decide_eq_true found⟩
    · exact fun item mem => within item (List.mem_of_mem_filter mem)
    · intro item mem
      obtain ⟨mem_first, found⟩ := List.mem_filter.mp mem
      exact Swept.stays by_name free.toRoot order_first listed_first swept_first item mem_first
        (of_decide_eq_true found)
  have there : rest.filter (fun item =>
      v.entries.get? (d ++ (nspace.segments ++ item.1)) = some item.2) = rest := by
    refine List.filter_eq_self.mpr fun item mem => decide_eq_true ?_
    rw [swept.keeps_others, (listed item (List.mem_append_right _ mem)).found]
    intro gone_through
    obtain ⟨other, mem_other, names⟩ := List.mem_map.mp gone_through
    exact apart other mem_other item mem (names ▸ List.prefix_refl _)
  rw [List.filter_append, there, sweepAll_append, sweepAll_append,
    DiskAction.bind_of_ok swept_first]
  simp only [bind_assoc, pure_bind]
  rw [DiskAction.bind_of_ok still]
  rfl

/-- If sweeping goes through in one order, it does so in every order, with the same answer once it
is sorted and with the same tree. -/
theorem sweepAll_ok_of_perm (whole : items.Perm (sweepList t (p.sweepRoot nspace)))
    (whole' : items'.Perm (sweepList t (p.sweepRoot nspace))) (order : ContentFirst items)
    (order' : ContentFirst items')
    (all : p.sweepAll kept (p.sweepRoot nspace) items t = .ok removed t') :
    ∃ removed', p.sweepAll kept (p.sweepRoot nspace) items' t = .ok removed' t' ∧
      (removed'.mergeSort fun a b => a ≤ b) = removed.mergeSort fun a b => a ≤ b := by
  have listed : ∀ item ∈ items, Listed d nspace t item := fun item mem =>
    listed_of_mem_sweepList free (whole.mem_iff.mp mem)
  have listed' : ∀ item ∈ items', Listed d nspace t item := fun item mem =>
    listed_of_mem_sweepList free (whole'.mem_iff.mp mem)
  have perm : items'.Perm items := whole'.trans whole.symm
  obtain ⟨-, within⟩ := swept_of_ok free.toRoot listed order.nodup all
  rcases sweepAll_ends kept free.toRoot listed' order'.nodup with
    ⟨removed', u, all', -, -⟩ | ⟨long, u, first, -⟩
  · have left := trimmed_of_sweepAll by_name free whole.subset order.nodup all
    have right := trimmed_of_sweepAll by_name free whole'.subset order'.nodup all'
    have same : t' = u := left.eq_of_durable free right
      (durable_of_sweepAll by_name free whole order all)
      (durable_of_sweepAll by_name free whole' order' all')
    subst same
    refine ⟨removed', all', ?_⟩
    refine eq_of_pairwise_of_mem_iff (r := (· < ·)) (fun h h' => Std.lt_irrefl (Std.lt_trans h h'))
      (ascending_mergeSort (nodup_removed free.toRoot order' listed' all'))
      (ascending_mergeSort (nodup_removed free.toRoot order listed all)) fun loc => ?_
    rw [List.mem_mergeSort, List.mem_mergeSort, removed_eq free.toRoot order' listed' all',
      removed_eq free.toRoot order listed all]
    exact ((perm.filter _).map _).mem_iff
  · obtain ⟨mem, outside⟩ := of_firstLong first
    exact absurd (within long (perm.mem_iff.mp mem)) outside

/-- So the order of a walk can be fixed. -/
theorem sweepAll_arranged (arranged : items.Perm (sweepList t (p.sweepRoot nspace)))
    (order : ContentFirst items) {listing : List Location} :
    (∃ removed, p.sweepAll kept (p.sweepRoot nspace) items t = .ok removed t' ∧
      listing = removed.mergeSort fun a b => a ≤ b) ↔
    ∃ removed, p.sweepAll kept (p.sweepRoot nspace) (sweepList t (p.sweepRoot nspace)) t =
      .ok removed t' ∧ listing = removed.mergeSort fun a b => a ≤ b := by
  have fixed := contentFirst_sweepList free.toRoot nspace
  constructor
  · rintro ⟨removed, all, rfl⟩
    obtain ⟨removed', all', same⟩ :=
      sweepAll_ok_of_perm by_name free arranged (.refl _) order fixed all
    exact ⟨removed', all', same.symm⟩
  · rintro ⟨removed, all, rfl⟩
    obtain ⟨removed', all', same⟩ :=
      sweepAll_ok_of_perm by_name free (.refl _) arranged fixed order all
    exact ⟨removed', all', same.symm⟩

/-- After a sweep that was cut short, sweeping leaves what it would have left at first, or it stops
at the same place, whose names are too long. If what was swept first is what the listing begins
with, it leaves the same in that case, too. -/
theorem sweep_resumed (part : items ⊆ sweepList t (p.sweepRoot nspace))
    (distinct : (items.map (·.1)).Nodup)
    (first : p.sweepAll kept (p.sweepRoot nspace) items t = .ok removed v) :
    (∃ removed₁ removed₂ t',
        p.sweepAll kept (p.sweepRoot nspace) (sweepList t (p.sweepRoot nspace)) t =
          .ok removed₁ t' ∧
        p.sweepAll kept (p.sweepRoot nspace) (sweepList v (p.sweepRoot nspace)) v =
          .ok removed₂ t') ∨
      ∃ long t' v', ¬ p.Within nspace kept long ∧
        p.sweepAll kept (p.sweepRoot nspace) (sweepList t (p.sweepRoot nspace)) t =
          .error ⟨p.destination ++ (nspace.segments ++ long.1)⟩ t' ∧
        p.sweepAll kept (p.sweepRoot nspace) (sweepList v (p.sweepRoot nspace)) v =
          .error ⟨p.destination ++ (nspace.segments ++ long.1)⟩ v' ∧
        (items <+: sweepList t (p.sweepRoot nspace) → t' = v') := by
  have trimmed := trimmed_of_sweepAll by_name free part distinct first
  have same_long := firstLong_swept free part distinct first
  rcases sweepList_ends kept free nspace with ⟨removed₁, t', all, within⟩ | ⟨long, t', at_long, all⟩
  · rcases sweepList_ends kept trimmed.free nspace with
      ⟨removed₂, v', all_v, -⟩ | ⟨long, v', at_long, -⟩
    · have order := contentFirst_sweepList free.toRoot nspace
      have order_v := contentFirst_sweepList trimmed.free.toRoot nspace
      have whole := trimmed_of_sweepAll by_name free (List.Subset.refl _) order.nodup all
      have rest := trimmed_of_sweepAll by_name trimmed.free (List.Subset.refl _) order_v.nodup all_v
      have same : t' = v' := whole.eq_of_durable free (trimmed.trans free rest)
        (durable_of_sweepAll by_name free (.refl _) order all)
        (durable_of_sweepAll by_name trimmed.free (.refl _) order_v all_v)
      exact .inl ⟨removed₁, removed₂, t', all, same ▸ all_v⟩
    · rw [same_long, within] at at_long
      cases at_long
  · rcases sweepList_ends kept trimmed.free nspace with
      ⟨-, -, -, within⟩ | ⟨long', v', at_long', all_v⟩
    · rw [← same_long, within] at at_long
      cases at_long
    · rw [same_long, at_long] at at_long'
      cases at_long'
      refine .inr ⟨long, t', v', (of_firstLong at_long).2, all, all_v, ?_⟩
      -- both went on from the same tree
      rintro ⟨rest, whole⟩
      have listed : ∀ item ∈ items ++ rest, Listed d nspace t item := fun item mem =>
        listed_of_mem_sweepList free (whole ▸ mem)
      obtain ⟨swept, -⟩ := swept_of_ok free.toRoot
        (fun item mem => listed item (List.mem_append_left _ mem)) distinct first
      have list_v : sweepList v (p.sweepRoot nspace) =
          (sweepList t (p.sweepRoot nspace)).filter fun item =>
            v.entries.get? (d ++ (nspace.segments ++ item.1)) = some item.2 :=
        swept.sweepList_eq free.toRoot
      have order := contentFirst_sweepList free.toRoot nspace
      have resumed := sweepAll_resumed_in_order by_name free listed (whole ▸ order) first
      rw [whole, ← list_v, all, DiskAction.bind_of_error all_v] at resumed
      cases resumed
      rfl

end Orders

end InstallPlan

/-! ## Walks -/

/-- The order in which a walk comes by what is below a directory: it is up to the disk, but for the
content of a directory, which comes before the directory. -/
structure WalkOrder where
  arrange : List (Location × Entry) → List (Location × Entry)
  perm : ∀ items, (arrange items).Perm items
  contentFirst : ∀ items, InstallPlan.ContentFirst items → InstallPlan.ContentFirst (arrange items)

namespace WalkOrder

variable {items arranged : List (Location × Entry)}

/-- Every arrangement with the content of a directory first is that of some walk, so that nothing
else is asked of walks. -/
theorem exists_arrange (perm : arranged.Perm items)
    (order : InstallPlan.ContentFirst arranged) : ∃ o : WalkOrder, o.arrange items = arranged := by
  refine ⟨⟨fun l => if l = items then arranged else l, fun l => ?_, fun l order_l => ?_⟩,
    if_pos rfl⟩
  · split
    · next same => rw [same]; exact perm
    · exact .refl _
  · split
    · exact order
    · exact order_l

/-- The walk that comes by one thing first, where nothing else lies below it. -/
def startingWith (item : Location × Entry) : WalkOrder where
  arrange items :=
    if item ∈ items ∧ ∀ other ∈ items.erase item, ¬ item.1 <+: other.1 then
      item :: items.erase item
    else items
  perm items := by
    split
    · next first => exact (List.perm_cons_erase first.1).symm
    · exact .refl _
  contentFirst items order := by
    split
    · next first => exact List.pairwise_cons.mpr ⟨first.2, order.sublist List.erase_sublist⟩
    · exact order

end WalkOrder

end VirtualModules
