import VirtualModules.Proofs.Merging
import VirtualModules.Proofs.SummaryKeys

/-!
# Merging is a union or stops at the first conflict

Merging succeeds exactly for reports that bind no key to two values, and gives their point-wise
union then (`Report.merge?_eq_ok_iff`). A union does not depend on the order and the grouping of
what is united, so merging is commutative, associative and idempotent as far as it succeeds
(`Report.merge?_comm`, `Report.merge?_assoc`, `Report.merge?_self`).

Any other merge stops at the first conflict in the order of tables and keys, and what it leaves is
united before that place and as it was from there on (`Report.StoppedAt`).
-/

namespace VirtualModules

/-! ## Unions -/

namespace Report

/-- The tables of `u` are the point-wise unions of those of `r` and `s`. -/
structure IsUnion (r s u : Report) : Prop where
  binds : ∀ kind key value, u.Binds kind key value ↔ r.Binds kind key value ∨ s.Binds kind key value
  related : ∀ a, u.relatedModules.get? a =
    Option.merge (· ∪ ·) (r.relatedModules.get? a) (s.relatedModules.get? a)

theorem IsUnion.unique {r s u v : Report} (hu : r.IsUnion s u) (hv : r.IsUnion s v) : u = v := by
  refine ext_binds (fun kind key value => ?_) fun a => ?_
  · rw [hu.binds, hv.binds]
  · rw [hu.related, hv.related]

theorem IsUnion.comm {r s u : Report} (h : r.IsUnion s u) : s.IsUnion r u where
  binds kind key value := by rw [h.binds, or_comm]
  related a := (h.related a).trans (Std.Commutative.comm _ _)

theorem IsUnion.assoc {r s t u rs st : Report} (hrs : r.IsUnion s rs) (hst : s.IsUnion t st)
    (h : rs.IsUnion t u) : r.IsUnion st u where
  binds kind key value := by rw [h.binds, hrs.binds, hst.binds, or_assoc]
  related a := by
    rw [h.related, hrs.related, hst.related]
    exact Std.Associative.assoc _ _ _

theorem isUnion_self (r : Report) : r.IsUnion r r where
  binds kind key value := by rw [or_self]
  related a := (Std.IdempotentOp.idempotent _).symm

theorem Compatible.comm {r s : Report} (h : r.Compatible s) : s.Compatible r :=
  fun kind key v w hv hw => (h kind key w v hw hv).symm

theorem compatible_self (r : Report) : r.Compatible r :=
  fun _ _ _ _ hv hw => hv.unique hw

/-- Only compatible reports are merged, and what they give is their union. -/
theorem merge?_eq_ok_iff {r s u : Report} :
    r.merge? s = .ok u ↔ r.Compatible s ∧ r.IsUnion s u := by
  have sound : ∀ {v}, r.merge? s = .ok v → r.IsUnion s v := by
    intro v merged
    obtain ⟨-, relations⟩ := merge?_tables merged
    refine ⟨(merge?_ok merged).1, fun a => ?_⟩
    rw [relations, get?_mergeRelated]
  constructor
  · intro merged
    refine ⟨fun kind key v w hv hw => ?_, sound merged⟩
    have binds := (merge?_ok merged).1 kind key
    exact ((binds v).mpr (.inl hv)).unique ((binds w).mpr (.inr hw))
  · rintro ⟨compatible, union⟩
    obtain ⟨v, merged⟩ := merge?_exists compatible
    rwa [union.unique (sound merged)]

/-! ## Order and grouping -/

theorem merge?_self (r : Report) : r.merge? r = .ok r :=
  merge?_eq_ok_iff.mpr ⟨compatible_self r, isUnion_self r⟩

theorem merge?_comm {r s u : Report} : r.merge? s = .ok u ↔ s.merge? r = .ok u := by
  simp only [merge?_eq_ok_iff]
  exact ⟨fun ⟨compatible, union⟩ => ⟨compatible.comm, union.comm⟩,
    fun ⟨compatible, union⟩ => ⟨compatible.comm, union.comm⟩⟩

theorem merge?_regroup {r s t u rs : Report} (first : r.merge? s = .ok rs)
    (second : rs.merge? t = .ok u) : ∃ st, s.merge? t = .ok st ∧ r.merge? st = .ok u := by
  obtain ⟨compatible_rs, union_rs⟩ := merge?_eq_ok_iff.mp first
  obtain ⟨compatible_t, union_u⟩ := merge?_eq_ok_iff.mp second
  have inner : s.Compatible t := fun kind key v w hv hw =>
    compatible_t kind key v w ((union_rs.binds kind key v).mpr (.inr hv)) hw
  obtain ⟨st, merged⟩ := merge?_exists inner
  obtain ⟨-, union_st⟩ := merge?_eq_ok_iff.mp merged
  refine ⟨st, merged, merge?_eq_ok_iff.mpr ⟨?_, union_rs.assoc union_st union_u⟩⟩
  intro kind key v w hv hw
  rcases (union_st.binds kind key w).mp hw with hw | hw
  · exact compatible_rs kind key v w hv hw
  · exact compatible_t kind key v w ((union_rs.binds kind key v).mpr (.inl hv)) hw

theorem merge?_assoc {r s t u : Report} :
    (r.merge? s >>= (·.merge? t)) = .ok u ↔ (s.merge? t >>= r.merge?) = .ok u := by
  simp only [bind_eq_ok_iff]
  constructor
  · rintro ⟨rs, first, second⟩
    exact merge?_regroup first second
  · rintro ⟨st, first, second⟩
    -- the same from the right, as merging is commutative
    obtain ⟨rs, inner, outer⟩ := merge?_regroup (merge?_comm.mp first) (merge?_comm.mp second)
    exact ⟨rs, merge?_comm.mp inner, merge?_comm.mp outer⟩

/-- Two reports can change places when they are merged into a third one. -/
theorem merge?_swap {u r s v w : Report} (first : u.merge? r = .ok v)
    (second : v.merge? s = .ok w) : ∃ v', u.merge? s = .ok v' ∧ v'.merge? r = .ok w := by
  obtain ⟨rs, inner, outer⟩ := merge?_regroup first second
  exact bind_eq_ok_iff.mp (merge?_assoc.mpr (bind_eq_ok_iff.mpr ⟨rs, merge?_comm.mp inner, outer⟩))

/-- A report that was merged adds nothing when it is merged again. -/
theorem merge?_again {u r v : Report} (merged : u.merge? r = .ok v) : v.merge? r = .ok v := by
  obtain ⟨v', same, again⟩ := bind_eq_ok_iff.mp
    (merge?_assoc.mpr (bind_eq_ok_iff.mpr ⟨r, merge?_self r, merged⟩))
  rw [merged] at same
  cases same
  exact again

/-! ## Conflicts -/

/-- The two reports bind the key of a conflict to its two values. -/
structure Clashes (r s : Report) (c : Conflict) : Prop where
  existing : r.Binds c.table c.clash.key c.clash.existing
  incoming : s.Binds c.table c.clash.key c.clash.incoming
  differ : c.clash.existing ≠ c.clash.incoming

/-- A merge of `s` into `r` stopped at a conflict and left a report: the conflict is the first one
in the order of tables and keys, all that comes before it was entered, and nothing else. -/
structure StoppedAt (r s : Report) (c : Conflict) (left : Report) : Prop where
  clashes : r.Clashes s c
  first_table : ∀ d, r.Clashes s d → c.table.rank ≤ d.table.rank
  least_key : ∀ d, r.Clashes s d → d.table = c.table → ¬ d.clash.key < c.clash.key
  earlier : ∀ kind, kind.rank < c.table.rank → ∀ key value,
    left.Binds kind key value ↔ r.Binds kind key value ∨ s.Binds kind key value
  smaller : ∀ key, key < c.clash.key → ∀ value,
    left.Binds c.table key value ↔ r.Binds c.table key value ∨ s.Binds c.table key value
  remaining : ∀ key, ¬ key < c.clash.key → ∀ value,
    left.Binds c.table key value ↔ r.Binds c.table key value
  later : ∀ kind, c.table.rank < kind.rank → left.owned kind = r.owned kind
  relations : left.relatedModules = r.relatedModules

theorem mem_before_iff {t : PathTable} {before after : List (ImportPath × ImportPath)}
    {k incoming key value : ImportPath} (entries : t.entries = before ++ (k, incoming) :: after) :
    (key, value) ∈ before ↔ key < k ∧ t.get? key = some value := by
  have ascending := t.ascending
  rw [entries, List.pairwise_append, List.pairwise_cons] at ascending
  obtain ⟨-, ⟨above, -⟩, below⟩ := ascending
  rw [Table.get?_eq_some_iff, entries, List.mem_append, List.mem_cons]
  constructor
  · intro mem
    exact ⟨below _ mem _ List.mem_cons_self, .inl mem⟩
  · rintro ⟨less, mem | here | mem⟩
    · exact mem
    · cases here
      exact absurd less Std.lt_irrefl
    · exact absurd (Std.lt_trans less (above _ mem)) Std.lt_irrefl

/-- At a clash a table has got exactly the bindings of smaller keys. -/
theorem mergeOwned_stopped {into incoming t : PathTable} {c : Clash}
    (h : mergeOwned into incoming.entries = (t, some c)) :
    into.get? c.key = some c.existing ∧ incoming.get? c.key = some c.incoming ∧
      c.existing ≠ c.incoming ∧
      ∀ key value, t.get? key = some value ↔
        into.get? key = some value ∨ key < c.key ∧ incoming.get? key = some value := by
  obtain ⟨before, after, entries, entered, found, differ⟩ := mergeOwned_clash h
  have content : ∀ key value, t.get? key = some value ↔
      into.get? key = some value ∨ key < c.key ∧ incoming.get? key = some value := by
    intro key value
    rw [mergeOwned_ok entered, mem_before_iff entries]
  refine ⟨?_, ?_, differ, content⟩
  · exact ((content c.key c.existing).mp found).resolve_right fun h => Std.lt_irrefl h.1
  · rw [Table.get?_eq_some_iff, entries]
    exact List.mem_append_right _ List.mem_cons_self

theorem merge?_eq_error_iff {r s : Report} {c : Conflict} :
    r.merge? s = .error c ↔ (r.merge s).conflict = some c := by
  unfold merge?
  split
  · next merged => simp [merged]
  · next stopped => simp [stopped]

theorem stoppedAt_merge {r s : Report} {c : Conflict} (h : (r.merge s).conflict = some c) :
    r.StoppedAt s c (r.merge s).report := by
  obtain ⟨_, merges, -⟩ | ⟨left, kind, clash, stops, earlier, here, later, relations⟩ :=
    merge_cases r s
  · rw [merges] at h
    cases h
  rw [stops] at h ⊢
  cases h
  obtain ⟨existing, incoming, differ, content⟩ := mergeOwned_stopped here
  have entered : ∀ other, other.rank < kind.rank → ∀ key value, left.Binds other key value ↔
      r.Binds other key value ∨ s.Binds other key value := by
    intro other before key value
    rw [Binds, mergeOwned_ok (earlier other before), ← Table.get?_eq_some_iff]
    rfl
  refine ⟨⟨existing, incoming, differ⟩, fun d clashes => ?_, fun d clashes same less => ?_,
    entered, fun key less value => ?_, fun key notLess value => ?_, later, relations⟩
  · -- an earlier table would bind the key to both values
    refine Nat.le_of_not_lt fun before => clashes.differ ?_
    exact ((entered _ before _ _).mpr (.inl clashes.existing)).unique
      ((entered _ before _ _).mpr (.inr clashes.incoming))
  · -- so would this table, for a smaller key
    obtain ⟨_, key, v, w⟩ := d
    cases same
    have bound_v := (content key v).mpr (.inl clashes.existing)
    have bound_w := (content key w).mpr (.inr ⟨less, clashes.incoming⟩)
    exact clashes.differ (Option.some.inj (bound_v.symm.trans bound_w))
  · exact (content key value).trans (or_congr_right (and_iff_right less))
  · exact (content key value).trans (or_iff_left fun h => notLess h.1)

/-- Merging two reports that bind no key to two values gives their point-wise union, and otherwise
stops at the first conflict in the order of tables and keys, with what comes before it entered and
all else as it was. As far as it succeeds, the order and the grouping of the reports do not matter
and a repeated one adds nothing. -/
theorem merge_union_or_stop (r s : Report) :
    ((∃ u, r.merge? s = .ok u) ↔ r.Compatible s) ∧
    (∀ u, r.merge? s = .ok u → r.IsUnion s u) ∧
    (¬ r.Compatible s →
      ∃ c, r.merge? s = .error c ∧ r.StoppedAt s c (r.merge s).report) ∧
    r.merge? r = .ok r ∧
    (∀ u, r.merge? s = .ok u ↔ s.merge? r = .ok u) ∧
    ∀ t u, (r.merge? s >>= (·.merge? t)) = .ok u ↔ (s.merge? t >>= r.merge?) = .ok u := by
  refine ⟨⟨fun ⟨_, merged⟩ => (merge?_eq_ok_iff.mp merged).1, merge?_exists⟩,
    fun _ merged => (merge?_eq_ok_iff.mp merged).2, fun incompatible => ?_, merge?_self r,
    fun _ => merge?_comm, fun _ _ => merge?_assoc⟩
  cases stopped : r.merge? s with
  | ok u => exact absurd (merge?_eq_ok_iff.mp stopped).1 incompatible
  | error c => exact ⟨c, rfl, stoppedAt_merge (merge?_eq_error_iff.mp stopped)⟩

end Report

namespace Adoption

/-- The first parent has an alias, and the second one a queryset alias. -/
def heldAliases : Report := ⟨.ofList [(first, first)], .ofList [(second, second)], ∅, ∅⟩

/-- The child has an alias, both parents and the child have queryset aliases, and the parents'
module has a virtual module. -/
def claimedAliases : Report :=
  ⟨.ofList [(child, child)], .ofList [(first, child), (second, child), (child, child)],
    .ofList [(parents, childModule)], ∅⟩

theorem heldAliases_conflict : (heldAliases.merge claimedAliases).conflict =
    some ⟨.querysetAliases, second, second, child⟩ := by
  decide

/-- The merge stops at the second parent's queryset alias: the child's alias and the first parent's
queryset alias are entered by then, and the child's queryset alias is not. -/
theorem heldAliases_stopped : ¬ heldAliases.Compatible claimedAliases ∧
    ∃ c, heldAliases.merge? claimedAliases = .error c ∧ c.clash.key = second ∧
      (heldAliases.merge claimedAliases).report.Binds .concreteAliases child child ∧
      (heldAliases.merge claimedAliases).report.Binds .querysetAliases first child ∧
      ¬ (heldAliases.merge claimedAliases).report.Binds .querysetAliases child child := by
  have incompatible : ¬ heldAliases.Compatible claimedAliases := fun compatible =>
    absurd (compatible .querysetAliases second second child rfl rfl) (by decide)
  obtain ⟨-, -, stops, -⟩ := Report.merge_union_or_stop heldAliases claimedAliases
  obtain ⟨c, error, stopped⟩ := stops incompatible
  have conflict := Report.merge?_eq_error_iff.mp error
  rw [heldAliases_conflict] at conflict
  cases conflict
  refine ⟨incompatible, _, error, rfl, ?_, ?_, ?_⟩
  · exact (stopped.earlier .concreteAliases (by decide) child child).mpr (.inr rfl)
  · exact (stopped.smaller first (by decide) child).mpr (.inr rfl)
  · exact fun bound => nomatch (stopped.remaining child (by decide) child).mp bound

end Adoption

end VirtualModules
