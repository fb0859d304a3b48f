import VirtualModules.Generation
import VirtualModules.Proofs.Results

/-!
# What merging reports keeps

A report is what it binds in its three owned tables and which modules it relates
(`Report.ext_answers`). Merging that does not stop at a conflict gives the union of two reports
(`merge?_ok`), and it stops at none if no key is bound to two values (`merge?_exists`). So a
combined report is the union of the reports of its artifacts (`combine_ok`), and reports that
agree pairwise can be combined (`combine_exists`).
-/

namespace VirtualModules

/-- The place of a table in the order of merging. -/
def OwnedTable.rank : OwnedTable → Nat
  | .concreteAliases => 0
  | .querysetAliases => 1
  | .virtualModules => 2

namespace Report

/-! ## What a report answers -/

/-- The table of one kind. -/
def owned (r : Report) : OwnedTable → PathTable
  | .concreteAliases => r.concreteAliases
  | .querysetAliases => r.querysetAliases
  | .virtualModules => r.virtualModules

/-- The report binds a key to a value in a table. -/
def Binds (r : Report) (kind : OwnedTable) (key value : ImportPath) : Prop :=
  (r.owned kind).get? key = some value

/-- The report enters `b` among the modules related to `a`. -/
def Relates (r : Report) (a b : ImportPath) : Prop := b ∈ r.relatedTo a

/-- Nothing is entered in a report without a related module. -/
def Proper (r : Report) : Prop :=
  ∀ a related, r.relatedModules.get? a = some related → ∃ b, b ∈ related

theorem not_binds_empty (kind : OwnedTable) (key value : ImportPath) :
    ¬ (∅ : Report).Binds kind key value := by
  cases kind <;> exact nofun

theorem not_relates_empty (a b : ImportPath) : ¬ (∅ : Report).Relates a b :=
  SortedSet.not_mem_empty b

theorem proper_empty : (∅ : Report).Proper := by
  intro a related found
  cases found

/-- A table binds a key to one value. -/
theorem Binds.unique {r : Report} {kind : OwnedTable} {key v w : ImportPath}
    (hv : r.Binds kind key v) (hw : r.Binds kind key w) : v = w :=
  Option.some.inj (hv.symm.trans hw)

theorem relates_iff {r : Report} {a b : ImportPath} :
    r.Relates a b ↔ ∃ related, r.relatedModules.get? a = some related ∧ b ∈ related := by
  unfold Relates relatedTo
  cases r.relatedModules.get? a with
  | none => simp
  | some related => simp

theorem related_eq_none_iff {r : Report} (proper : r.Proper) {a : ImportPath} :
    r.relatedModules.get? a = none ↔ ∀ b, ¬ r.Relates a b := by
  constructor
  · intro none b related
    obtain ⟨_, found, -⟩ := relates_iff.mp related
    rw [none] at found
    cases found
  · intro nothing
    cases found : r.relatedModules.get? a with
    | none => rfl
    | some related =>
      obtain ⟨b, mem⟩ := proper a related found
      exact absurd (relates_iff.mpr ⟨related, found, mem⟩) (nothing b)

/-- Reports with the same bindings and the same sets of related modules are equal. -/
theorem ext_binds {r s : Report}
    (binds : ∀ kind key value, r.Binds kind key value ↔ s.Binds kind key value)
    (related : ∀ a, r.relatedModules.get? a = s.relatedModules.get? a) : r = s := by
  have tables : ∀ kind, r.owned kind = s.owned kind := fun kind =>
    Table.ext_get? fun key => Option.ext fun value => binds kind key value
  have concrete := tables .concreteAliases
  have querysets := tables .querysetAliases
  have modules := tables .virtualModules
  have relations : r.relatedModules = s.relatedModules := Table.ext_get? related
  simp only [owned] at concrete querysets modules
  cases r
  cases s
  simp_all

/-- Reports that bind and relate the same are equal. -/
theorem ext_answers {r s : Report} (proper_r : r.Proper) (proper_s : s.Proper)
    (binds : ∀ kind key value, r.Binds kind key value ↔ s.Binds kind key value)
    (relates : ∀ a b, r.Relates a b ↔ s.Relates a b) : r = s := by
  refine ext_binds binds fun a => ?_
  cases found_r : r.relatedModules.get? a with
  | none =>
    have nothing := (related_eq_none_iff proper_r).mp found_r
    exact ((related_eq_none_iff proper_s).mpr fun b h => nothing b ((relates a b).mpr h)).symm
  | some related =>
    cases found_s : s.relatedModules.get? a with
    | none =>
      obtain ⟨b, mem⟩ := proper_r a related found_r
      have none_s := (related_eq_none_iff proper_s).mp found_s
      exact absurd ((relates a b).mp (relates_iff.mpr ⟨related, found_r, mem⟩)) (none_s b)
    | some other =>
      have same : related = other := SortedSet.ext_mem fun b => by
        simpa [Relates, relatedTo, found_r, found_s] using relates a b
      rw [same]

end Report

/-! ## Merging one table -/

/-- Entering bindings without a clash adds exactly them. -/
theorem mergeOwned_ok {into t : PathTable} {l : List (ImportPath × ImportPath)}
    (h : mergeOwned into l = (t, none)) (key value : ImportPath) :
    t.get? key = some value ↔ into.get? key = some value ∨ (key, value) ∈ l := by
  induction l generalizing into with
  | nil =>
    cases h
    simp
  | cons first rest ih =>
    obtain ⟨k, incoming⟩ := first
    rw [mergeOwned] at h
    split at h
    · next fresh =>
      rw [ih h]
      by_cases here : key = k
      · subst here
        simp [fresh, eq_comm]
      · simp [Table.get?_insert_ne _ here, here]
    · next existing found =>
      split at h
      · next same =>
        subst same
        rw [ih h]
        by_cases here : key = k
        · subst here
          simp only [found, Option.some.injEq, List.mem_cons, Prod.mk.injEq, true_and]
          grind
        · simp [here]
      · cases h

/-- There is no clash if no key has two values. -/
theorem mergeOwned_exists {into : PathTable} {l : List (ImportPath × ImportPath)}
    (old : ∀ key v w, into.get? key = some v → (key, w) ∈ l → v = w)
    (new : ∀ key v w, (key, v) ∈ l → (key, w) ∈ l → v = w) :
    ∃ t, mergeOwned into l = (t, none) := by
  induction l generalizing into with
  | nil => exact ⟨into, rfl⟩
  | cons first rest ih =>
    obtain ⟨k, incoming⟩ := first
    have new_rest : ∀ key v w, (key, v) ∈ rest → (key, w) ∈ rest → v = w := fun key v w hv hw =>
      new key v w (List.mem_cons_of_mem _ hv) (List.mem_cons_of_mem _ hw)
    rw [mergeOwned]
    split
    · refine ih (fun key v w found mem => ?_) new_rest
      by_cases here : key = k
      · subst here
        rw [Table.get?_insert_self] at found
        cases found
        exact new key incoming w List.mem_cons_self (List.mem_cons_of_mem _ mem)
      · rw [Table.get?_insert_ne _ here] at found
        exact old key v w found (List.mem_cons_of_mem _ mem)
    · next existing found =>
      rw [if_pos (old k existing incoming found List.mem_cons_self)]
      exact ih (fun key v w found mem => old key v w found (List.mem_cons_of_mem _ mem)) new_rest

/-- A clash ends the entering at the first binding that a different value stands in the way of;
those before it were entered. -/
theorem mergeOwned_clash {into t : PathTable} {l : List (ImportPath × ImportPath)} {c : Clash}
    (h : mergeOwned into l = (t, some c)) :
    ∃ before after, l = before ++ (c.key, c.incoming) :: after ∧
      mergeOwned into before = (t, none) ∧ t.get? c.key = some c.existing ∧
      c.existing ≠ c.incoming := by
  induction l generalizing into with
  | nil => cases h
  | cons first rest ih =>
    obtain ⟨k, incoming⟩ := first
    rw [mergeOwned] at h
    split at h
    · next fresh =>
      obtain ⟨before, after, rfl, entered, found, differ⟩ := ih h
      refine ⟨(k, incoming) :: before, after, rfl, ?_, found, differ⟩
      simpa only [mergeOwned, fresh] using entered
    · next existing present =>
      split at h
      · next same =>
        obtain ⟨before, after, rfl, entered, found, differ⟩ := ih h
        refine ⟨(k, incoming) :: before, after, rfl, ?_, found, differ⟩
        simpa only [mergeOwned, present, same, if_true] using entered
      · next differ =>
        cases h
        exact ⟨[], rest, rfl, rfl, present, differ⟩

/-- Merging relations unites the sets of each module. -/
theorem get?_mergeRelated (into incoming : Table ImportPath (SortedSet ImportPath))
    (a : ImportPath) :
    (mergeRelated into incoming.entries).get? a =
      Option.merge (· ∪ ·) (into.get? a) (incoming.get? a) := by
  obtain ⟨l, ascending⟩ := incoming
  change (mergeRelated into l).get? a = Option.merge (· ∪ ·) (into.get? a) (l.lookup a)
  unfold mergeRelated
  induction l generalizing into with
  | nil => simp
  | cons first rest ih =>
    obtain ⟨key, related⟩ := first
    obtain ⟨above, rest_ascending⟩ := List.pairwise_cons.mp ascending
    rw [List.foldl_cons, ih _ rest_ascending]
    by_cases here : a = key
    · subst here
      -- no later entry is one for this module
      have once : rest.lookup a = none := by
        refine Option.eq_none_iff_forall_ne_some.mpr fun later found => ?_
        exact Std.lt_irrefl (above (a, later) ((Table.lookup_eq_some_iff rest_ascending).mp found))
      rw [once, Table.get?_insert_self, List.lookup_cons_self, Option.merge_none_right]
      cases into.get? a with
      | none => simp
      | some before => simp
    · rw [Table.get?_insert_ne _ here, List.lookup_cons, beq_eq_false_iff_ne.mpr here]

/-! ## Merging reports -/

namespace Report

/-- No key is bound to different values by two reports. -/
def Compatible (r s : Report) : Prop :=
  ∀ kind key v w, r.Binds kind key v → s.Binds kind key w → v = w

/-- A merge enters the tables one after the other and the relations behind them, or it stops at a
clash in a table, with those before it entered and all behind it as they were. -/
theorem merge_cases (r incoming : Report) :
    (∃ merged, r.merge incoming = ⟨merged, none⟩ ∧
      (∀ kind,
        mergeOwned (r.owned kind) (incoming.owned kind).entries = (merged.owned kind, none)) ∧
      merged.relatedModules = mergeRelated r.relatedModules incoming.relatedModules.entries) ∨
    ∃ left kind clash, r.merge incoming = ⟨left, some ⟨kind, clash⟩⟩ ∧
      (∀ earlier, earlier.rank < kind.rank →
        mergeOwned (r.owned earlier) (incoming.owned earlier).entries =
          (left.owned earlier, none)) ∧
      mergeOwned (r.owned kind) (incoming.owned kind).entries = (left.owned kind, some clash) ∧
      (∀ later, kind.rank < later.rank → left.owned later = r.owned later) ∧
      left.relatedModules = r.relatedModules := by
  unfold merge
  split
  · next concrete clash h₁ =>
    refine .inr ⟨_, .concreteAliases, clash, rfl, ?_, h₁, ?_, rfl⟩
    · intro earlier before
      cases earlier <;> simp [OwnedTable.rank] at before
    · intro later behind
      cases later <;> simp [OwnedTable.rank] at behind <;> rfl
  next concrete h₁ =>
  split
  · next querysets clash h₂ =>
    refine .inr ⟨_, .querysetAliases, clash, rfl, ?_, h₂, ?_, rfl⟩
    · intro earlier before
      cases earlier <;> simp [OwnedTable.rank] at before
      exact h₁
    · intro later behind
      cases later <;> simp [OwnedTable.rank] at behind
      rfl
  next querysets h₂ =>
  split
  · next modules clash h₃ =>
    refine .inr ⟨_, .virtualModules, clash, rfl, ?_, h₃, ?_, rfl⟩
    · intro earlier before
      cases earlier <;> simp [OwnedTable.rank] at before
      · exact h₁
      · exact h₂
    · intro later behind
      cases later <;> simp [OwnedTable.rank] at behind
  next modules h₃ =>
  refine .inl ⟨_, rfl, fun kind => ?_, rfl⟩
  cases kind with
  | concreteAliases => exact h₁
  | querysetAliases => exact h₂
  | virtualModules => exact h₃

theorem merge?_tables {r incoming merged : Report} (h : r.merge? incoming = .ok merged) :
    (∀ kind, mergeOwned (r.owned kind) (incoming.owned kind).entries = (merged.owned kind, none)) ∧
      merged.relatedModules = mergeRelated r.relatedModules incoming.relatedModules.entries := by
  rw [merge?] at h
  obtain ⟨_, merges, tables, relations⟩ | ⟨_, _, _, stops, -⟩ := merge_cases r incoming
  · rw [merges] at h
    cases h
    exact ⟨tables, relations⟩
  · rw [stops] at h
    cases h

/-- Where the relations of two reports are united, what either relates is related. -/
theorem relates_of_united {r s u : Report}
    (united : u.relatedModules = mergeRelated r.relatedModules s.relatedModules.entries)
    (a b : ImportPath) : u.Relates a b ↔ r.Relates a b ∨ s.Relates a b := by
  unfold Relates relatedTo
  rw [united, get?_mergeRelated]
  cases r.relatedModules.get? a with
  | none => simp
  | some before =>
    cases s.relatedModules.get? a with
    | none => simp
    | some related => simp

theorem proper_of_united {r s u : Report}
    (united : u.relatedModules = mergeRelated r.relatedModules s.relatedModules.entries)
    (proper_r : r.Proper) (proper_s : s.Proper) : u.Proper := by
  intro a all found
  -- what is entered for `a` in one of the reports has a member, and `u` relates it, too
  have nonempty : ∀ b, r.Relates a b ∨ s.Relates a b → ∃ b, b ∈ all := by
    intro b related
    obtain ⟨_, same, mem⟩ := relates_iff.mp ((relates_of_united united a b).mpr related)
    rw [found] at same
    cases same
    exact ⟨b, mem⟩
  cases first : r.relatedModules.get? a with
  | some before =>
    obtain ⟨b, mem⟩ := proper_r a before first
    exact nonempty b (.inl (relates_iff.mpr ⟨before, first, mem⟩))
  | none =>
    rw [united, get?_mergeRelated, first, Option.merge_none_left] at found
    exact proper_s a all found

/-- Merging gives what either report binds and relates. -/
theorem merge?_ok {r incoming merged : Report} (h : r.merge? incoming = .ok merged) :
    (∀ kind key value, merged.Binds kind key value ↔
      r.Binds kind key value ∨ incoming.Binds kind key value) ∧
    (∀ a b, merged.Relates a b ↔ r.Relates a b ∨ incoming.Relates a b) ∧
    (r.Proper → incoming.Proper → merged.Proper) := by
  obtain ⟨tables, relations⟩ := merge?_tables h
  refine ⟨fun kind key value => ?_, relates_of_united relations, proper_of_united relations⟩
  rw [Binds, mergeOwned_ok (tables kind), ← Table.get?_eq_some_iff]
  rfl

theorem merge?_exists {r incoming : Report} (compatible : r.Compatible incoming) :
    ∃ merged, r.merge? incoming = .ok merged := by
  have each : ∀ kind, ∃ t, mergeOwned (r.owned kind) (incoming.owned kind).entries = (t, none) := by
    intro kind
    refine mergeOwned_exists (fun key v w found mem => ?_) fun key v w hv hw => ?_
    · exact compatible kind key v w found (Table.get?_eq_some_iff.mpr mem)
    · exact Binds.unique (Table.get?_eq_some_iff.mpr hv) (Table.get?_eq_some_iff.mpr hw)
  obtain ⟨concrete, h₁⟩ := each .concreteAliases
  obtain ⟨querysets, h₂⟩ := each .querysetAliases
  obtain ⟨modules, h₃⟩ := each .virtualModules
  simp only [owned] at h₁ h₂ h₃
  simp [merge?, merge, h₁, h₂, h₃]

/-! ## Merging many -/

/-- The report binds and relates what one of some reports does. -/
structure UnionOf (reports : List Report) (u : Report) : Prop where
  binds : ∀ kind key value, u.Binds kind key value ↔ ∃ r ∈ reports, r.Binds kind key value
  relates : ∀ a b, u.Relates a b ↔ ∃ r ∈ reports, r.Relates a b
  proper : u.Proper

theorem unionOf_nil : UnionOf [] ∅ where
  binds kind key value := by simp [not_binds_empty]
  relates a b := by simp [not_relates_empty]
  proper := proper_empty

theorem UnionOf.merge {reports : List Report} {u incoming merged : Report}
    (union : UnionOf reports u) (proper : incoming.Proper) (h : u.merge? incoming = .ok merged) :
    UnionOf (reports ++ [incoming]) merged := by
  obtain ⟨binds, relates, keeps⟩ := merge?_ok h
  refine ⟨fun kind key value => ?_, fun a b => ?_, keeps union.proper proper⟩
  · rw [binds, union.binds]
    simp [or_and_right, exists_or]
  · rw [relates, union.relates]
    simp [or_and_right, exists_or]

/-- Merges the reports of some artifacts into a report, one after the other. -/
def mergeAll (r : Report) (artifacts : List Artifact) : Except Conflict Report :=
  artifacts.foldlM (fun r a => r.merge? a.report) r

theorem mergeAll_cons (r : Report) (a : Artifact) (rest : List Artifact) :
    r.mergeAll (a :: rest) = r.merge? a.report >>= (·.mergeAll rest) := List.foldlM_cons

theorem mergeAll_concat (r : Report) (l : List Artifact) (a : Artifact) :
    r.mergeAll (l ++ [a]) = r.mergeAll l >>= (·.merge? a.report) := by
  simp [mergeAll, List.foldlM_append]

theorem mergeAll_ok {artifacts : List Artifact} (proper : ∀ a ∈ artifacts, a.report.Proper)
    {reports : List Report} {u result : Report} (union : UnionOf reports u)
    (h : u.mergeAll artifacts = .ok result) :
    UnionOf (reports ++ artifacts.map (·.report)) result := by
  induction artifacts generalizing reports u with
  | nil =>
    cases h
    simpa using union
  | cons a rest ih =>
    rw [mergeAll_cons, bind_eq_ok_iff] at h
    obtain ⟨merged, step, folded⟩ := h
    have next := union.merge (proper a List.mem_cons_self) step
    simpa using ih (fun b mem => proper b (List.mem_cons_of_mem _ mem)) next folded

theorem mergeAll_exists {artifacts : List Artifact} {reports : List Report} {u : Report}
    (union : UnionOf reports u) (proper : ∀ a ∈ artifacts, a.report.Proper)
    (old : ∀ r ∈ reports, ∀ a ∈ artifacts, r.Compatible a.report)
    (new : ∀ a ∈ artifacts, ∀ b ∈ artifacts, a.report.Compatible b.report) :
    ∃ result, u.mergeAll artifacts = .ok result := by
  induction artifacts generalizing reports u with
  | nil => exact ⟨u, rfl⟩
  | cons a rest ih =>
    have compatible : u.Compatible a.report := by
      intro kind key v w hv hw
      obtain ⟨r, mem, hr⟩ := (union.binds kind key v).mp hv
      exact old r mem a List.mem_cons_self kind key v w hr hw
    obtain ⟨merged, step⟩ := merge?_exists compatible
    obtain ⟨result, folded⟩ := ih (union.merge (proper a List.mem_cons_self) step)
      (fun b mem => proper b (List.mem_cons_of_mem _ mem))
      (fun r mem b hb => by
        rcases List.mem_append.mp mem with mem | mem
        · exact old r mem b (List.mem_cons_of_mem _ hb)
        · rw [List.mem_singleton.mp mem]
          exact new a List.mem_cons_self b (List.mem_cons_of_mem _ hb))
      (fun b hb c hc => new b (List.mem_cons_of_mem _ hb) c (List.mem_cons_of_mem _ hc))
    exact ⟨result, by rw [mergeAll_cons, bind_eq_ok_iff]; exact ⟨merged, step, folded⟩⟩

end Report

/-- Artifacts are combined by merging all of their reports. -/
theorem combine_eq_ok_iff {artifacts : List Artifact} {c : Combined} :
    combine artifacts = .ok c ↔
      (∅ : Report).mergeAll artifacts = .ok c.report ∧ c.version = version artifacts := by
  rw [combine, bind_eq_ok_iff, Report.mergeAll]
  constructor
  · rintro ⟨report, merged, done⟩
    cases done
    exact ⟨merged, rfl⟩
  · rintro ⟨merged, versions⟩
    exact ⟨c.report, merged, by rw [← versions]; rfl⟩

/-- A combined report is the union of the reports of its artifacts. -/
theorem combine_ok {artifacts : List Artifact} {c : Combined}
    (proper : ∀ a ∈ artifacts, a.report.Proper) (h : combine artifacts = .ok c) :
    Report.UnionOf (artifacts.map (·.report)) c.report :=
  Report.mergeAll_ok proper Report.unionOf_nil (combine_eq_ok_iff.mp h).1

theorem version_of_combine {artifacts : List Artifact} {c : Combined}
    (h : combine artifacts = .ok c) : c.version = version artifacts :=
  (combine_eq_ok_iff.mp h).2

/-- Artifacts whose reports agree with each other can be combined. -/
theorem combine_exists {artifacts : List Artifact} (proper : ∀ a ∈ artifacts, a.report.Proper)
    (compatible : ∀ a ∈ artifacts, ∀ b ∈ artifacts, a.report.Compatible b.report) :
    ∃ c, combine artifacts = .ok c := by
  obtain ⟨report, merged⟩ := Report.mergeAll_exists Report.unionOf_nil proper (by simp) compatible
  exact ⟨⟨version artifacts, report⟩, combine_eq_ok_iff.mpr ⟨merged, rfl⟩⟩

end VirtualModules
