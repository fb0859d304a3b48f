import VirtualModules.Proofs.AtRest
import VirtualModules.Proofs.Healing
import VirtualModules.Proofs.SweepOrders
import VirtualModules.Proofs.Twins

/-!
# Passes that were cut short

An install can be cut short after any number of artifacts, or after all of them and any number of
things in the namespace, in whatever order a walk came by them (`Progress`). The pass leaves its
scratch directory behind then (`Generator.cutShort`). The same pass made once more clears that
directory, finds what was placed up to date, and places and sweeps the rest: it goes through if the
first one would have, and both end with the same tree (`runPass_of_cutShort`). Otherwise both stop
with the same error (`EndsAsFrom`). Every pass that goes through can be cut short anywhere
(`cutShort_exists`).
-/

namespace VirtualModules

open FileTree

/-! ## Cutting an install short -/

/-- How far an install got: the first few artifacts were gone through, or all of them and the first
few things that a walk of the namespace came by. -/
inductive Progress where
  | placed (n : Nat)
  | swept (order : WalkOrder) (n : Nat)

/-- It was not cut short in a walk that came by the namespace in another order than it is listed. -/
def Progress.AsListed : Progress → Prop
  | .placed _ => True
  | .swept order _ => ∀ items, order.arrange items = items

namespace InstallPlan

/-- An install that stops on its way. -/
def installUpTo (p : InstallPlan) (summaries : Table Location (Option String))
    (nspace : ImportPath) : Progress → DiskAction DiskError Unit
  | .placed n => do
    let _ ← p.placeAll (summaries.entries.take n)
    return
  | .swept order n => do
    let _ ← p.placeAll summaries.entries
    let walk := order.arrange (sweepList (← get) (p.sweepRoot nspace))
    let _ ← p.sweepAll (p.keptFiles summaries) (p.sweepRoot nspace) (walk.take n)
    return

end InstallPlan

/-- A pass whose install stops on its way, with the scratch directory left behind. -/
def Generator.cutShort (g : Generator) (s : Snapshot) (destination : Location)
    (resolver : Resolver) (progress : Progress) : DiskAction DiskError Unit := do
  DiskAction.makeDirectories destination
  sweepScratch destination (namesIn (← get) destination)
  let scratch := freshScratchName (namesIn (← get) destination)
  let staging ← stageIn g.settings (g.artifacts s) destination (destination ++ [scratch])
  (passPlan g.settings destination scratch resolver).installUpTo staging.summaries
    g.settings.nspace progress

namespace InstallPlan

variable {p : InstallPlan} {d : Location} {scratch : String} {nspace : ImportPath}
  {known : ImportPath → Bool} {t u v : FileTree} {summaries : Table Location (Option String)}
  {progress : Progress}

/-- Placing some artifacts and then some more. -/
theorem placeAll_append (items₁ items₂ : List (Location × Option String)) :
    p.placeAll (items₁ ++ items₂) = (do
      let first ← p.placeAll items₁
      let second ← p.placeAll items₂
      return (first.1 ++ second.1, first.2 ++ second.2)) := by
  induction items₁ with
  | nil => simp [placeAll]
  | cons e rest ih =>
    obtain ⟨file, summary⟩ := e
    simp only [List.cons_append, placeAll, ih, bind_assoc, pure_bind]
    refine bind_congr fun placed => bind_congr fun first => bind_congr fun second => ?_
    cases placed <;> rfl

/-- An install places its artifacts in two parts. -/
theorem install_eq_parts (p : InstallPlan) (summaries : Table Location (Option String))
    (nspace : ImportPath) (n : Nat) :
    p.install summaries nspace = (do
      let first ← p.placeAll (summaries.entries.take n)
      let second ← p.placeAll (summaries.entries.drop n)
      let removed ← p.sweepAll (p.keptFiles summaries) (p.sweepRoot nspace)
        (sweepList (← get) (p.sweepRoot nspace))
      return ⟨first.1 ++ second.1, first.2 ++ second.2, removed.mergeSort fun a b => a ≤ b⟩) := by
  have parts : p.placeAll summaries.entries = _ :=
    List.take_append_drop n summaries.entries ▸ placeAll_append _ _
  rw [install_eq, parts]
  simp only [bind_assoc, pure_bind]

/-- What an install that was cut short left. -/
inductive CutAt (p : InstallPlan) (d : Location) (scratch : String) (nspace : ImportPath)
    (summaries : Table Location (Option String)) (t v : FileTree) : Progress → Prop
  | placed {n : Nat} {r : List Location × List Location} :
      p.placeAll (summaries.entries.take n) t = .ok r v →
      p.Placed d scratch nspace t v (summaries.entries.take n) r.1 →
      CutAt p d scratch nspace summaries t v (.placed n)
  | swept {order : WalkOrder} {n : Nat} {r : List Location × List Location} {t₃ : FileTree}
      {removed : List Location} :
      p.placeAll summaries.entries t = .ok r t₃ →
      p.Placed d scratch nspace t t₃ summaries.entries r.1 →
      p.sweepAll (p.keptFiles summaries) (p.sweepRoot nspace)
        ((order.arrange (sweepList t₃ (p.sweepRoot nspace))).take n) t₃ = .ok removed v →
      p.Swept d nspace (p.keptFiles summaries)
        ((order.arrange (sweepList t₃ (p.sweepRoot nspace))).take n) t₃ v →
      CutAt p d scratch nspace summaries t v (.swept order n)

/-- The first few things that a walk comes by are different things of the namespace. -/
theorem walk_take (root : t.Root p.destination d) (order : WalkOrder) (n : Nat) :
    (order.arrange (sweepList t (p.sweepRoot nspace))).take n ⊆
        sweepList t (p.sweepRoot nspace) ∧
      (((order.arrange (sweepList t (p.sweepRoot nspace))).take n).map (·.1)).Nodup := by
  have walk := order.contentFirst _ (contentFirst_sweepList root nspace)
  refine ⟨fun item mem => (order.perm _).mem_iff.mp (List.mem_of_mem_take mem), ?_⟩
  exact ContentFirst.nodup (walk.sublist (List.take_sublist n _))

theorem Ready.cutAt (ready : p.Ready d scratch nspace t summaries.entries)
    (cut : p.installUpTo summaries nspace progress t = .ok () v) :
    p.CutAt d scratch nspace summaries t v progress := by
  cases progress with
  | placed n =>
    obtain ⟨r, v', placed_ok, ended⟩ := DiskAction.of_bind_eq_ok cut
    cases ended
    rcases (ready.sublist (List.take_sublist n _)).placeAll_ends with
      ⟨r', v', placed_ok', placed⟩ | ⟨-, e, v', stopped⟩
    · cases placed_ok.symm.trans placed_ok'
      exact .placed placed_ok placed
    · cases placed_ok.symm.trans stopped
  | swept order n =>
    obtain ⟨r, t₃, placed_ok, cut⟩ := DiskAction.of_bind_eq_ok cut
    rw [DiskAction.get_bind] at cut
    obtain ⟨removed, v', swept_ok, ended⟩ := DiskAction.of_bind_eq_ok cut
    cases ended
    rcases ready.placeAll_ends with ⟨r', t₃', placed_ok', placed⟩ | ⟨-, e, t₃', stopped⟩
    · cases placed_ok.symm.trans placed_ok'
      obtain ⟨part, distinct⟩ := walk_take placed.free.toRoot order n
      obtain ⟨swept, -⟩ := swept_of_ok placed.free.toRoot
        (fun item mem => listed_of_mem_sweepList placed.free (part mem)) distinct swept_ok
      exact .swept placed_ok placed swept_ok swept
    · cases placed_ok.symm.trans stopped

/-- An install that goes through can be cut short anywhere. -/
theorem Stages.installUpTo_ok {outcome : Outcome} {t₃ t₄ : FileTree}
    (stages : p.Stages d scratch nspace summaries outcome t t₃ t₄) (progress : Progress) :
    ∃ v, p.installUpTo summaries nspace progress t = .ok () v := by
  cases progress with
  | placed n =>
    have place := stages.place
    rw [← List.take_append_drop n summaries.entries, placeAll_append] at place
    obtain ⟨first, v, placed, -⟩ := DiskAction.of_bind_eq_ok place
    exact ⟨v, DiskAction.bind_of_ok placed⟩
  | swept order n =>
    have free₃ := stages.placed.free
    obtain ⟨part, distinct⟩ := walk_take free₃.toRoot order n
    rcases sweepAll_ends (p.keptFiles summaries) free₃.toRoot
        (fun item mem => listed_of_mem_sweepList free₃ (part mem)) distinct with
      ⟨removed, v, swept, -⟩ | ⟨long, v, first, -⟩
    · refine ⟨v, ?_⟩
      simp only [installUpTo]
      rw [DiskAction.bind_of_ok stages.place, DiskAction.get_bind]
      exact DiskAction.bind_of_ok swept
    · obtain ⟨mem, outside⟩ := of_firstLong first
      exact absurd (stages.within long (part mem)) outside

/-- Cut short after everything, it leaves what it leaves when it goes through, in whatever order it
came by the namespace. -/
theorem Stages.installUpTo_all {outcome : Outcome} {t₃ t₄ : FileTree} {n : Nat}
    (stages : p.Stages d scratch nspace summaries outcome t t₃ t₄)
    (by_name : p.resolver = .ofNames known) (order : WalkOrder)
    (all : (sweepList t₃ (p.sweepRoot nspace)).length ≤ n) :
    p.installUpTo summaries nspace (.swept order n) t = .ok () t₄ := by
  have free₃ := stages.placed.free
  obtain ⟨removed, sweep⟩ := stages.sweep
  obtain ⟨removed', sweep', -⟩ := (sweepAll_arranged by_name free₃ (order.perm _)
    (order.contentFirst _ (contentFirst_sweepList free₃.toRoot nspace))).mpr ⟨removed, sweep, rfl⟩
  simp only [installUpTo]
  rw [DiskAction.bind_of_ok stages.place, DiskAction.get_bind,
    List.take_of_length_le ((order.perm _).length_eq.trans_le all)]
  exact DiskAction.bind_of_ok sweep'

section CutAt

variable (cut : p.CutAt d scratch nspace summaries t v progress)

include cut

theorem CutAt.linkFree : v.LinkFree p.destination d := by
  cases cut with
  | placed _ placed => exact placed.free
  | swept _ placed _ swept => exact swept.linkFree placed.free

theorem CutAt.directory (dot : '.' ∈ scratch.toList) :
    v.entries.get? (d ++ [scratch]) = some .directory := by
  cases cut with
  | placed _ placed => exact placed.directory
  | swept _ placed _ swept => rw [swept.scratch_kept dot, placed.directory]

theorem CutAt.other_scratch
    (direct : ∀ e ∈ summaries.entries, ∃ file, e.1 = nspace.segments ++ [file] ∧ Plain e.1)
    {name : String} (dot : '.' ∈ name.toList) (other : name ≠ scratch) :
    v.entries.get? (d ++ [name]) = t.entries.get? (d ++ [name]) := by
  cases cut with
  | placed _ placed =>
    exact placed.other_scratch (fun e mem => direct e (List.mem_of_mem_take mem)) dot other
  | swept _ placed _ swept =>
    rw [swept.scratch_kept dot, placed.other_scratch direct dot other]

end CutAt

/-! ## Going on where an install was cut short -/

/-- A place in the namespace whose names are too long. -/
def OutOfReach (destination : Location) (nspace : ImportPath) (e : DiskError) : Prop :=
  ∃ names, e = ⟨destination ++ (nspace.segments ++ names)⟩ ∧
    ¬ Short destination (nspace.segments ++ names)

section Alike

variable (by_name : p.resolver = .ofNames known)
  (ready : p.Ready d scratch nspace t summaries.entries)
  (rereads : ∀ e ∈ summaries.entries, p.Rereads d scratch known t e)
  (ready_u : p.Ready d scratch nspace u summaries.entries)
  (staged : ∀ e ∈ summaries.entries,
    u.entries.get? (d ++ scratch :: e.1) = t.entries.get? (d ++ scratch :: e.1))
  (twins : Twins p.destination d scratch v u)

include ready ready_u staged twins in
/-- Where some artifacts were placed, the others are still to be placed. -/
theorem readyTwins_drop {n : Nat} {installed : List Location}
    (placed : p.Placed d scratch nspace t v (summaries.entries.take n) installed) :
    p.ReadyTwins d scratch nspace (summaries.entries.drop n) v u := by
  have ready_first := ready.sublist (List.take_sublist n _)
  have ready_rest := ready.sublist (List.drop_sublist n _)
  have rest_staged : ∀ e ∈ summaries.entries.drop n,
      v.entries.get? (d ++ scratch :: e.1) = t.entries.get? (d ++ scratch :: e.1) := by
    intro e mem
    refine placed.staged_kept ready_first (ready_rest.placeable e mem) fun e' mem' same => ?_
    have distinct := ready.distinct
    rw [← List.take_append_drop n summaries.entries, List.map_append] at distinct
    exact (List.nodup_append.mp distinct).2.2 _ (List.mem_map_of_mem mem') _
      (List.mem_map_of_mem mem) same
  exact
    { twins with
      ready := { ready_rest with
        free := placed.free
        directory := placed.directory
        placeable := fun e mem =>
          have here := ready_rest.placeable e mem
          ⟨here.direct, here.plain, here.short, by rw [rest_staged e mem]; exact here.staged⟩ }
      ready_right := ready_u.sublist (List.drop_sublist n _)
      staged := fun e mem => by rw [rest_staged e mem, staged e (List.mem_of_mem_drop mem)] }

include by_name ready rereads twins

include ready_u staged in
/-- The artifacts that were placed are up to date now, and the others are placed as they would have
been. -/
theorem install_alike_placed {n : Nat} {r : List Location × List Location}
    (placed_ok : p.placeAll (summaries.entries.take n) t = .ok r v)
    (placed : p.Placed d scratch nspace t v (summaries.entries.take n) r.1) :
    Alike (fun _ _ => True) (Twins p.destination d scratch)
      (fun _ => Twins p.destination d scratch) (p.install summaries nspace t)
      (p.install summaries nspace u) := by
  have ready_first := ready.sublist (List.take_sublist n _)
  have current : ∀ e ∈ summaries.entries.take n,
      p.upToDate u (p.destination ++ e.1) e.2 = true :=
    placed.upToDate_kept by_name ready_first (fun e mem => rereads e (List.mem_of_mem_take mem))
      twins.free_right.toRoot fun e mem =>
        (twins.get?_append ((ready_first.placeable e mem).beside ready.dot)).symm
  rw [install_eq_parts p summaries nspace n, DiskAction.bind_of_ok placed_ok,
    DiskAction.bind_of_ok (placeAll_of_upToDate current)]
  refine ((readyTwins_drop ready ready_u staged twins placed).placeAll_alike by_name).bind ?_
    fun _ _ _ => id
  rintro second _ v' u' rfl twins'
  rw [DiskAction.get_bind, DiskAction.get_bind]
  refine (sweep_alike by_name ready.dot twins').bind ?_ fun _ _ _ => id
  rintro removed _ v'' u'' rfl twins''
  exact .ok trivial twins''

section Sweep

variable {items : List (Location × Entry)} {r : List Location × List Location} {t₃ : FileTree}
  {removed : List Location}
  (placed_ok : p.placeAll summaries.entries t = .ok r t₃)
  (placed : p.Placed d scratch nspace t t₃ summaries.entries r.1)
  (part : items ⊆ sweepList t₃ (p.sweepRoot nspace)) (distinct : (items.map (·.1)).Nodup)
  (swept_ok : p.sweepAll (p.keptFiles summaries) (p.sweepRoot nspace) items t₃ = .ok removed v)

include placed part distinct swept_ok

omit rereads in
/-- Where a part was swept, the namespace is swept to the same end. -/
theorem sweep_alike_resumed : Alike (fun _ _ => True) (Twins p.destination d scratch)
    (fun e t' u' => OutOfReach p.destination nspace e ∧
      (items <+: sweepList t₃ (p.sweepRoot nspace) → Twins p.destination d scratch t' u'))
    (p.sweepAll (p.keptFiles summaries) (p.sweepRoot nspace)
      (sweepList t₃ (p.sweepRoot nspace)) t₃)
    (p.sweepAll (p.keptFiles summaries) (p.sweepRoot nspace)
      (sweepList u (p.sweepRoot nspace)) u) := by
  have twin : Alike (· = ·) (Twins p.destination d scratch)
      (fun _ => Twins p.destination d scratch)
      (p.sweepAll (p.keptFiles summaries) (p.sweepRoot nspace) _ v) _ :=
    sweep_alike by_name ready.dot twins
  rcases sweep_resumed by_name placed.free part distinct swept_ok with
    ⟨removed₁, removed₂, t', all, all_v⟩ | ⟨long, t', v', outside, all, all_v, same⟩
  · rw [all_v] at twin
    rw [all]
    generalize p.sweepAll _ _ _ u = ended at twin ⊢
    cases twin with
    | ok _ twins' => exact .ok trivial twins'
  · rw [all_v] at twin
    rw [all]
    generalize p.sweepAll _ _ _ u = ended at twin ⊢
    cases twin with
    | error twins' =>
      refine .error ⟨⟨long.1, rfl, fun short => outside (.inr short)⟩, fun begins => ?_⟩
      rw [same begins]
      exact twins'

include placed_ok in
/-- All artifacts are up to date now, and the namespace is swept to the same end. -/
theorem install_alike_swept
    (swept : p.Swept d nspace (p.keptFiles summaries) items t₃ v) :
    Alike (fun _ _ => True) (Twins p.destination d scratch)
      (fun e t' u' => OutOfReach p.destination nspace e ∧
        (items <+: sweepList t₃ (p.sweepRoot nspace) → Twins p.destination d scratch t' u'))
      (p.install summaries nspace t) (p.install summaries nspace u) := by
  have current : ∀ e ∈ summaries.entries, p.upToDate u (p.destination ++ e.1) e.2 = true :=
    placed.upToDate_kept by_name ready rereads twins.free_right.toRoot fun e mem =>
      (twins.get?_append ((ready.placeable e mem).beside ready.dot)).symm.trans
        (swept.kept_file mem)
  rw [install_eq, DiskAction.bind_of_ok placed_ok,
    DiskAction.bind_of_ok (placeAll_of_upToDate current), DiskAction.get_bind, DiskAction.get_bind]
  refine (sweep_alike_resumed by_name ready twins placed part distinct swept_ok).bind ?_
    fun _ _ _ => id
  rintro _ _ v' u' - twins'
  exact .ok trivial twins'

end Sweep

include ready_u staged in
theorem CutAt.install_alike (cut : p.CutAt d scratch nspace summaries t v progress) :
    Alike (fun _ _ => True) (Twins p.destination d scratch)
      (fun e t' u' => Twins p.destination d scratch t' u' ∨
        (¬ progress.AsListed ∧ OutOfReach p.destination nspace e))
      (p.install summaries nspace t) (p.install summaries nspace u) := by
  cases cut with
  | placed placed_ok placed =>
    exact (install_alike_placed by_name ready rereads ready_u staged twins placed_ok placed).imp
      fun _ _ _ => .inl
  | @swept order n r t₃ removed placed_ok placed swept_ok swept =>
    obtain ⟨part, distinct⟩ := walk_take placed.free.toRoot order n
    refine (install_alike_swept by_name ready rereads twins placed_ok placed part distinct swept_ok
      swept).imp ?_
    rintro e t' u' ⟨out, resumed⟩
    by_cases as_listed : (Progress.swept order n).AsListed
    · exact .inl (resumed (as_listed _ ▸ List.take_prefix n _))
    · exact .inr ⟨as_listed, out⟩

end Alike

end InstallPlan

/-! ## The same pass made once more -/

section Pass

variable {g : Generator} {s : Snapshot} {resolver : Resolver} {progress : Progress}
  {destination d : Location} {scratch : String} {staging : Staging} {t t₀ t₂ u v : FileTree}

/-- The stages of a pass that was cut short, and how it would have gone on. -/
structure CutStages (g : Generator) (s : Snapshot) (destination d : Location)
    (resolver : Resolver) (progress : Progress) (scratch : String) (staging : Staging)
    (t t₀ t₂ v : FileTree) : Prop where
  cleared : Cleared destination d (t.children d) t t₀
  scratch_eq : scratch = freshScratchName (t₀.children d)
  short : Short destination [scratch]
  staged : Staged t₀ destination d scratch g.settings.extension g.settings.nspace (g.artifacts s)
    staging t₂
  cut : (passPlan g.settings destination scratch resolver).CutAt d scratch g.settings.nspace
    staging.summaries t₂ v progress
  goes_on : g.installPass s destination resolver t =
    ((passPlan g.settings destination scratch resolver).install staging.summaries
      g.settings.nspace).always (fun t => (t.removeTree? (destination ++ [scratch])).getD t) t₂

theorem stages_of_cutShort (free : t.LinkFree destination d)
    (cut : g.cutShort s destination resolver progress t = .ok () v) :
    ∃ scratch staging t₀ t₂,
      CutStages g s destination d resolver progress scratch staging t t₀ t₂ v := by
  obtain ⟨t₀, cleared, clear_ok, installs⟩ := installPass_eq g s resolver free.toRoot
  have free₀ := cleared.linkFree free
  have is_scratch := isScratchName_fresh (t₀.children d)
  have lie : ∀ a ∈ g.artifacts s, a.LiesIn g.settings.nspace := fun a => liesIn_of_mem_artifacts
  simp only [Generator.cutShort] at cut
  rw [DiskAction.bind_of_ok (makeDirectories_self free.toRoot), DiskAction.get_bind,
    DiskAction.bind_of_ok clear_ok, DiskAction.get_bind, namesIn_root free₀.toRoot] at cut
  generalize fresh : freshScratchName (t₀.children d) = scratch at is_scratch cut
  have absent := absent_of_fresh fresh.symm
  obtain ⟨staging, t₂, stage_ok, cut⟩ := DiskAction.of_bind_eq_ok cut
  obtain ⟨short, staged⟩ := of_stageIn_ok is_scratch free₀.toRoot absent lie stage_ok
  rcases installArtifacts_staged is_scratch free₀.toRoot absent lie resolver fresh.symm with
    ⟨staging', t₂', stage_ok', -, -, staged_eq⟩ | ⟨long, -⟩
  · cases stage_ok.symm.trans stage_ok'
    exact ⟨scratch, staging, t₀, t₂, cleared, fresh.symm, short, staged,
      (staged.ready free₀ is_scratch resolver).cutAt cut, installs.trans staged_eq⟩
  · exact absurd ⟨short, staged.short⟩ long

section CutStages

variable (stages : CutStages g s destination d resolver progress scratch staging t t₀ t₂ v)

include stages

theorem CutStages.is_scratch : isScratchName scratch = true :=
  stages.scratch_eq ▸ isScratchName_fresh (t₀.children d)

/-- The scratch directories of others are as they were. -/
theorem CutStages.other_scratch {name : String} (scratch_name : isScratchName name = true)
    (other : name ≠ scratch) :
    v.entries.get? (d ++ [name]) = t₀.entries.get? (d ++ [name]) := by
  rw [stages.cut.other_scratch stages.staged.direct (dot_mem_of_isScratchName scratch_name) other]
  exact stages.staged.get?_beside (by simpa using Ne.symm other)

/-- The only litter is the scratch directory that was left behind. -/
theorem CutStages.litter_iff {name : String} :
    Litter v destination d name ↔ name = scratch := by
  constructor
  · rintro ⟨scratch_name, short, found⟩
    by_contra other
    rw [stages.other_scratch scratch_name other] at found
    exact stages.cleared.clear name ⟨scratch_name, short, found⟩
  · rintro rfl
    exact ⟨stages.is_scratch, stages.short,
      stages.cut.directory (dot_mem_of_isScratchName stages.is_scratch)⟩

/-- Clearing removes it, and so the next scratch directory gets its name. -/
theorem CutStages.fresh_again {u₀ : FileTree}
    (cleared : Cleared destination d (v.children d) v u₀) :
    (∀ l, ¬ d ++ [scratch] <+: l → u₀.entries.get? l = v.entries.get? l) ∧
      scratch = freshScratchName (u₀.children d) := by
  have outside : ∀ l, ¬ d ++ [scratch] <+: l → u₀.entries.get? l = v.entries.get? l := by
    intro l off
    refine cleared.others l fun name _ litter => ?_
    rwa [stages.litter_iff.mp litter]
  refine ⟨outside, ?_⟩
  rw [stages.scratch_eq]
  refine freshScratchName_congr fun name scratch_name => ?_
  rw [mem_children_iff, mem_children_iff]
  by_cases own : name = scratch
  · subst own
    have litter := stages.litter_iff.mpr rfl
    rw [cleared.gone name (mem_children_of_litter litter) litter _ (List.prefix_refl _),
      absent_of_fresh stages.scratch_eq]
  · rw [outside _ (by simpa [prefix_singleton_iff] using Ne.symm own),
      stages.other_scratch scratch_name own]

end CutStages

/-- The install of the second pass ends as that of the first one would have. -/
theorem CutStages.installPass_alike
    (stages : CutStages g s destination d (.ofNames s.knows) progress scratch staging t t₀ t₂ v)
    (free : t.LinkFree destination d) (simple : g.settings.SimpleExtension)
    (within : g.policy.WithinLine) (built : s.Built) :
    Alike (fun _ _ => True) (· = ·)
      (fun e t' u' => t' = u' ∨
        (¬ progress.AsListed ∧ InstallPlan.OutOfReach destination g.settings.nspace e))
      (g.installPass s destination (.ofNames s.knows) t)
      (g.installPass s destination (.ofNames s.knows) v) := by
  have is_scratch := stages.is_scratch
  have dot := dot_mem_of_isScratchName is_scratch
  have free₀ := stages.cleared.linkFree free
  have free_v : v.LinkFree destination d := stages.cut.linkFree
  obtain ⟨u₀, cleared, -, installs⟩ := installPass_eq g s (.ofNames s.knows) free_v.toRoot
  have free_u₀ := cleared.linkFree free_v
  obtain ⟨outside, fresh⟩ := stages.fresh_again cleared
  have lie : ∀ a ∈ g.artifacts s, a.LiesIn g.settings.nspace := fun a => liesIn_of_mem_artifacts
  rcases installArtifacts_staged is_scratch free_u₀.toRoot (absent_of_fresh fresh) lie
      (.ofNames s.knows) fresh with ⟨staging', u₂, -, -, staged', staged_eq⟩ | ⟨long, -⟩
  · have same := stages.staged.summaries_eq staged'
    have ready' := staged'.ready free_u₀ is_scratch (.ofNames s.knows)
    rw [← same] at ready'
    have staged_same : ∀ e ∈ staging.summaries.entries,
        u₂.entries.get? (d ++ scratch :: e.1) = t₂.entries.get? (d ++ scratch :: e.1) := by
      intro e mem
      obtain ⟨name, direct, -⟩ := stages.staged.direct e mem
      rw [staged'.content e.1 (by simp [direct]), stages.staged.content e.1 (by simp [direct])]
    have twins : Twins destination d scratch v u₂ :=
      { free := free_v
        free_right := staged'.linkFree is_scratch free_u₀
        directory := stages.cut.directory dot
        directory_right := staged'.directory
        beside := fun l off => by rw [staged'.outside l off, outside l off] }
    have alike := stages.cut.install_alike rfl
      (stages.staged.ready free₀ is_scratch _) (stages.staged.rereads simple within built _)
      ready' staged_same twins
    rw [stages.goes_on, installs, staged_eq, ← same]
    exact alike.always (fun t' u' twins' => twins'.removed is_scratch stages.short)
      fun e t' u' => .imp_left fun twins' => twins'.removed is_scratch stages.short
  · exact absurd ⟨stages.short, stages.staged.short⟩ long

/-- Passes that have installed alike end alike. -/
theorem runPass_alike {Apart : DiskError → Prop}
    (alike : Alike (fun _ _ => True) (· = ·) (fun e t' u' => t' = u' ∨ Apart e)
      (g.installPass s destination resolver t) (g.installPass s destination resolver u)) :
    Alike (fun o o' => o.combined = o'.combined ∧ o.failures = o'.failures) (· = ·)
      (fun e t' u' => t' = u' ∨ ∃ disk, e = .disk disk ∧ Apart disk)
      (g.runPass s destination resolver t) (g.runPass s destination resolver u) := by
  rw [runPass_eq]
  refine (alike.mapError fun e t' u' => .imp_right fun apart => ⟨e, rfl, apart⟩).bind ?_
    fun _ _ _ => id
  rintro install install' t' _ - rfl
  cases combine (g.artifacts s) with
  | error conflict => exact .error (.inl rfl)
  | ok combined =>
    refine (Alike.refl (A := fun _ _ => True) (R := (· = ·)) (fun _ => trivial) (fun _ => rfl)
      (fun _ _ => .inl rfl) _).bind ?_ fun _ _ _ => id
    rintro ⟨⟩ ⟨⟩ t'' _ - rfl
    exact .ok ⟨rfl, rfl⟩ rfl

theorem cutShort_made (root : (t.makeDirectories destination).Root destination d) :
    g.cutShort s destination resolver progress t =
      g.cutShort s destination resolver progress (t.makeDirectories destination) := by
  unfold Generator.cutShort
  rw [DiskAction.bind_of_ok (makeDirectories_of_root root),
    DiskAction.bind_of_ok (makeDirectories_self root)]

/-- A pass that goes through can be cut short anywhere. -/
theorem cutShort_exists {outcome : PassOutcome} {t' : FileTree}
    (free : (t.makeDirectories destination).LinkFree destination d)
    (ended : g.runPass s destination resolver t = .ok outcome t') (progress : Progress) :
    ∃ u, g.cutShort s destination resolver progress t = .ok () u := by
  rw [runPass_made g s _ free.toRoot] at ended
  rw [cutShort_made free.toRoot]
  obtain ⟨scratch, staging, t₀, t₂, t₃, t₄, stages⟩ := stages_of_runPass free ended
  obtain ⟨u, cut⟩ := stages.install.installUpTo_ok progress
  refine ⟨u, ?_⟩
  have root₀ := (stages.cleared.linkFree free).toRoot
  unfold Generator.cutShort
  rw [DiskAction.bind_of_ok (makeDirectories_self free.toRoot), DiskAction.get_bind,
    DiskAction.bind_of_ok stages.clear_ok, DiskAction.get_bind, namesIn_root root₀,
    ← stages.scratch_eq]
  exact (DiskAction.bind_of_ok stages.stage_ok).trans cut

/-- A pass from the second tree goes through if it does so from the first one, with the same tree
and the same combined report. Otherwise both stop with the same error, and with the same tree as
well. Only where the walk that was cut short came by the namespace in another order than it is
listed, and the error is at something in it whose names are too long to remove it, it is up to the
orders how much else was removed until then. -/
def EndsAsFrom (g : Generator) (s : Snapshot) (destination : Location) (progress : Progress)
    (t u : FileTree) : Prop :=
  (∃ outcome again t',
      g.runPass s destination (passResolver g.settings.extension s []) t = .ok outcome t' ∧
      g.runPass s destination (passResolver g.settings.extension s []) u = .ok again t' ∧
      again.combined = outcome.combined) ∨
    ∃ e t' u',
      g.runPass s destination (passResolver g.settings.extension s []) t = .error e t' ∧
      g.runPass s destination (passResolver g.settings.extension s []) u = .error e u' ∧
      (u' = t' ∨ ¬ progress.AsListed ∧
        ∃ names, e = .disk ⟨destination ++ (g.settings.nspace.segments ++ names)⟩ ∧
          ¬ Short destination (g.settings.nspace.segments ++ names))

/-- Wherever a pass was cut short, the same pass made once more ends as the first one would have. -/
theorem runPass_of_cutShort (free : (t.makeDirectories destination).LinkFree destination d)
    (simple : g.settings.SimpleExtension) (within : g.policy.WithinLine) (built : s.Built)
    (cut : g.cutShort s destination (passResolver g.settings.extension s []) progress t =
      .ok () u) : EndsAsFrom g s destination progress t u := by
  rw [cutShort_made free.toRoot, passResolver_nil] at cut
  rw [EndsAsFrom, runPass_made g s _ free.toRoot, passResolver_nil]
  obtain ⟨scratch, staging, t₀, t₂, stages⟩ := stages_of_cutShort free cut
  have alike := runPass_alike (stages.installPass_alike free simple within built)
  generalize ended : g.runPass s destination (.ofNames s.knows) (t.makeDirectories destination) = r
    at alike
  generalize ended' : g.runPass s destination (.ofNames s.knows) u = r' at alike
  cases alike with
  | ok answers trees =>
    subst trees
    exact .inl ⟨_, _, _, rfl, rfl, answers.1.symm⟩
  | error related =>
    refine .inr ⟨_, _, _, rfl, rfl, ?_⟩
    rcases related with same | ⟨disk, rfl, other_order, names, rfl, long⟩
    · exact .inl same.symm
    · exact .inr ⟨other_order, names, rfl, long⟩

end Pass

namespace Adoption

/-- The places of two files that no pass put in the namespace. -/
def strayPlace : Location := ["out", "__virtual_deps__", "a.py"]
def otherStrayPlace : Location := ["out", "__virtual_deps__", "b.py"]

def strayTree : FileTree :=
  ((((∅ : FileTree).makeDirectories ["out", "__virtual_deps__"]).write? strayPlace junk).bind
    (·.write? otherStrayPlace junk)).getD ∅

theorem linkFree_strayTree : (strayTree.makeDirectories ["out"]).LinkFree ["out"] ["out"] :=
  linkFree_of_entries (by decide +kernel) (by decide +kernel) (by decide +kernel)

/-- How a pass over the two files goes that is cut short. -/
def strayCut (progress : Progress) : EStateM.Result DiskError FileTree Unit :=
  generator.cutShort childless ["out"] (passResolver generator.settings.extension childless [])
    progress strayTree

/-- A pass over the two files can be cut short with this left in their places, and made once more it
ends as if it had not been. -/
def CompletedAfter (progress : Progress) (first second : Option Entry) : Prop :=
  ∃ u, strayCut progress = .ok () u ∧ u.entries.get? strayPlace = first ∧
    u.entries.get? otherStrayPlace = second ∧
    EndsAsFrom generator childless ["out"] progress strayTree u

/-- Cut short after the first artifact, the pass left both files. Cut short after the first thing
that it came by in the namespace, it left the second one, whichever of them came first. -/
theorem stray_pass_completed :
    CompletedAfter (.placed 1) (some (.file junk)) (some (.file junk)) ∧
    CompletedAfter (.swept (.startingWith (["a.py"], .file junk)) 1) none (some (.file junk)) ∧
    CompletedAfter (.swept (.startingWith (["b.py"], .file junk)) 1) (some (.file junk)) none := by
  have completed {progress : Progress} {first second : Option Entry}
      (leaves : (match strayCut progress with
        | .ok () u => decide (u.entries.get? strayPlace = first ∧
            u.entries.get? otherStrayPlace = second)
        | .error _ _ => false) = true) : CompletedAfter progress first second := by
    split at leaves
    · next u cut =>
      obtain ⟨at_first, at_second⟩ := of_decide_eq_true leaves
      exact ⟨u, cut, at_first, at_second, runPass_of_cutShort linkFree_strayTree (by decide)
        MarkerPolicy.withinLine_content childless_built cut⟩
    · cases leaves
  exact ⟨completed (by decide +kernel), completed (by decide +kernel),
    completed (by decide +kernel)⟩

end Adoption

end VirtualModules
