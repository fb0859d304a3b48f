import VirtualModules.Proofs.Rereading

/-!
# Installs that run alike

Two runs end `Alike` if both go through or both stop with the same error, and what they leave is
related. `Twins` are trees that differ at most in what is staged. From twins with the same artifacts
still to be placed, placing and sweeping run alike and leave twins (`ReadyTwins.placeAll_alike`,
`sweepAll_alike`), which are the same tree once the scratch directory is gone (`Twins.removed`).
-/

namespace VirtualModules

open FileTree

/-! ## Runs that end alike -/

/-- Two runs both went through, with related answers and trees, or both stopped with the same error,
and the trees that they left are related as this error asks for. -/
inductive Alike {ε α : Type} (A : α → α → Prop) (R : FileTree → FileTree → Prop)
    (E : ε → FileTree → FileTree → Prop) :
    EStateM.Result ε FileTree α → EStateM.Result ε FileTree α → Prop
  | ok {a b : α} {t u : FileTree} : A a b → R t u → Alike A R E (.ok a t) (.ok b u)
  | error {e : ε} {t u : FileTree} : E e t u → Alike A R E (.error e t) (.error e u)

section Alike

variable {ε ε' α β : Type} {A : α → α → Prop} {B : β → β → Prop}
  {R Q : FileTree → FileTree → Prop} {E F : ε → FileTree → FileTree → Prop}
  {G : ε' → FileTree → FileTree → Prop} {x y : DiskAction ε α} {t u : FileTree}

theorem Alike.refl (answers : ∀ a, A a a) (trees : ∀ t, R t t) (stopped : ∀ e t, E e t t)
    (r : EStateM.Result ε FileTree α) : Alike A R E r r := by
  cases r with
  | ok a t => exact .ok (answers a) (trees t)
  | error e t => exact .error (stopped e t)

theorem Alike.imp {r r' : EStateM.Result ε FileTree α} (h : Alike A R E r r')
    (stopped : ∀ e t u, E e t u → F e t u) : Alike A R F r r' := by
  cases h with
  | ok answers trees => exact .ok answers trees
  | error related => exact .error (stopped _ _ _ related)

/-- What goes on alike from related answers and trees ends alike. -/
theorem Alike.bind {f g : α → DiskAction ε β} (first : Alike A R E (x t) (y u))
    (next : ∀ a b t' u', A a b → R t' u' → Alike B Q F (f a t') (g b u'))
    (stopped : ∀ e t' u', E e t' u' → F e t' u') : Alike B Q F ((x >>= f) t) ((y >>= g) u) := by
  generalize ended : x t = r at first
  generalize ended' : y u = r' at first
  cases first with
  | ok answers trees =>
    rw [DiskAction.bind_of_ok ended, DiskAction.bind_of_ok ended']
    exact next _ _ _ _ answers trees
  | error trees =>
    rw [DiskAction.bind_of_error ended, DiskAction.bind_of_error ended']
    exact .error (stopped _ _ _ trees)

theorem Alike.always {last : FileTree → FileTree} (h : Alike A R E (x t) (y u))
    (trees : ∀ t' u', R t' u' → Q (last t') (last u'))
    (stopped : ∀ e t' u', E e t' u' → F e (last t') (last u')) :
    Alike A Q F (DiskAction.always x last t) (DiskAction.always y last u) := by
  generalize ended : x t = r at h
  generalize ended' : y u = r' at h
  cases h with
  | ok same related =>
    rw [DiskAction.always_of_ok ended, DiskAction.always_of_ok ended']
    exact .ok same (trees _ _ related)
  | error related =>
    rw [DiskAction.always_of_error ended, DiskAction.always_of_error ended']
    exact .error (stopped _ _ _ related)

theorem Alike.mapError {f : ε → ε'} (h : Alike A R E (x t) (y u))
    (stopped : ∀ e t' u', E e t' u' → G (f e) t' u') :
    Alike A R G (DiskAction.mapError f x t) (DiskAction.mapError f y u) := by
  generalize ended : x t = r at h
  generalize ended' : y u = r' at h
  cases h with
  | ok same related =>
    rw [DiskAction.mapError_of_ok ended, DiskAction.mapError_of_ok ended']
    exact .ok same related
  | error related =>
    rw [DiskAction.mapError_of_error ended, DiskAction.mapError_of_error ended']
    exact .error (stopped _ _ _ related)

end Alike

/-! ## Twins -/

/-- Two trees without links below the destination that agree outside of the scratch directory. -/
structure Twins (destination d : Location) (scratch : String) (t u : FileTree) : Prop where
  free : t.LinkFree destination d
  free_right : u.LinkFree destination d
  directory : t.entries.get? (d ++ [scratch]) = some .directory
  directory_right : u.entries.get? (d ++ [scratch]) = some .directory
  beside : ∀ l, ¬ d ++ [scratch] <+: l → t.entries.get? l = u.entries.get? l

section Twins

variable {destination d : Location} {scratch : String} {t u t' u' : FileTree}
  (twins : Twins destination d scratch t u)

include twins

theorem Twins.get?_append {q : Location} (beside : ¬ [scratch] <+: q) :
    t.entries.get? (d ++ q) = u.entries.get? (d ++ q) :=
  twins.beside _ fun way => beside ((List.prefix_append_right_inj d).mp way)

/-- Twins have the same in every namespace. -/
theorem Twins.sameBelow (dot : '.' ∈ scratch.toList) (nspace : ImportPath) :
    InstallPlan.SameBelow (d ++ nspace.segments) t u := by
  intro names
  rw [List.append_assoc]
  exact twins.get?_append (head_ne_of_dot dot names)

/-- The way to a namespace is free in both or in none. -/
theorem Twins.freeWay_iff (dot : '.' ∈ scratch.toList) (nspace : ImportPath) :
    t.FreeWay d nspace.segments ↔ u.FreeWay d nspace.segments := by
  have same : ∀ r, r <+: nspace.segments → t.entries.get? (d ++ r) = u.entries.get? (d ++ r) := by
    intro r way
    exact twins.get?_append fun below => head_ne_of_dot dot [] (by simpa using below.trans way)
  constructor
  · intro free r nonempty way
    rw [← same r way]
    exact free r nonempty way
  · intro free r nonempty way
    rw [same r way]
    exact free r nonempty way

/-- If the same is gone from a namespace in both, they are twins again. -/
theorem Twins.gone (dot : '.' ∈ scratch.toList) {nspace : ImportPath} {names : Location}
    (left : GoneAt (d ++ (nspace.segments ++ names)) t t')
    (right : GoneAt (d ++ (nspace.segments ++ names)) u u') :
    Twins destination d scratch t' u' := by
  have nonempty : nspace.segments ++ names ≠ [] :=
    List.append_ne_nil_of_left_ne_nil nspace.segments_ne_nil _
  have elsewhere : d ++ [scratch] ≠ d ++ (nspace.segments ++ names) := fun same =>
    head_ne_of_dot dot names ⟨[], by simpa using List.append_cancel_left same⟩
  refine ⟨twins.free.goneAt nonempty left, twins.free_right.goneAt nonempty right, ?_, ?_,
    fun l outside => ?_⟩
  · rw [left, if_neg elsewhere, twins.directory]
  · rw [right, if_neg elsewhere, twins.directory_right]
  · rw [left, right, twins.beside l outside]

/-- Without the scratch directory, twins are the same tree. -/
theorem Twins.removed (is_scratch : isScratchName scratch = true)
    (short : Short destination [scratch]) :
    (t.removeTree? (destination ++ [scratch])).getD t =
      (u.removeTree? (destination ++ [scratch])).getD u := by
  rw [twins.free.toRoot.removeTree?_directory (plain_scratch is_scratch) (by simp) short
      twins.directory,
    twins.free_right.toRoot.removeTree?_directory (plain_scratch is_scratch) (by simp) short
      twins.directory_right]
  refine ext_get? fun l => ?_
  rw [Option.getD_some, Option.getD_some, get?_prune, get?_prune]
  split
  · rfl
  · next outside => exact twins.beside l outside

end Twins

namespace InstallPlan

variable {p : InstallPlan} {d : Location} {scratch : String} {nspace : ImportPath}
  {known : ImportPath → Bool} {t u t' u' : FileTree}

/-! ## Placing alike -/

section Placing

variable {e : Location × Option String} {items : List (Location × Option String)}

/-- Twins with the same artifacts to be placed. -/
structure ReadyTwins (p : InstallPlan) (d : Location) (scratch : String) (nspace : ImportPath)
    (items : List (Location × Option String)) (t u : FileTree) : Prop
    extends Twins p.destination d scratch t u where
  ready : p.Ready d scratch nspace t items
  ready_right : p.Ready d scratch nspace u items
  staged : ∀ e ∈ items,
    t.entries.get? (d ++ scratch :: e.1) = u.entries.get? (d ++ scratch :: e.1)

theorem ReadyTwins.tail (twins : p.ReadyTwins d scratch nspace (e :: items) t u) :
    p.ReadyTwins d scratch nspace items t u where
  toTwins := twins.toTwins
  ready := twins.ready.tail
  ready_right := twins.ready_right.tail
  staged e' mem := twins.staged e' (List.mem_cons_of_mem _ mem)

/-- After the same file was replaced in both, they are twins again. -/
theorem ReadyTwins.replaced (twins : p.ReadyTwins d scratch nspace (e :: items) t u)
    {content : Bytes} (left : Replaced d scratch nspace e.1 content t t')
    (right : Replaced d scratch nspace e.1 content u u') :
    p.ReadyTwins d scratch nspace items t' u' where
  free := (twins.ready.after left).free
  free_right := (twins.ready_right.after right).free
  directory := (twins.ready.after left).directory
  directory_right := (twins.ready_right.after right).directory
  beside l beside := by
    by_cases below : d ++ e.1 <+: l
    · obtain ⟨rest, rfl⟩ := below
      by_cases more : rest = []
      · rw [more, List.append_nil, left.moved, right.moved]
      · rw [get?_below_file more left.moved, get?_below_file more right.moved]
    by_cases on_way : ∃ r, r ≠ [] ∧ r <+: nspace.segments ∧ l = d ++ r
    · obtain ⟨r, nonempty, way, rfl⟩ := on_way
      rw [left.way r nonempty way, right.way r nonempty way]
    · have off : ∀ r, r ≠ [] → r <+: nspace.segments → l ≠ d ++ r :=
        fun r nonempty way here => on_way ⟨r, nonempty, way, here⟩
      have not_staged : l ≠ d ++ scratch :: e.1 := by
        rintro rfl
        exact beside ⟨e.1, by simp⟩
      rw [left.others l below not_staged off, right.others l below not_staged off,
        twins.beside l beside]
  ready := twins.ready.after left
  ready_right := twins.ready_right.after right
  staged e' mem := by
    rw [(twins.ready.replaced_others left e' mem).2,
      (twins.ready_right.replaced_others right e' mem).2,
      twins.staged e' (List.mem_cons_of_mem _ mem)]

theorem ReadyTwins.placeOne_alike (by_name : p.resolver = .ofNames known)
    (twins : p.ReadyTwins d scratch nspace (e :: items) t u) :
    Alike (· = ·) (p.ReadyTwins d scratch nspace items)
      (fun _ => p.ReadyTwins d scratch nspace items) (p.placeOne e.1 e.2 t)
      (p.placeOne e.1 e.2 u) := by
  have here := twins.ready.placeable e List.mem_cons_self
  have same_answer := upToDate_congr by_name twins.free.toRoot twins.free_right.toRoot
    here.plain_file here.nonempty (twins.get?_append (here.beside twins.ready.dot)) e.2
  have free_iff := twins.freeWay_iff twins.ready.dot nspace
  rcases twins.ready.placeOne_cases with ⟨current, one⟩ |
    ⟨old, free, content, t', staged, one, left⟩ | ⟨old, blocked, one⟩
  · rcases twins.ready_right.placeOne_cases with ⟨-, one'⟩ | ⟨old', -⟩ | ⟨old', -⟩
    · rw [one, one']
      exact .ok rfl twins.tail
    · exact absurd (same_answer.symm.trans current) (by simp [old'])
    · exact absurd (same_answer.symm.trans current) (by simp [old'])
  · rcases twins.ready_right.placeOne_cases with ⟨current', -⟩ |
      ⟨-, -, content', u', staged', one', right⟩ | ⟨-, blocked', -⟩
    · exact absurd (same_answer.trans current') (by simp [old])
    · have same := twins.staged e List.mem_cons_self
      rw [staged, staged'] at same
      cases same
      rw [one, one']
      exact .ok rfl (twins.replaced left right)
    · exact absurd (free_iff.mp free) blocked'
  · rcases twins.ready_right.placeOne_cases with ⟨current', -⟩ | ⟨-, free', -⟩ | ⟨-, -, one'⟩
    · exact absurd (same_answer.trans current') (by simp [old])
    · exact absurd (free_iff.mpr free') blocked
    · rw [one, one']
      exact .error twins.tail

/-- Placing the same artifacts runs alike in twins. -/
theorem ReadyTwins.placeAll_alike (by_name : p.resolver = .ofNames known)
    (twins : p.ReadyTwins d scratch nspace items t u) :
    Alike (· = ·) (Twins p.destination d scratch) (fun _ => Twins p.destination d scratch)
      (p.placeAll items t) (p.placeAll items u) := by
  induction items generalizing t u with
  | nil => exact .ok rfl twins.toTwins
  | cons e rest ih =>
    refine (twins.placeOne_alike by_name).bind ?_ fun _ _ _ twins' => twins'.toTwins
    rintro placed _ t' u' rfl twins'
    refine (ih twins').bind ?_ fun _ _ _ => id
    rintro r _ t'' u'' rfl twins''
    exact .ok rfl twins''

end Placing

/-! ## Sweeping alike -/

section Sweeping

variable {kept : List Location} {item : Location × Entry} {items : List (Location × Entry)}

/-- Something stays in both twins or in none. -/
theorem stays_iff (by_name : p.resolver = .ofNames known) (dot : '.' ∈ scratch.toList)
    (twins : Twins p.destination d scratch t u) (listed : Listed d nspace t item)
    (listed_u : Listed d nspace u item) :
    p.Stays d nspace kept t item ↔ p.Stays d nspace kept u item := by
  have same : t.entries.get? (d ++ (nspace.segments ++ item.1)) =
      u.entries.get? (d ++ (nspace.segments ++ item.1)) :=
    twins.get?_append (head_ne_of_dot dot _)
  have below : t.below (d ++ (nspace.segments ++ item.1)) =
      u.below (d ++ (nspace.segments ++ item.1)) := by
    refine below_congr fun names _ => ?_
    rw [List.append_assoc, List.append_assoc]
    exact twins.get?_append (head_ne_of_dot dot _)
  constructor
  · exact fun stays => stays.congr by_name twins.free.toRoot twins.free_right.toRoot listed same.symm
      (by rw [below]; exact id)
  · exact fun stays => stays.congr by_name twins.free_right.toRoot twins.free.toRoot listed_u same
      (by rw [below]; exact id)

theorem sweepItem_alike (by_name : p.resolver = .ofNames known) (dot : '.' ∈ scratch.toList)
    (twins : Twins p.destination d scratch t u) (listed : Listed d nspace t item)
    (listed_u : Listed d nspace u item)
    (distinct : ((item :: items).map (·.1)).Nodup) (rest : ∀ i ∈ items, Listed d nspace t i) :
    Alike (· = ·)
      (fun t' u' => Twins p.destination d scratch t' u' ∧ ∀ i ∈ items, Listed d nspace t' i)
      (fun _ => Twins p.destination d scratch)
      (p.sweepItem kept (p.destination ++ (nspace.segments ++ item.1)) item.2 t)
      (p.sweepItem kept (p.destination ++ (nspace.segments ++ item.1)) item.2 u) := by
  have stays : p.Stays d nspace kept t item ↔ p.Stays d nspace kept u item :=
    stays_iff by_name dot twins listed listed_u
  rcases sweepItem_cases kept twins.free.toRoot listed with
    ⟨within, stays_t, one⟩ | ⟨within, goes, t', one, left⟩ | ⟨long, one⟩
  · rcases sweepItem_cases kept twins.free_right.toRoot listed_u with
      ⟨-, -, one'⟩ | ⟨-, goes, -⟩ | ⟨long, -⟩
    · rw [one, one']
      exact .ok rfl ⟨twins, rest⟩
    · exact absurd (stays.mp stays_t) goes
    · exact absurd within long
  · rcases sweepItem_cases kept twins.free_right.toRoot listed_u with
      ⟨-, stays_u, -⟩ | ⟨-, -, u', one', right⟩ | ⟨long, -⟩
    · exact absurd (stays.mpr stays_u) goes
    · rw [one, one']
      exact .ok rfl ⟨twins.gone dot left right, fun i mem => (rest i mem).of_gone distinct left mem⟩
    · exact absurd within long
  · rcases sweepItem_cases kept twins.free_right.toRoot listed_u with
      ⟨within, -⟩ | ⟨within, -⟩ | ⟨-, one'⟩
    · exact absurd within long
    · exact absurd within long
    · rw [one, one']
      exact .error twins

/-- Sweeping the same things runs alike in twins. -/
theorem sweepAll_alike (by_name : p.resolver = .ofNames known) (dot : '.' ∈ scratch.toList)
    (twins : Twins p.destination d scratch t u) (distinct : (items.map (·.1)).Nodup)
    (listed : ∀ i ∈ items, Listed d nspace t i) :
    Alike (· = ·) (Twins p.destination d scratch) (fun _ => Twins p.destination d scratch)
      (p.sweepAll kept (p.sweepRoot nspace) items t)
      (p.sweepAll kept (p.sweepRoot nspace) items u) := by
  induction items generalizing t u with
  | nil => exact .ok rfl twins
  | cons item rest ih =>
    have here := listed item List.mem_cons_self
    have here_u : Listed d nspace u item := ⟨here.nonempty, here.plain, by
      rw [← twins.get?_append (head_ne_of_dot dot _), here.found]⟩
    rw [sweepAll_cons, sweepRoot, List.append_assoc]
    refine (sweepItem_alike by_name dot twins here here_u distinct
      fun i mem => listed i (List.mem_cons_of_mem _ mem)).bind ?_ fun _ _ _ => id
    rintro gone _ t' u' rfl ⟨twins', listed'⟩
    refine (ih twins' (List.nodup_cons.mp distinct).2 listed').bind ?_ fun _ _ _ => id
    rintro removed _ t'' u'' rfl twins''
    exact .ok rfl twins''

/-- And so does sweeping whatever there is. -/
theorem sweep_alike (by_name : p.resolver = .ofNames known) (dot : '.' ∈ scratch.toList)
    (twins : Twins p.destination d scratch t u) :
    Alike (· = ·) (Twins p.destination d scratch) (fun _ => Twins p.destination d scratch)
      (p.sweepAll kept (p.sweepRoot nspace) (sweepList t (p.sweepRoot nspace)) t)
      (p.sweepAll kept (p.sweepRoot nspace) (sweepList u (p.sweepRoot nspace)) u) := by
  have list : sweepList t (p.sweepRoot nspace) = sweepList u (p.sweepRoot nspace) :=
    (twins.sameBelow dot nspace).sweepList_eq twins.free.toRoot twins.free_right.toRoot
  rw [← list]
  exact sweepAll_alike by_name dot twins
    (contentFirst_sweepList twins.free.toRoot nspace).nodup
    fun i mem => listed_of_mem_sweepList twins.free mem

end Sweeping

end InstallPlan

end VirtualModules
