import VirtualModules.Proofs.PrintedSummaries

/-!
# Aliases of requested models

Answers are taken out of tables while the requests are gone through, and later answers to a model
replace earlier ones. So what the resulting table has for a model depends on how often the model was
requested (`get?_aliasTable`): once gives its aliases, and more often gives none.

* `aliasTable_faithful_iff`: the table has the requested models as its keys, it has the aliases of
  the report for all of them exactly if no model with an alias is requested again, and the exit code
  is 0 exactly if every requested model has an alias of its descendants and is requested once.
* `Adoption.noted_again`: a model with an alias that is requested twice has none in the table.
-/

namespace VirtualModules

theorem Report.get?_lookup {table : PathTable} {models : List ImportPath} {m : ImportPath}
    (mem : m ∈ models) : (Report.lookup table models).get? m = some (table.get? m) := by
  rw [lookup, Table.get?_ofList, ← List.map_reverse]
  exact List.lookup_graph table.get? (List.mem_reverse.mpr mem)

namespace CommandLine

/-- The aliases that a report has for a model. -/
def aliasesOf (r : Report) (model : ImportPath) : Aliases :=
  ⟨r.concreteAliases.get? model, r.querysetAliases.get? model⟩

/-! ## Answers by the number of requests -/

/-- The answers bind a model to what the tables have for it if it is requested once. The request
takes it out of the tables, so there is nothing to bind the model to if it is requested again. -/
theorem get?_answerRequests (t : Table ImportPath Aliases)
    (concrete queryset : Table ImportPath (Option ImportPath)) (models : List ImportPath)
    (m : ImportPath) :
    ((answerRequests concrete queryset models).foldl (fun t e => t.insert e.1 e.2) t).get? m =
      match models.count m with
      | 0 => t.get? m
      | 1 => some ⟨(concrete.get? m).join, (queryset.get? m).join⟩
      | _ + 2 => some ⟨none, none⟩ := by
  induction models generalizing t concrete queryset with
  | nil => rfl
  | cons n rest ih =>
    rw [answerRequests, List.foldl_cons, ih]
    by_cases here : m = n
    · subst here
      rw [List.count_cons_self]
      match rest.count m with
      | 0 => exact Table.get?_insert_self _ _ _
      | 1 => simp
      | _ + 2 => rfl
    · rw [List.count_cons_of_ne (Ne.symm here), Table.get?_insert_ne _ here,
        Table.get?_erase_ne _ here, Table.get?_erase_ne _ here]

theorem get?_aliasTable (r : Report) (models : List ImportPath) (m : ImportPath) :
    (aliasTable r models).get? m =
      match models.count m with
      | 0 => none
      | 1 => some (aliasesOf r m)
      | _ + 2 => some ⟨none, none⟩ := by
  rw [aliasTable, Table.ofList, get?_answerRequests]
  cases requests : models.count m with
  | zero => rfl
  | succ before =>
    have mem : m ∈ models := List.count_pos_iff.mp (by omega)
    cases before with
    | zero => simp only [Report.get?_lookup mem, Option.join_some, aliasesOf]
    | succ _ => rfl

variable {r : Report} {models : List ImportPath}

/-- The table has the aliases of the requested models unless it lost some. -/
theorem get?_aliasTable_eq_iff {m : ImportPath} (mem : m ∈ models) :
    (aliasTable r models).get? m = some (aliasesOf r m) ↔
      (2 ≤ models.count m → aliasesOf r m = ⟨none, none⟩) := by
  have requested := List.count_pos_iff.mpr mem
  rw [get?_aliasTable]
  match models.count m, requested with
  | 1, _ => simp
  | _ + 2, _ => simp [eq_comm]

/-- The exit code looks at the alias of the descendants only. -/
theorem hasConcrete_iff {m : ImportPath} (mem : m ∈ models) :
    (∀ a, (aliasTable r models).get? m = some a → a.concrete.isSome = true) ↔
      models.count m = 1 ∧ (r.concreteAliases.get? m).isSome = true := by
  have requested := List.count_pos_iff.mpr mem
  rw [get?_aliasTable]
  match models.count m, requested with
  | 1, _ => simp [aliasesOf]
  | _ + 2, _ => simp

theorem mem_of_get?_aliasTable {m : ImportPath} {a : Aliases}
    (found : (aliasTable r models).get? m = some a) : m ∈ models := by
  rw [get?_aliasTable] at found
  by_contra absent
  rw [List.count_eq_zero.mpr absent] at found
  cases found

theorem aliasCode_eq_zero_iff : aliasCode (aliasTable r models) = 0 ↔
    ∀ m ∈ models, models.count m = 1 ∧ (r.concreteAliases.get? m).isSome = true := by
  have values : aliasCode (aliasTable r models) = 0 ↔
      ∀ a ∈ (aliasTable r models).values, a.concrete.isSome = true := by
    rw [aliasCode, ← List.all_eq_true]
    split <;> simp_all
  rw [values]
  constructor
  · intro all m mem
    refine (hasConcrete_iff mem).mp fun a found => ?_
    exact all a (Table.mem_values_iff.mpr ⟨m, found⟩)
  · intro each a mem
    obtain ⟨m, found⟩ := Table.mem_values_iff.mp mem
    have requested := mem_of_get?_aliasTable found
    exact (hasConcrete_iff requested).mpr (each m requested) a found

theorem aliases_eq {t : FileTree} {p : Project} {combined : Combined} {texts : List String}
    (loaded : p.loadReport t = .ok combined) (read : readPaths texts = .ok models)
    (format : OutputFormat) : ∃ lines, aliases t p texts format =
      .ok (.ofOutput (aliasCode (aliasTable combined.report models)) lines) := by
  rw [aliases, loaded, read]
  exact ⟨_, rfl⟩

/-- The table that answers the command has just the requested models as its keys. A model that is
requested once has the aliases of the report; one that is requested again has none. So the table is
right about all of them exactly if no model with an alias is requested again. The command ends with
the exit code 0 exactly if every requested model has an alias of its descendants and is requested
once. -/
theorem aliasTable_faithful_iff (r : Report) (models : List ImportPath) :
    (∀ m, (aliasTable r models).get? m =
      match models.count m with
      | 0 => none
      | 1 => some (aliasesOf r m)
      | _ + 2 => some ⟨none, none⟩) ∧
    ((∀ m ∈ models, (aliasTable r models).get? m = some (aliasesOf r m)) ↔
      ∀ m ∈ models, 2 ≤ models.count m → aliasesOf r m = ⟨none, none⟩) ∧
    ∀ t p texts version, Project.loadReport p t = .ok ⟨version, r⟩ → readPaths texts = .ok models →
      ∀ format, ∃ console, aliases t p texts format = .ok console ∧
        (console.code = 0 ↔
          ∀ m ∈ models, models.count m = 1 ∧ (r.concreteAliases.get? m).isSome = true) := by
  refine ⟨get?_aliasTable r models, forall₂_congr fun m mem => get?_aliasTable_eq_iff mem, ?_⟩
  intro t p texts version loaded read format
  obtain ⟨lines, answered⟩ := aliases_eq loaded read format
  exact ⟨_, answered, aliasCode_eq_zero_iff⟩

end CommandLine

namespace Adoption

open CommandLine

/-- The report has both aliases of the first parent. Requested twice, the parent has neither in the
table, and the exit code says that an alias is missing. -/
theorem noted_again :
    aliasesOf noted.report first =
        ⟨some ⟨"virtual.parents.Concrete__A", by decide⟩,
          some ⟨"virtual.parents.ConcreteQuerySet__A", by decide⟩⟩ ∧
      (aliasTable noted.report [first, first]).get? first = some ⟨none, none⟩ ∧
      aliasCode (aliasTable noted.report [first, first]) = 1 := by
  refine ⟨rfl, get?_aliasTable noted.report [first, first] first, ?_⟩
  decide

theorem noted_in_shop : ∃ t, shop.loadReport t = .ok noted := by
  obtain ⟨t, made⟩ : ∃ t, (∅ : FileTree).makeDirectory? ["out"] = some t := ⟨_, rfl⟩
  obtain ⟨t', saved⟩ : ∃ t', saveReport shop.destination noted t = .ok () t' := by
    cases made
    exact ⟨_, rfl⟩
  have loaded := (loadReport_saveReport_iff saved).mpr noted_fits
  exact ⟨t', by rw [Project.loadReport, loaded]⟩

/-- The first parent's aliases are in the table when both parents are requested, and the exit code
says that the other one has none. -/
theorem noted_requested : ∃ t, shop.loadReport t = .ok noted ∧
    readPaths ["app.models.A", "app.models.B"] = .ok [first, second] ∧ first ∈ [first, second] ∧
    (aliasTable noted.report [first, second]).get? first = some (aliasesOf noted.report first) ∧
    ∃ console, aliases t shop ["app.models.A", "app.models.B"] .text = .ok console ∧
      console.code ≠ 0 := by
  obtain ⟨t, loaded⟩ := noted_in_shop
  have read : readPaths ["app.models.A", "app.models.B"] = .ok [first, second] := rfl
  have once : ∀ m ∈ [first, second], [first, second].count m = 1 := by decide
  obtain ⟨-, faithful, exits⟩ := aliasTable_faithful_iff noted.report [first, second]
  have right := faithful.mpr fun m mem again => by
    rw [once m mem] at again
    omega
  obtain ⟨console, answered, zero⟩ := exits t shop _ noted.version loaded read .text
  refine ⟨t, loaded, read, List.mem_cons_self, right first List.mem_cons_self, console, answered,
    fun code => ?_⟩
  have there := (zero.mp code second (by simp)).2
  exact absurd there (by decide)

end Adoption

end VirtualModules
