import VirtualModules.Report

/-!
# Merging reports

Merging takes the union of two reports. A key belongs to one owner: where the two reports bind a
key of one of the first three tables to different values, merging stops with a `Conflict` and
leaves behind what it entered before. Relations never conflict.
-/

namespace VirtualModules

/-- The tables of a report whose keys have one owner each, in the order of merging. -/
inductive OwnedTable where
  | concreteAliases
  | querysetAliases
  | virtualModules
  deriving DecidableEq, Repr

def OwnedTable.label : OwnedTable → String
  | .concreteAliases => "concrete_annotations"
  | .querysetAliases => "concrete_querysets"
  | .virtualModules => "report_import_path"

/-- Two values for one key. -/
structure Clash where
  key : ImportPath
  existing : ImportPath
  incoming : ImportPath
  deriving DecidableEq

structure Conflict where
  table : OwnedTable
  clash : Clash
  deriving DecidableEq

def Conflict.message (c : Conflict) : String :=
  "conflicting " ++ c.table.label ++ " entries for '" ++ c.clash.key.text ++ "': '" ++
    c.clash.existing.text ++ "' vs '" ++ c.clash.incoming.text ++ "'"

/-- Enters bindings one after another, up to the first that a different value stands in the way
of. -/
def mergeOwned (into : PathTable) : List (ImportPath × ImportPath) → PathTable × Option Clash
  | [] => (into, none)
  | (key, incoming) :: rest =>
    match into.get? key with
    | none => mergeOwned (into.insert key incoming) rest
    | some existing =>
      if existing = incoming then mergeOwned into rest else (into, some ⟨key, existing, incoming⟩)

/-- Adds the related modules of each module. -/
def mergeRelated (into : Table ImportPath (SortedSet ImportPath))
    (incoming : List (ImportPath × SortedSet ImportPath)) :
    Table ImportPath (SortedSet ImportPath) :=
  incoming.foldl (fun t (key, related) => t.insert key ((t.get? key).getD ∅ ∪ related)) into

namespace Report

/-- What merging leaves: the report so far, and the conflict that stopped it, if any. -/
structure Merged where
  report : Report
  conflict : Option Conflict
  deriving DecidableEq

def merge (r incoming : Report) : Merged :=
  match mergeOwned r.concreteAliases incoming.concreteAliases.entries with
  | (concreteAliases, some clash) => ⟨{ r with concreteAliases }, some ⟨.concreteAliases, clash⟩⟩
  | (concreteAliases, none) =>
  match mergeOwned r.querysetAliases incoming.querysetAliases.entries with
  | (querysetAliases, some clash) =>
    ⟨{ r with concreteAliases, querysetAliases }, some ⟨.querysetAliases, clash⟩⟩
  | (querysetAliases, none) =>
  match mergeOwned r.virtualModules incoming.virtualModules.entries with
  | (virtualModules, some clash) =>
    ⟨{ r with concreteAliases, querysetAliases, virtualModules }, some ⟨.virtualModules, clash⟩⟩
  | (virtualModules, none) =>
    ⟨⟨concreteAliases, querysetAliases, virtualModules,
      mergeRelated r.relatedModules incoming.relatedModules.entries⟩, none⟩

/-- The merged report, or the conflict. -/
def merge? (r incoming : Report) : Except Conflict Report :=
  match r.merge incoming with
  | ⟨report, none⟩ => .ok report
  | ⟨_, some conflict⟩ => .error conflict

end Report

end VirtualModules
