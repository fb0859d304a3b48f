import VirtualModules.Snapshot
import VirtualModules.Json.Reading

/-!
# Snapshot documents

A snapshot is written as a JSON object with `installed_apps`, `modules` and `concrete`. Members
of no meaning are skipped; a member with a meaning may stand once and must have the right shape.
A record may also be written as an array of its members in their fixed order. A document of the
wrong shape is `malformed`; only a model's name can be refused with a fault of its own.
-/

namespace VirtualModules

namespace Json

/-- A value that must have a shape. -/
abbrev Shape (α : Type) := Json → Option α

def asText : Shape String
  | .string value => value
  | _ => none

def asBoolean : Shape Bool
  | .boolean b => some b
  | _ => none

def asPath : Shape ImportPath := fun v => do
  (ImportPath.ofString (← asText v)).toOption

def asList {α : Type} (shape : Shape α) : Shape (List α)
  | .array items => items.mapM shape
  | _ => none

/-- Null stands for none. -/
def asOption {α : Type} (shape : Shape α) : Shape (Option α)
  | .null => some none
  | v => (shape v).map some

/-- The members of an object, whose names must all be readable. -/
def asMembers : Shape (List (String × Json))
  | .object members => members.mapM fun (name, v) => name.map (·, v)
  | _ => none

/-- The members of a record by name, or in their fixed order. -/
inductive Record where
  | named (members : List (String × Json))
  | positional (items : List Json)

/-- A record with the given members: none of them twice, and in the positional form no more
than there are. -/
def asRecord (names : List String) : Shape Record
  | .array items => if items.length ≤ names.length then some (.positional items) else none
  | v => do
    let members ← asMembers v
    if names.all fun name => members.countP (·.1 == name) ≤ 1 then some (.named members) else none

/-- The member at a place of a record, if it is there. -/
def Record.member? (r : Record) (place : Nat) (name : String) : Option Json :=
  match r with
  | .named members => members.lookup name
  | .positional items => items[place]?

/-- A member that must be there. -/
def Record.required {α : Type} (r : Record) (place : Nat) (name : String) (shape : Shape α) :
    Option α := do shape (← r.member? place name)

/-- A member that may be left out. -/
def Record.optional {α : Type} (r : Record) (place : Nat) (name : String) (shape : Shape α)
    (absent : α) : Option α :=
  match r.member? place name with
  | some v => shape v
  | none => some absent

end Json

open Json

def Field.ofJson? : Shape Field := fun v => do
  let r ← asRecord ["field_type", "related_model"] v
  return {
    fieldType := ← r.required 0 "field_type" asPath
    relatedModel := ← r.optional 1 "related_model" (asOption asPath) none }

/-- A model as the document gives it; its path follows from its module. -/
structure ModelDocument where
  name : String
  isAbstract : Bool
  customQueryset : Option ImportPath
  ancestors : List ImportPath
  fields : Table String Field

def ModelDocument.ofJson? : Shape ModelDocument := fun v => do
  let r ← asRecord ["name", "is_abstract", "default_custom_queryset", "ancestors", "fields"] v
  return {
    name := ← r.required 0 "name" asText
    isAbstract := ← r.optional 1 "is_abstract" asBoolean false
    customQueryset := ← r.optional 2 "default_custom_queryset" (asOption asPath) none
    ancestors := ← r.optional 3 "ancestors" (asList asPath) []
    fields := ← r.optional 4 "fields" asFields ∅ }
where
  asFields : Shape (Table String Field) := fun v => do
    let members ← asMembers v
    return Table.ofList (← members.mapM fun (name, v) => (Field.ofJson? v).map (name, ·))

structure ModuleDocument where
  path : ImportPath
  installed : Bool
  models : List ModelDocument

def ModuleDocument.ofJson? : Shape ModuleDocument := fun v => do
  let r ← asRecord ["import_path", "installed", "models"] v
  return {
    path := ← r.required 0 "import_path" asPath
    installed := ← r.optional 1 "installed" asBoolean true
    models := ← r.optional 2 "models" (asList ModelDocument.ofJson?) [] }

structure SnapshotDocument where
  installedApps : List String
  modules : List ModuleDocument
  explicit : Option DescendantTable

def SnapshotDocument.ofJson? : Shape SnapshotDocument := fun v => do
  let r ← asRecord ["installed_apps", "modules", "concrete"] v
  return {
    installedApps := ← r.optional 0 "installed_apps" (asList asText) []
    modules := ← r.optional 1 "modules" (asList ModuleDocument.ofJson?) []
    explicit := ← r.optional 2 "concrete" (asOption asDescendants) none }
where
  asDescendants : Shape DescendantTable := fun v => do
    let members ← asMembers v
    return Table.ofList (← members.mapM fun (name, v) => do
      return (← (ImportPath.ofString name).toOption, ← asList asPath v))

/-- The model of a module's document. -/
def ModelDocument.toModel (d : ModelDocument) (modulePath : ImportPath) :
    Except ModelError Model :=
  match Model.new modulePath d.name with
  | .ok model => .ok { model with
      isAbstract := d.isAbstract, customQueryset := d.customQueryset,
      ancestors := d.ancestors, fields := d.fields }
  | .error fault => .error (.invalidPath fault)

def ModuleDocument.toModule (d : ModuleDocument) : Except ModelError SourceModule :=
  d.models.foldlM (fun m model => return m.withModel (← model.toModel d.path))
    (SourceModule.new d.path d.installed)

namespace Snapshot

/-- The snapshot that a document describes. -/
def ofDocument (d : SnapshotDocument) : Except ModelError Snapshot := do
  let modules ← d.modules.mapM ModuleDocument.toModule
  let snapshot ← ofModules d.installedApps modules
  return { snapshot with explicit := d.explicit }

/-- The snapshot that a JSON text describes. -/
def ofText (text : String) : Except ModelError Snapshot :=
  match (Json.ofText? text).bind SnapshotDocument.ofJson? with
  | some document => ofDocument document
  | none => .error .malformed

end Snapshot

end VirtualModules
