import VirtualModules.Config
import VirtualModules.Toml.Reading

/-!
# Configuration documents

A configuration is a TOML document with the tables `project`, `virtual`, `dependencies` and
`resolver`, of which only the first must be there. Keys of no meaning are skipped. A table may
also be written as an array of its values in their fixed order, and a list of texts as one text. A
date in the place of a table counts as an empty table.
-/

namespace VirtualModules

namespace Toml

/-- A value that must have a shape. -/
abbrev Shape (α : Type) := Toml → Option α

def asText : Shape String
  | .string s => some s
  | _ => none

/-- A whole number of 32 bits. -/
def asPriority : Shape Int
  | .integer n => if -2147483648 ≤ n ∧ n ≤ 2147483647 then some n else none
  | _ => none

/-- One text, or a list of them. -/
def asTexts : Shape (List String)
  | .string s => some [s]
  | .array items => items.mapM asText
  | _ => none

/-- A marker mode by its label; the label may also be the key of an empty table or array. -/
def asMarkerMode : Shape MarkerMode
  | .string label => ofLabel? label
  | .table [(label, .table [])] => ofLabel? label
  | .table [(label, .array [])] => ofLabel? label
  | _ => none
where
  ofLabel? (label : String) : Option MarkerMode :=
    [MarkerMode.content, .perProcess].find? fun mode => mode.label == label

/-- The value of a key, or at a place of an array. -/
def member? (place : Nat) (key : String) : Toml → Option Toml
  | .table members => members.lookup key
  | .array items => items[place]?
  | _ => none

/-- A value in which keys can be looked up; a date counts as one without any of them. -/
def isRecord : Toml → Bool
  | .table _ | .array _ | .dateTime => true
  | _ => false

/-- A value that must be there. -/
def required {α : Type} (place : Nat) (key : String) (shape : Shape α) (v : Toml) : Option α := do
  shape (← v.member? place key)

/-- A value that may be left out. -/
def optional {α : Type} (place : Nat) (key : String) (shape : Shape α) (absent : α) (v : Toml) :
    Option α :=
  match v.member? place key with
  | some v => shape v
  | none => some absent

/-- A table that may be left out, which is as good as an empty one. -/
def subtable (key : String) (v : Toml) : Option Toml := do
  let t := (v.member? 0 key).getD (.table [])
  if t.isRecord then some t else none

end Toml

namespace Config

open Toml

/-- The configuration that a table describes. -/
def ofToml? : Shape Config := fun v => do
  let .table members := v | none
  let project ← members.lookup "project"
  let virtuals ← v.subtable "virtual"
  let dependencies ← v.subtable "dependencies"
  let resolver ← v.subtable "resolver"
  return {
    name := ← project.required 0 "name" asText
    description := ← project.optional 1 "description" asText ""
    nspace := ← virtuals.optional 0 "namespace" asText Settings.defaultNamespace
    destination := ← virtuals.optional 1 "destination" asText ".vdep"
    extension := ← virtuals.optional 2 "extension" asText "py"
    markerMode := ← virtuals.optional 3 "differentiator" asMarkerMode .content
    genericQueryset := ← virtuals.optional 4 "generic_queryset" asText
      Settings.defaultGenericQueryset
    priority := ← dependencies.optional 0 "priority" asPriority 10
    engineNamespaces := ← dependencies.optional 1 "engine_namespaces" asTexts []
    settingsModule := ← dependencies.optional 2 "settings_module" (fun v => (asText v).map some)
      none
    settingsAccessors := ← dependencies.optional 3 "settings_accessors" asTexts []
    searchPaths := ← resolver.optional 0 "search_paths" asTexts [] }

/-- The valid configuration that a text holds. -/
def ofText (text : String) : Except ConfigError Config := do
  match (Toml.ofText? text).bind ofToml? with
  | some config =>
    config.validate
    return config
  | none => throw .malformed

end Config

end VirtualModules
