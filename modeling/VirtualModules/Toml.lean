/-!
# TOML values and the tables they build

A `Toml` value is what a document says. While a document is read, its tables are `Node`s, which
remember how each table came about: by a header of its own, as a step on the way to another
header, or by a dotted key. That decides what may still be added: no key is bound twice, a table
has one header, and a dotted key extends only tables that dotted keys began.
-/

namespace VirtualModules

inductive Toml where
  | string (value : String)
  | integer (value : Int)
  | float
  | boolean (value : Bool)
  | dateTime
  | array (items : List Toml)
  | table (members : List (String × Toml))
  deriving Inhabited

namespace Toml

/-- How a table came about. -/
inductive Origin where
  /-- By its own header. -/
  | header
  /-- As a step on the way to a header. -/
  | implied
  /-- As a step of a dotted key. -/
  | dotted
  deriving DecidableEq, Repr

/-- What a key is bound to while a document is read. -/
inductive Node where
  | value (v : Toml)
  | table (origin : Origin) (members : List (String × Node))
  /-- The tables under one double-bracketed header. -/
  | tables (items : List (List (String × Node)))

abbrev Members := List (String × Node)

/-- Binds a key, in place of any binding it has. -/
def Members.set (members : Members) (key : String) (node : Node) : Members :=
  match members with
  | [] => [(key, node)]
  | (k, n) :: rest => if k = key then (k, node) :: rest else (k, n) :: set rest key node

/-- Changes the table at the end of a path, making the tables on the way that are missing. The
change is told whether the table it meets was begun by a dotted key. A table in an array of
tables is the last one. -/
def descend (origin : Origin) (change : Bool → Members → Option Members) :
    List String → Bool → Members → Option Members
  | [], dotted, members => change dotted members
  | key :: path, _, members =>
    match members.lookup key with
    | none => do
      let inner ← descend origin change path (origin == .dotted) []
      return members.set key (.table origin inner)
    | some (.value _) => none
    | some (.table known inner) =>
      if origin == .dotted && known == .header then none
      else do
        let inner ← descend origin change path (known == .dotted) inner
        return members.set key (.table known inner)
    | some (.tables items) =>
      match items.getLast? with
      | none => none
      | some last => do
        let last ← descend origin change path false last
        return members.set key (.tables (items.dropLast ++ [last]))

/-- A key and its value; the key may be dotted. -/
structure Binding where
  path : List String
  key : String
  value : Toml

/-- Binds a key that is free. The table it goes into is the current one for a plain key, and one
that dotted keys began for a dotted key. -/
def bind (members : Members) (b : Binding) : Option Members :=
  descend .dotted (fun dotted inner =>
    if dotted == b.path.isEmpty then none
    else if (inner.lookup b.key).isSome then none
    else some (inner.set b.key (.value b.value))) b.path false members

def bindAll (members : Members) (bindings : List Binding) : Option Members :=
  bindings.foldlM bind members

/-- A header in single or double brackets with the bindings under it. -/
structure Section where
  isArray : Bool
  path : List String
  key : String
  bindings : List Binding

/-- Adds a section: a new table, one more table of an array, or the bindings of a table that was
only implied so far. -/
def addSection (root : Members) (s : Section) : Option Members :=
  descend .implied (fun _ inner =>
    match s.isArray, inner.lookup s.key with
    | true, none => do return inner.set s.key (.tables [← bindAll [] s.bindings])
    | true, some (.tables items) => do
      return inner.set s.key (.tables (items ++ [← bindAll [] s.bindings]))
    | false, none => do return inner.set s.key (.table .header (← bindAll [] s.bindings))
    | false, some (.table .implied members) => do
      return inner.set s.key (.table .header (← bindAll members s.bindings))
    | _, _ => none) s.path false root

mutual

/-- The value of a node. -/
def Node.toToml : Node → Toml
  | .value v => v
  | .table _ members => .table (membersToToml members)
  | .tables items => .array (itemsToToml items)

def membersToToml : List (String × Node) → List (String × Toml)
  | [] => []
  | (key, node) :: rest => (key, node.toToml) :: membersToToml rest

def itemsToToml : List (List (String × Node)) → List Toml
  | [] => []
  | members :: rest => .table (membersToToml members) :: itemsToToml rest

end

/-- The table of a list of bindings, as between braces. -/
def inlineTable (bindings : List Binding) : Option Toml :=
  (bindAll [] bindings).map fun members => .table (membersToToml members)

/-- The table of a document: its first bindings, then its sections. -/
def document (bindings : List Binding) (sections : List Section) : Option Toml := do
  let root ← bindAll [] bindings
  let root ← sections.foldlM addSection root
  return .table (membersToToml root)

end Toml

end VirtualModules
