/-!
# Command line arguments

The arguments are some options, the name of a command, and the command's own options and
values. `Invocation.ofArguments` reads them from left to right; a request for help or for the
version ends the reading where it stands, and so does the first mistake.
-/

namespace VirtualModules.CommandLine

inductive OutputFormat where
  | text
  | json
  deriving DecidableEq, Repr

def OutputFormat.label : OutputFormat → String
  | .text => "text"
  | .json => "json"

/-- The options that every command takes. -/
structure GlobalOptions where
  quiet : Bool
  verbose : Bool
  /-- The configuration file, or the directory that holds it. -/
  config : Option String
  deriving DecidableEq, Repr

inductive Command where
  | generate (models : String) (format : OutputFormat)
  | deps (module : String) (imports : List String) (format : OutputFormat)
  | aliases (models : List String) (format : OutputFormat)
  | summary (artifact : String)
  deriving DecidableEq, Repr

/-- What the arguments ask for. -/
inductive Invocation where
  | run (options : GlobalOptions) (command : Command)
  | help
  | version
  | mistake
  deriving DecidableEq, Repr

/-! ## Options -/

inductive OptionName where
  | quiet
  | verbose
  | config
  | help
  | version
  | models
  | format
  | imports
  deriving DecidableEq, Repr

def OptionName.long : OptionName → String
  | .quiet => "quiet"
  | .verbose => "verbose"
  | .config => "config"
  | .help => "help"
  | .version => "version"
  | .models => "models"
  | .format => "format"
  | .imports => "import"

def OptionName.short? : OptionName → Option Char
  | .quiet => some 'q'
  | .verbose => some 'v'
  | .config => none
  | .help => some 'h'
  | .version => some 'V'
  | .models => some 'm'
  | .format => some 'f'
  | .imports => some 'i'

def OptionName.takesValue : OptionName → Bool
  | .config | .models | .format | .imports => true
  | .quiet | .verbose | .help | .version => false

def OptionName.mayRepeat : OptionName → Bool
  | .imports => true
  | _ => false

/-- The values that an option takes; a format goes by its label. -/
def OptionName.accepts : OptionName → String → Bool
  | .format, value => value == OutputFormat.text.label || value == OutputFormat.json.label
  | _, _ => true

def globalOptions : List OptionName := [.quiet, .verbose, .config, .help]

/-- What may follow a command's name: its options, and how many values of its own it takes. -/
structure CommandShape where
  options : List OptionName
  least : Nat
  most : Option Nat

/-! ## Reading one level -/

/-- The options and values of one level of the arguments. -/
structure Given where
  options : List (OptionName × String)
  values : List String
  deriving DecidableEq, Repr

namespace Given

def has (g : Given) (name : OptionName) : Bool := g.options.any (·.1 == name)

def all (g : Given) (name : OptionName) : List String :=
  g.options.filterMap fun (n, value) => if n == name then some value else none

def first? (g : Given) (name : OptionName) : Option String := (g.all name).head?

end Given

/-- Why the reading ended early. -/
inductive Stop where
  | help
  | version
  | mistake
  deriving DecidableEq, Repr

/-- Adds an option; one that is given already, or a value it does not take, is a mistake. -/
def addOption (g : Given) (name : OptionName) (value : String) : Except Stop Given :=
  match name with
  | .help => .error .help
  | .version => .error .version
  | _ =>
    if g.has name && !name.mayRepeat then .error .mistake
    else if !name.accepts value then .error .mistake
    else .ok { g with options := g.options ++ [(name, value)] }

/-- What a single argument does: it completes what is given, or leaves an option that waits for
its value. -/
inductive Taken where
  | complete (g : Given)
  | waiting (g : Given) (name : OptionName)

/-- Reads short options behind one hyphen. The first that takes a value takes the rest, if there
is any, without an equals sign at its start. -/
def takeShort (options : List OptionName) (g : Given) : List Char → Except Stop Taken
  | [] => .ok (.complete g)
  | c :: rest =>
    match options.find? (·.short? == some c) with
    | none => .error .mistake
    | some name =>
      if name.takesValue then
        match rest with
        | [] => .ok (.waiting g name)
        | '=' :: value => (addOption g name (String.ofList value)).map .complete
        | value => (addOption g name (String.ofList value)).map .complete
      else do takeShort options (← addOption g name "") rest

/-- Reads a long option, with or without a value behind an equals sign. -/
def takeLong (options : List OptionName) (g : Given) (text : List Char) : Except Stop Taken :=
  let long := String.ofList (text.takeWhile (· != '='))
  let attached := (text.dropWhile (· != '=')).tail?
  match options.find? (·.long == long), attached with
  | none, _ => .error .mistake
  | some name, none =>
    if name.takesValue then .ok (.waiting g name) else (addOption g name "").map .complete
  | some name, some value =>
    if name.takesValue then (addOption g name (String.ofList value)).map .complete
    else .error .mistake

/-- An argument that starts with a hyphen is no value, except the hyphen alone. -/
def isHyphenated (argument : String) : Bool :=
  match argument.toList with
  | '-' :: _ :: _ => true
  | _ => false

/-- Adds a value, unless there are as many as there may be. -/
def addValue (shape : CommandShape) (g : Given) (value : String) : Except Stop Given :=
  if shape.most.all (g.values.length < ·) then .ok { g with values := g.values ++ [value] }
  else .error .mistake

/-- Reads the arguments of a command, the first of which may be the value that an option waits
for. Everything behind two hyphens is a value. -/
def readGiven (shape : CommandShape) (g : Given) (waiting : Option OptionName) :
    List String → Except Stop Given
  | [] => if waiting.isSome then .error .mistake else .ok g
  | argument :: rest =>
    match waiting with
    | some name =>
      if isHyphenated argument then .error .mistake
      else do readGiven shape (← addOption g name argument) none rest
    | none => do
      let taken ← match argument.toList with
        | ['-', '-'] => return ← rest.foldlM (addValue shape) g
        | '-' :: '-' :: text => takeLong shape.options g text
        | '-' :: c :: text => takeShort shape.options g (c :: text)
        | _ => (addValue shape g argument).map .complete
      match taken with
      | .complete g => readGiven shape g none rest
      | .waiting g name => readGiven shape g (some name) rest

/-! ## Commands -/

inductive CommandName where
  | generate
  | deps
  | aliases
  | summary
  deriving DecidableEq, Repr

def CommandName.label : CommandName → String
  | .generate => "generate"
  | .deps => "deps"
  | .aliases => "aliases"
  | .summary => "summary"

def commandNames : List CommandName := [.generate, .deps, .aliases, .summary]

def CommandName.shape : CommandName → CommandShape
  | .generate => ⟨globalOptions ++ [.models, .format], 0, some 0⟩
  | .deps => ⟨globalOptions ++ [.imports, .format], 1, some 1⟩
  | .aliases => ⟨globalOptions ++ [.format], 1, none⟩
  | .summary => ⟨globalOptions, 1, some 1⟩

def Given.format (g : Given) : OutputFormat :=
  if g.first? .format = some OutputFormat.json.label then .json else .text

/-- The command that was given, unless something that it needs is missing. -/
def CommandName.command? (name : CommandName) (g : Given) : Option Command :=
  match name, g.values with
  | .generate, _ => (g.first? .models).map fun models => .generate models g.format
  | .deps, module :: _ => some (.deps module (g.all .imports) g.format)
  | .aliases, values => if values.isEmpty then none else some (.aliases values g.format)
  | .summary, artifact :: _ => some (.summary artifact)
  | _, [] => none

/-- The options of both levels; a configuration named behind the command counts. -/
def mergeGlobal (outer inner : Given) : GlobalOptions where
  quiet := outer.has .quiet || inner.has .quiet
  verbose := outer.has .verbose || inner.has .verbose
  config := inner.first? .config <|> outer.first? .config

/-- Reads a command's own arguments. -/
def readCommand (outer : Given) (name : CommandName) (arguments : List String) : Invocation :=
  match readGiven name.shape ⟨[], []⟩ none arguments with
  | .error .help => .help
  | .error .version => .version
  | .error .mistake => .mistake
  | .ok inner =>
    match name.command? inner with
    | some command => .run (mergeGlobal outer inner) command
    | none => .mistake

/-- The request for help on commands; what follows must be the name of one. -/
def readHelp : List String → Invocation
  | [] => .help
  | [name] =>
    if name == "help" || commandNames.any (·.label == name) then .help else .mistake
  | _ => .mistake

/-- Reads options up to a command's name. -/
def readOuter (outer : Given) (waiting : Option OptionName) : List String → Invocation
  | [] => .mistake
  | argument :: rest =>
    match waiting with
    | some name =>
      if isHyphenated argument then .mistake
      else
        match addOption outer name argument with
        | .ok outer => readOuter outer none rest
        | .error _ => .mistake
    | none =>
      match commandNames.find? (·.label == argument) with
      | some name => readCommand outer name rest
      | none =>
        if argument == "help" then readHelp rest
        else
          let options := globalOptions ++ [.version]
          let taken : Except Stop Taken := match argument.toList with
            | ['-', '-'] => .error .mistake
            | '-' :: '-' :: text => takeLong options outer text
            | '-' :: c :: text => takeShort options outer (c :: text)
            | _ => .error .mistake
          match taken with
          | .ok (.complete outer) => readOuter outer none rest
          | .ok (.waiting outer name) => readOuter outer (some name) rest
          | .error .help => .help
          | .error .version => .version
          | .error .mistake => .mistake

/-- What some arguments ask for. -/
def Invocation.ofArguments (arguments : List String) : Invocation :=
  readOuter ⟨[], []⟩ none arguments

end VirtualModules.CommandLine
