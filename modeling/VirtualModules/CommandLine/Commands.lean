import VirtualModules.CommandLine.Project
import VirtualModules.Json.Printing

/-!
# Commands

Every command is a function on the file tree of the machine (`run`): it answers with an exit
code, what it prints and what it reports as an error, and only `generate` leaves another tree.
Exit code 2 is for mistakes in the arguments, 1 for everything else that went wrong.
-/

namespace VirtualModules.CommandLine

/-- What a run of the program leaves on the console. -/
structure Console where
  code : Nat
  output : String
  errors : String
  deriving DecidableEq, Repr

/-- Lines as a text, each ended by a line feed. -/
def joinLines (lines : List String) : String := String.join (lines.map (· ++ "\n"))

def Console.ofOutput (code : Nat) (lines : List String) : Console := ⟨code, joinLines lines, ""⟩

/-- A failure after some lines on the progress so far. -/
def Console.ofError (progress : List String) (e : CommandError) : Console :=
  ⟨1, "", joinLines (progress ++ ["error: " ++ e.message])⟩

/-- An answer, or the console of the failure. -/
def Console.ofExcept : Except CommandError Console → Console
  | .ok console => console
  | .error e => .ofError [] e

def readPaths (texts : List String) : Except CommandError (List ImportPath) :=
  (texts.mapM ImportPath.ofString).mapError .invalidPath

def readPath (text : String) : Except CommandError ImportPath :=
  (ImportPath.ofString text).mapError .invalidPath

/-! ## Generating -/

def readSnapshot (t : FileTree) (directory : Location) (path : FilePath) :
    Except CommandError Snapshot := do
  let text ← (readText t directory path).mapError (.unreadableSnapshot path)
  (Snapshot.ofText text).mapError .model

/-- The outcome of a pass as a JSON document. -/
def outcomeJson (p : Project) (o : PassOutcome) : Json :=
  let paths (l : List Location) : Json := .array (l.map fun loc => .text (p.pathOf loc).text)
  .record [
    ("version", .text o.combined.version),
    ("modules", .ofInt o.combined.report.virtualModules.size),
    ("install", .record [
      ("installed", paths o.install.installed),
      ("unchanged", paths o.install.unchanged),
      ("removed", paths o.install.removed)]),
    ("failures", .array (o.failures.map fun f => .record [
      ("module", .text f.module.text), ("error", .text f.error.message)]))]

/-- The outcome of a pass in one line. -/
def outcomeLine (o : PassOutcome) : String :=
  "    Finished " ++ toString o.combined.report.virtualModules.size ++ " module(s): " ++
    toString o.install.installed.length ++ " installed, " ++
    toString o.install.unchanged.length ++ " unchanged, " ++
    toString o.install.removed.length ++ " removed, " ++
    toString o.failures.length ++ " failed (version " ++ o.combined.version ++ ")"

def failureLine (f : Failure) : String := "error: " ++ f.module.text ++ ": " ++ f.error.message

/-- What a finished pass prints; modules that failed make its exit code 1. -/
def outcomeConsole (p : Project) (quiet : Bool) (format : OutputFormat) (progress : List String)
    (o : PassOutcome) : Console :=
  let code := if o.failures.isEmpty then 0 else 1
  match format with
  | .text =>
    ⟨code, "", joinLines (progress ++ o.failures.map failureLine ++
      if quiet then [] else [outcomeLine o])⟩
  | .json => ⟨code, joinLines [(outcomeJson p o).pretty], joinLines progress⟩

def passError (p : Project) : PassError → CommandError
  | .disk e => .disk (p.pathOf e.location)
  | .conflict c => .conflict c

/-- Generates and installs the artifacts of a snapshot. -/
def generate (t : FileTree) (p : Project) (quiet : Bool) (models : String)
    (format : OutputFormat) (token : String) : FileTree × Console :=
  let progress :=
    if quiet || format == .json then [] else ["  Generating " ++ p.config.name]
  match readSnapshot t p.directory ⟨models⟩ with
  | .error e => (t, .ofError progress e)
  | .ok snapshot =>
    let resolver := passResolver p.settings.extension snapshot p.searchRoots
    match (Generator.ofSettings p.settings token).runPass snapshot p.destination resolver t with
    | .error e t' => (t', .ofError progress (passError p e))
    | .ok outcome t' => (t', outcomeConsole p quiet format progress outcome)

/-! ## Dependencies -/

def depLine (d : Dep) : String :=
  let priority := toString d.priority
  String.ofList (List.replicate (4 - priority.length) ' ') ++ priority ++ "  " ++ d.module.text

def depJson (d : Dep) : Json :=
  .record [("priority", .ofInt d.priority), ("module", .text d.module.text),
    ("line", .ofInt d.line)]

/-- Prints what a module depends on beyond its own imports. -/
def deps (t : FileTree) (p : Project) (module : String) (imports : List String)
    (format : OutputFormat) : Except CommandError Console := do
  let combined ← p.loadReport t
  let request : DepsRequest := {
    file := ← readPath module
    imports := ← readPaths imports
    superDeps := []
    settingsModule := p.settings.settingsModule }
  let deps := combined.report.additionalDeps request p.settings.closureSettings
  return .ofOutput 0 <|
    match format with
    | .text => deps.map depLine
    | .json => [(Json.array (deps.map depJson)).pretty]

/-! ## Aliases -/

/-- The two aliases of a model, as far as there are any. -/
structure Aliases where
  concrete : Option ImportPath
  queryset : Option ImportPath
  deriving DecidableEq

/-- Answers requests for models one after the other. Each answer is taken out of its table, so there
is none left for a model that is requested again. -/
def answerRequests (concrete queryset : Table ImportPath (Option ImportPath)) :
    (models : List ImportPath) → List (ImportPath × Aliases)
  | [] => []
  | model :: rest =>
    (model, ⟨(concrete.get? model).join, (queryset.get? model).join⟩) ::
      answerRequests (concrete.erase model) (queryset.erase model) rest

/-- The aliases of each requested model; of several answers to one model the last one counts. -/
def aliasTable (r : Report) (models : List ImportPath) : Table ImportPath Aliases :=
  .ofList (answerRequests (Report.lookup r.concreteAliases models)
    (Report.lookup r.querysetAliases models) models)

def aliasText : Option ImportPath → String
  | some p => p.text
  | none => "-"

def aliasJson (a : Aliases) : Json :=
  .record [("concrete", .ofOption (a.concrete.map (·.text))),
    ("queryset", .ofOption (a.queryset.map (·.text)))]

/-- The exit code is 0 if every model has an alias of its descendants. -/
def aliasCode (table : Table ImportPath Aliases) : Nat :=
  if table.values.all (·.concrete.isSome) then 0 else 1

/-- Prints the aliases of models. -/
def aliases (t : FileTree) (p : Project) (models : List String) (format : OutputFormat) :
    Except CommandError Console := do
  let combined ← p.loadReport t
  let table := aliasTable combined.report (← readPaths models)
  return .ofOutput (aliasCode table) <|
    match format with
    | .text => table.entries.flatMap fun (model, a) =>
      [model.text,
        "    concrete: " ++ aliasText a.concrete,
        "    queryset: " ++ aliasText a.queryset]
    | .json => [(Json.record (table.entries.map fun (m, a) => (m.text, aliasJson a))).pretty]

/-! ## Summaries -/

/-- Knows the modules of the last pass and those below the search paths. -/
def liveModules (t : FileTree) (p : Project) : Resolver :=
  let generated := (VirtualModules.loadReport t p.destination).map (·.report.virtualModules.keys)
  (Resolver.ofSet (.ofList (generated.getD []))).either
    (.ofSearchPaths p.searchRoots p.settings.extension)

/-- Prints the summary that an artifact states. -/
def summary (t : FileTree) (p : Project) (artifact : String) : Console :=
  let stored := (namesFrom p.directory ⟨artifact⟩).bind
    (storedSummary? t (liveModules t p) p.settings.extension ·)
  .ofOutput 0 [stored.getD "None"]

/-! ## The program -/

def versionLine : String := "vdep " ++ Stored.programVersion

def helpLines : List String := [
  "Virtual dependency generator",
  "",
  "Usage: vdep [OPTIONS] <COMMAND>",
  "",
  "Commands:",
  "  generate  Generate and install artifacts for every module of a snapshot",
  "  deps      Print the dependencies a module must be re-checked against",
  "  aliases   Print the concrete and queryset aliases of models",
  "  summary   Print the summary recorded in an artifact",
  "",
  "Options:",
  "  -q, --quiet            Suppress all output except errors",
  "  -v, --verbose          Enable verbose output",
  "      --config <CONFIG>  Path to a custom vdep.toml configuration file",
  "  -h, --help             Print help",
  "  -V, --version          Print version"]

def mistakeLines : List String :=
  ["error: invalid arguments", "", "For more information, try '--help'."]

/-- Runs a command of a loaded project. -/
def runCommand (t : FileTree) (p : Project) (options : GlobalOptions) (token : String) :
    Command → FileTree × Console
  | .generate models format => generate t p options.quiet models format token
  | .deps module imports format => (t, .ofExcept (deps t p module imports format))
  | .aliases models format => (t, .ofExcept (aliases t p models format))
  | .summary artifact => (t, summary t p artifact)

/-- Runs the program in a working directory, in a process with a token. -/
def run (t : FileTree) (directory : Location) (arguments : List String) (token : String) :
    FileTree × Console :=
  match Invocation.ofArguments arguments with
  | .help => (t, .ofOutput 0 helpLines)
  | .version => (t, .ofOutput 0 [versionLine])
  | .mistake => (t, ⟨2, "", joinLines mistakeLines⟩)
  | .run options command =>
    match Project.load t directory options.config with
    | .error e => (t, .ofError [] e)
    | .ok project => runCommand t project options token command

end VirtualModules.CommandLine
