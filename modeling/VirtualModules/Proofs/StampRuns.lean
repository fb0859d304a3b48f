import Mathlib.Data.List.Induction
import VirtualModules.Proofs.ArtifactLines

/-!
# The run of lines that decides

The scan for a stamp keeps two values, overwrites them as it meets lines and stops at the first
line after which it has both. Read off the text as a whole: what is found stands in the shortest
run of lines from the start with a line of each kind (`ShortestRun`), and there the last line of
each kind counts (`LastValue`).

* `scanFrom_eq_some_iff`: the invariant of the scan. The two values are the last ones of the lines
  read, and these have not yet one of each kind.
* `storedSummary?_iff_shortestRun`: when a file has which summary, and that the lines after the
  run do not matter.
-/

namespace VirtualModules

namespace Stamp

/-! ## Lines with a value -/

/-- The line is exactly the name, an equals sign and the value in quotes. The value is not empty
and holds no quote. -/
structure Assigns (name : String) (line : List Char) (value : String) : Prop where
  spelled : line = (name ++ " = \"" ++ value ++ "\"").toList
  nonempty : value ≠ ""
  unquoted : '"' ∉ value.toList

theorem quotedValue?_eq_some_iff {name value : String} {line : List Char} :
    quotedValue? name line = some value.toList ↔ Assigns name line value := by
  constructor
  · intro found
    obtain ⟨rest, start, found⟩ := Option.bind_eq_some_iff.mp found
    rw [List.isPrefixOf?_eq_some_iff_append_eq] at start
    split at found
    · next closed =>
      obtain ⟨body, rfl⟩ := List.getLast?_eq_some_iff.mp closed
      simp only [List.dropLast_concat] at found
      split at found
      · cases found
      · next accepted =>
        obtain rfl := Option.some.inj found
        simp only [Bool.or_eq_true, List.isEmpty_iff, List.contains_iff_mem, not_or] at accepted
        refine ⟨?_, ?_, accepted.2⟩
        · simp [← start]
        · intro empty
          exact accepted.1 (by simp [empty])
    · cases found
  · intro assigns
    rw [assigns.spelled]
    exact quotedValue?_quoted assigns.nonempty assigns.unquoted

theorem exists_assigns_iff {name : String} {line : List Char} :
    (∃ value, Assigns name line value) ↔ (quotedValue? name line).isSome := by
  rw [Option.isSome_iff_exists]
  constructor
  · intro ⟨value, assigns⟩
    exact ⟨value.toList, quotedValue?_eq_some_iff.mpr assigns⟩
  · intro ⟨value, found⟩
    refine ⟨String.ofList value, quotedValue?_eq_some_iff.mp ?_⟩
    rw [found, String.toList_ofList]

/-! ## The last value of a run -/

/-- The last line of the run that has a value for the name has this one. -/
def LastValue (name : String) (run : List (List Char)) (value : String) : Prop :=
  ∃ before line after, run = before ++ line :: after ∧ Assigns name line value ∧
    ∀ later ∈ after, ∀ other, ¬ Assigns name later other

/-- Computes `LastValue`. -/
def lastValue? (name : String) (run : List (List Char)) : Option (List Char) :=
  (run.filterMap (quotedValue? name)).getLast?

section Values

variable {name value : String} {run : List (List Char)}

/-- A line that has a value replaces the one met before. -/
theorem lastValue?_concat (name : String) (run : List (List Char)) (line : List Char) :
    lastValue? name (run ++ [line]) = (quotedValue? name line <|> lastValue? name run) := by
  rw [lastValue?, List.filterMap_append, List.getLast?_append]
  cases found : quotedValue? name line with
  | none => simp [found, lastValue?]
  | some value => simp [found]

theorem lastValue?_eq_none_iff :
    lastValue? name run = none ↔ ∀ line ∈ run, ∀ value, ¬ Assigns name line value := by
  rw [lastValue?, List.getLast?_eq_none_iff, List.filterMap_eq_nil_iff]
  refine forall₂_congr fun line _ => ?_
  rw [← not_exists, exists_assigns_iff, Bool.not_eq_true, Option.isSome_eq_false_iff,
    Option.isNone_iff_eq_none]

theorem exists_mem_iff :
    (∃ line ∈ run, ∃ value, Assigns name line value) ↔ (lastValue? name run).isSome := by
  rw [Option.isSome_iff_ne_none, ne_eq, lastValue?_eq_none_iff]
  simp only [not_forall, not_not, exists_prop]

theorem lastValue?_append_of_none {after : List (List Char)} (run : List (List Char))
    (nothing : lastValue? name after = none) :
    lastValue? name (run ++ after) = lastValue? name run := by
  rw [lastValue?, List.getLast?_eq_none_iff] at nothing
  rw [lastValue?, List.filterMap_append, nothing, List.append_nil, lastValue?]

theorem lastValue?_eq_some_iff :
    lastValue? name run = some value.toList ↔ LastValue name run value := by
  constructor
  · intro found
    induction run using List.reverseRecOn with
    | nil => cases found
    | append_singleton run line ih =>
      rw [lastValue?_concat] at found
      cases here : quotedValue? name line with
      | some other =>
        rw [here] at found
        have assigns : Assigns name line value := by
          rw [← quotedValue?_eq_some_iff, here]
          exact found
        exact ⟨run, line, [], rfl, assigns, by simp⟩
      | none =>
        rw [here] at found
        obtain ⟨before, last, after, rfl, assigns, nothing⟩ := ih found
        refine ⟨before, last, after ++ [line], by simp, assigns, ?_⟩
        rw [← lastValue?_eq_none_iff, lastValue?_concat, here]
        exact lastValue?_eq_none_iff.mpr nothing
  · intro ⟨before, line, after, parts, assigns, nothing⟩
    rw [parts, List.append_cons, lastValue?_append_of_none _ (lastValue?_eq_none_iff.mpr nothing),
      lastValue?_concat, quotedValue?_eq_some_iff.mpr assigns]
    rfl

instance : Decidable (LastValue name run value) :=
  decidable_of_iff _ lastValue?_eq_some_iff

end Values

/-! ## Runs with both values -/

/-- Some line of the run names a module, and some line a summary. -/
structure Complete (run : List (List Char)) : Prop where
  module : ∃ line ∈ run, ∃ value, Assigns "mod" line value
  summary : ∃ line ∈ run, ∃ value, Assigns "summary" line value

/-- Of the runs of lines from the start that are complete this is the shortest. -/
structure ShortestRun (lines run : List (List Char)) : Prop where
  initial : run <+: lines
  complete : Complete run
  shortest : ∀ other, other <+: lines → Complete other → run.length ≤ other.length

/-- The stamp of a run is made of its last values. -/
def ofRun? (run : List (List Char)) : Option Stamp :=
  match lastValue? "mod" run, lastValue? "summary" run with
  | some module, some summary => some ⟨module, summary⟩
  | _, _ => none

section Runs

variable {lines run run' seen : List (List Char)} {line : List Char} {stamp : Stamp}

theorem not_complete_nil : ¬ Complete [] := by
  intro complete
  obtain ⟨line, mem, -⟩ := complete.module
  cases mem

theorem Complete.of_prefix (complete : Complete run) (starts : run <+: run') : Complete run' := by
  obtain ⟨⟨l, mem_l, module⟩, ⟨k, mem_k, summary⟩⟩ := complete
  exact ⟨⟨l, starts.subset mem_l, module⟩, ⟨k, starts.subset mem_k, summary⟩⟩

theorem ofRun?_eq_some_iff : ofRun? run = some stamp ↔
    lastValue? "mod" run = some stamp.module ∧ lastValue? "summary" run = some stamp.summary := by
  obtain ⟨stated, text⟩ := stamp
  rw [ofRun?]
  cases lastValue? "mod" run with
  | none => simp
  | some module =>
    cases lastValue? "summary" run with
    | none => simp
    | some summary => simp

theorem ofRun?_eq_some_iff_lastValue {module summary : String} :
    ofRun? run = some ⟨module.toList, summary.toList⟩ ↔
      LastValue "mod" run module ∧ LastValue "summary" run summary := by
  rw [ofRun?_eq_some_iff, lastValue?_eq_some_iff, lastValue?_eq_some_iff]

theorem complete_iff : Complete run ↔ (ofRun? run).isSome := by
  rw [Option.isSome_iff_exists]
  constructor
  · intro complete
    obtain ⟨module, stated⟩ := Option.isSome_iff_exists.mp (exists_mem_iff.mp complete.module)
    obtain ⟨summary, text⟩ := Option.isSome_iff_exists.mp (exists_mem_iff.mp complete.summary)
    exact ⟨⟨module, summary⟩, ofRun?_eq_some_iff.mpr ⟨stated, text⟩⟩
  · intro ⟨stamp, found⟩
    obtain ⟨stated, text⟩ := ofRun?_eq_some_iff.mp found
    refine ⟨exists_mem_iff.mpr ?_, exists_mem_iff.mpr ?_⟩
    · rw [stated, Option.isSome_some]
    · rw [text, Option.isSome_some]

instance : Decidable (Complete run) :=
  decidable_of_iff _ complete_iff.symm

/-- The last line of a shortest run is the first that makes it complete. -/
theorem shortestRun_concat {rest : List (List Char)} (open_end : ¬ Complete seen)
    (complete : Complete (seen ++ [line])) :
    ShortestRun (seen ++ line :: rest) (seen ++ [line]) where
  initial := ⟨rest, by simp⟩
  complete := complete
  shortest := by
    intro other starts whole
    by_contra shorter
    have within : other.length ≤ seen.length := by
      rw [List.length_append, List.length_singleton] at shorter
      omega
    have before : other <+: seen :=
      List.prefix_of_prefix_length_le starts (List.prefix_append _ _) within
    exact open_end (whole.of_prefix before)

theorem ShortestRun.unique (first : ShortestRun lines run) (second : ShortestRun lines run') :
    run = run' := by
  have shorter := first.shortest run' second.initial second.complete
  have starts := List.prefix_of_prefix_length_le first.initial second.initial shorter
  exact starts.eq_of_length_le (second.shortest run first.initial first.complete)

theorem exists_shortestRun_iff :
    (∃ run, ShortestRun lines run) ↔ ∃ run, run <+: lines ∧ Complete run := by
  constructor
  · intro ⟨run, short⟩
    exact ⟨run, short.initial, short.complete⟩
  · intro ⟨run, starts, complete⟩
    -- Lines are taken off the end of the run as long as it stays complete.
    induction run using List.reverseRecOn with
    | nil => exact absurd complete not_complete_nil
    | append_singleton seen line ih =>
      by_cases enough : Complete seen
      · exact ih ((List.prefix_append _ _).trans starts) enough
      · obtain ⟨rest, rfl⟩ := starts
        rw [List.append_assoc, List.singleton_append]
        exact ⟨_, shortestRun_concat enough complete⟩

/-- What comes after the shortest run does not matter. -/
theorem ShortestRun.of_prefix {lines' : List (List Char)} (short : ShortestRun lines run)
    (starts : run <+: lines') : ShortestRun lines' run where
  initial := starts
  complete := short.complete
  shortest := by
    intro other within complete
    by_contra shorter
    have before : other <+: run := List.prefix_of_prefix_length_le within starts (by omega)
    exact shorter (short.shortest other (before.trans short.initial) complete)

/-! ## The scan -/

/-- A line is read: its values replace those met before, and the scan ends if both are there. -/
theorem scanFrom_cons (seen rest : List (List Char)) (line : List Char) :
    scanFrom (lastValue? "mod" seen) (lastValue? "summary" seen) (line :: rest) =
      (ofRun? (seen ++ [line]) <|> scanFrom (lastValue? "mod" (seen ++ [line]))
        (lastValue? "summary" (seen ++ [line])) rest) := by
  rw [scanFrom, ← lastValue?_concat, ← lastValue?_concat, ofRun?]
  cases lastValue? "mod" (seen ++ [line]) with
  | none => rfl
  | some module => cases lastValue? "summary" (seen ++ [line]) <;> rfl

/-- The scan goes on with the last values of the lines read, as long as one of them is missing. -/
theorem scanFrom_eq_some_iff (open_end : ¬ Complete seen) :
    scanFrom (lastValue? "mod" seen) (lastValue? "summary" seen) lines = some stamp ↔
      ∃ run, ShortestRun (seen ++ lines) run ∧ ofRun? run = some stamp := by
  induction lines generalizing seen with
  | nil =>
    rw [List.append_nil, scanFrom]
    constructor
    · intro found
      cases found
    · rintro ⟨run, short, -⟩
      exact absurd (short.complete.of_prefix short.initial) open_end
  | cons line rest ih =>
    rw [scanFrom_cons]
    cases met : ofRun? (seen ++ [line]) with
    | some here =>
      have short : ShortestRun (seen ++ line :: rest) (seen ++ [line]) :=
        shortestRun_concat open_end (by rw [complete_iff, met, Option.isSome_some])
      constructor
      · intro found
        exact ⟨seen ++ [line], short, met.trans found⟩
      · rintro ⟨run, other, found⟩
        rw [other.unique short, met] at found
        exact found
    | none =>
      have still : ¬ Complete (seen ++ [line]) := by
        rw [complete_iff, met]
        exact Bool.false_ne_true
      have later := ih still
      rw [List.append_assoc, List.singleton_append] at later
      exact later

theorem scan_eq_some_iff {text : String} : scan text = some stamp ↔
    ∃ run, ShortestRun (textLines text.toList) run ∧ ofRun? run = some stamp :=
  scanFrom_eq_some_iff not_complete_nil

theorem ShortestRun.scan_eq {text : String} (short : ShortestRun (textLines text.toList) run) :
    scan text = ofRun? run := by
  obtain ⟨stamp, stated⟩ := Option.isSome_iff_exists.mp (complete_iff.mp short.complete)
  rw [stated, scan_eq_some_iff]
  exact ⟨run, short, stated⟩

end Runs

end Stamp

/-! ## Stored summaries -/

open Stamp

/-- A text file with the extension of artifacts has a summary if and only if some run of its lines
from the start has a line with a module and a line with a summary, and the last module of the
shortest such run is a path that the resolver knows: the last summary of that run. A file whose
lines start with the same run has the same summary, for modules that are known alike. -/
theorem storedSummary?_iff_shortestRun {t : FileTree} {names : Location} {extension text : String}
    (resolver : Resolver) (read : t.read? names = some (.ofText text))
    (named : (fileName? names).bind extension? = some extension) :
    (∀ summary, storedSummary? t resolver extension names = some summary ↔
      ∃ run, ShortestRun (textLines text.toList) run ∧
        (∃ value module, LastValue "mod" run value ∧ ImportPath.ofString value = .ok module ∧
          resolver t module = true) ∧
        LastValue "summary" run summary) ∧
    ((∃ run, ShortestRun (textLines text.toList) run) ↔
      ∃ run, run <+: textLines text.toList ∧ Complete run) ∧
    ∀ run, ShortestRun (textLines text.toList) run → ∀ t' names' text',
      t'.read? names' = some (.ofText text') →
      (fileName? names').bind extension? = some extension → run <+: textLines text'.toList →
      resolver t' = resolver t →
      storedSummary? t' resolver extension names' = storedSummary? t resolver extension names := by
  rw [storedSummary?_of_text resolver read named]
  refine ⟨fun summary => ?_, exists_shortestRun_iff, ?_⟩
  · rw [summaryOf?_eq_some_iff]
    constructor
    · intro ⟨stamp, module, scanned, path, known, same⟩
      obtain ⟨run, short, stated⟩ := scan_eq_some_iff.mp scanned
      have last : LastValue "mod" run (String.ofList stamp.module) ∧
          LastValue "summary" run summary := by
        rw [same, ← ofRun?_eq_some_iff_lastValue]
        simpa using stated
      exact ⟨run, short, ⟨_, module, last.1, path, known⟩, last.2⟩
    · intro ⟨run, short, ⟨value, module, last, path, known⟩, last_summary⟩
      have scanned : scan text = some ⟨value.toList, summary.toList⟩ := by
        rw [short.scan_eq, ofRun?_eq_some_iff_lastValue]
        exact ⟨last, last_summary⟩
      exact ⟨_, module, scanned, by simpa using path, known, by simp⟩
  · intro run short t' names' text' read' named' starts alike
    have same : scan text' = scan text := by
      rw [short.scan_eq, (short.of_prefix starts).scan_eq]
    rw [storedSummary?_of_text resolver read' named', alike, summaryOf?, same, summaryOf?]

namespace Stamp

/-- Two summaries among lines that have no value, for they are indented, without quotes, empty, with
a quote inside or of another name. -/
def openLines : List String :=
  ["summary = \"first\"", "  mod = \"shop\"", "mod = shop", "mod = \"\"", "summary = \"a\"b\"",
    "summary = \"second\"", "module = \"shop\""]

def closingLine : String := "mod = \"shop.models\""

def laterLines : List String := ["summary = \"third\"", "mod = \"gone\""]

/-- The open lines, the line that has the module and others. -/
def retold (later : List String) : String :=
  String.join ((openLines ++ closingLine :: later).map (· ++ "\n"))

/-- A tree with this text in its one file. -/
def retoldTree (later : List String) : FileTree :=
  ((∅ : FileTree).put? ["stored.py"] (.file (.ofText (retold later)))).getD ∅

theorem textLines_retold {later : List String} (unbroken : ∀ line ∈ later, OneLine line) :
    textLines (retold later).toList =
      openLines.map String.toList ++ closingLine.toList :: later.map String.toList := by
  have each : ∀ line ∈ openLines ++ closingLine :: later, OneLine line := by
    intro line mem
    rw [List.append_cons, List.mem_append] at mem
    rcases mem with first | last
    · revert line
      decide
    · exact unbroken line last
  rw [retold, textLines_join_ended each, List.map_append, List.map_cons]

theorem shortestRun_retold {later : List String} (unbroken : ∀ line ∈ later, OneLine line) :
    ShortestRun (textLines (retold later).toList)
      (openLines.map String.toList ++ [closingLine.toList]) := by
  have open_end : ¬ Complete (openLines.map String.toList) := by decide
  rw [textLines_retold unbroken]
  exact shortestRun_concat open_end (by decide)

def onlyShop : Resolver := .ofNames fun p => decide (p.text = "shop.models")

end Stamp

/-- Of the summaries before the module the second is found, and it makes no difference that a third
one follows. -/
theorem second_of_retold :
    ((retoldTree laterLines).read? ["stored.py"] = some (.ofText (retold laterLines)) ∧
      (fileName? ["stored.py"]).bind extension? = some "py") ∧
    storedSummary? (retoldTree laterLines) onlyShop "py" ["stored.py"] = some "second" ∧
    storedSummary? (retoldTree []) onlyShop "py" ["stored.py"] =
      storedSummary? (retoldTree laterLines) onlyShop "py" ["stored.py"] := by
  have named : (fileName? ["stored.py"]).bind extension? = some "py" := by decide
  have read : (retoldTree laterLines).read? ["stored.py"] = some (.ofText (retold laterLines)) :=
    rfl
  have read_first : (retoldTree []).read? ["stored.py"] = some (.ofText (retold [])) := rfl
  have short := shortestRun_retold (show ∀ line ∈ laterLines, OneLine line by decide)
  have starts := (shortestRun_retold (show ∀ line ∈ [], OneLine line by decide)).initial
  have path : ImportPath.ofString "shop.models" = .ok ⟨"shop.models", by decide⟩ := rfl
  obtain ⟨found, -, same⟩ := storedSummary?_iff_shortestRun onlyShop read named
  refine ⟨⟨read, named⟩, ?_, ?_⟩
  · rw [found "second"]
    exact ⟨_, short, ⟨"shop.models", _, by decide, path, by decide⟩, by decide⟩
  · exact same _ short _ _ _ read_first named starts rfl

end VirtualModules
