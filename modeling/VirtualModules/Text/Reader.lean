/-!
# Readers of text

A `Reader` takes characters from the front of a text and may refuse. Readers compose as a state
monad over `Option`; a refused alternative gives its characters back. Loops run on a count that
bounds their rounds, for which the length of the text always suffices.
-/

namespace VirtualModules

/-- Reads a value from the front of a text and leaves the rest. -/
abbrev Reader (α : Type) := StateT (List Char) Option α

namespace Reader

variable {α β : Type}

/-- Runs a reader that has to use up the whole text. -/
def readAll (r : Reader α) (text : List Char) : Option α :=
  match r.run text with
  | some (a, []) => some a
  | _ => none

/-- The next character, which stays. -/
def peek? : Reader (Option Char) := fun cs => some (cs.head?, cs)

/-- The next character. -/
def next : Reader Char
  | [] => none
  | c :: rest => some (c, rest)

/-- One character that passes a test. -/
def satisfy (test : Char → Bool) : Reader Char
  | [] => none
  | c :: rest => if test c then some (c, rest) else none

def char (c : Char) : Reader Unit := do let _ ← satisfy (· == c)

/-- A fixed text. -/
def literal (s : String) : Reader Unit := fun cs =>
  (s.toList.isPrefixOf? cs).map fun rest => ((), rest)

/-- The longest run of characters that pass a test. -/
def takeWhile (test : Char → Bool) : Reader (List Char) := fun cs =>
  some (cs.takeWhile test, cs.dropWhile test)

/-- The longest run of characters that pass a test, which must not be empty. -/
def takeWhile1 (test : Char → Bool) : Reader (List Char) := do
  let c ← satisfy test
  return c :: (← takeWhile test)

/-- Exactly `count` characters that pass a test. -/
def times : (count : Nat) → (Char → Bool) → Reader (List Char)
  | 0, _ => return []
  | count + 1, test => do
    let c ← satisfy test
    return c :: (← times count test)

/-- Repeats a reader until it refuses, at most `rounds` times. -/
def many : (rounds : Nat) → Reader α → Reader (List α)
  | 0, _ => return []
  | rounds + 1, r => do
    match ← optional r with
    | none => return []
    | some a => return a :: (← many rounds r)

/-- Nothing is left. -/
def atEnd : Reader Unit
  | [] => some ((), [])
  | _ :: _ => none

end Reader

end VirtualModules
