import VirtualModules.Json
import VirtualModules.Text.Reader

/-!
# Reading JSON

The strict grammar: no comments, no trailing commas, no leading zeros, control characters only
as escapes, and nothing but blanks around the one value (`Json.ofText?`).
-/

namespace VirtualModules.Json

open Reader

def isBlank (c : Char) : Bool := c == ' ' || c == '\t' || c == '\n' || c == '\r'

def blanks : Reader Unit := do let _ ← takeWhile isBlank

def isHexDigit (c : Char) : Bool :=
  c.isDigit || ('a' ≤ c && c ≤ 'f') || ('A' ≤ c && c ≤ 'F')

/-- The number that a hexadecimal digit stands for. -/
def hexValue (c : Char) : Nat :=
  if c.isDigit then c.toNat - 48 else if 'a' ≤ c then c.toNat - 87 else c.toNat - 55

def hexNumber (digits : List Char) : Nat := digits.foldl (fun n c => 16 * n + hexValue c) 0

/-- A piece of a string: a character, or the code unit that an escape names by number. -/
inductive Piece where
  | char (c : Char)
  | unit (n : Nat)

/-- The text of the pieces. A code unit of the upper surrogates needs one of the lower ones right
after it, and the two name one character. -/
def joinPieces : List Piece → Option (List Char)
  | [] => some []
  | .char c :: rest => (joinPieces rest).map (c :: ·)
  | .unit n :: rest =>
    if 0xD800 ≤ n ∧ n < 0xDC00 then
      match rest with
      | .unit m :: rest' =>
        if 0xDC00 ≤ m ∧ m < 0xE000 then
          (joinPieces rest').map
            (Char.ofNat (0x10000 + (n - 0xD800) * 0x400 + (m - 0xDC00)) :: ·)
        else none
      | _ => none
    else if 0xDC00 ≤ n ∧ n < 0xE000 then none
    else (joinPieces rest).map (Char.ofNat n :: ·)

/-- What follows a backslash. -/
def escaped : Reader Piece := do
  match ← next with
  | '"' => return .char '"'
  | '\\' => return .char '\\'
  | '/' => return .char '/'
  | 'b' => return .char '\x08'
  | 'f' => return .char '\x0c'
  | 'n' => return .char '\n'
  | 'r' => return .char '\r'
  | 't' => return .char '\t'
  | 'u' => return .unit (hexNumber (← times 4 isHexDigit))
  | _ => failure

/-- One piece of a string; a quote ends it and control characters are refused. -/
def piece : Reader Piece := do
  let c ← satisfy fun c => c != '"' && 0x20 ≤ c.toNat
  if c == '\\' then escaped else return .char c

/-- A string from its opening to its closing quote. -/
def stringLiteral (rounds : Nat) : Reader (Option String) := do
  char '"'
  let pieces ← many rounds piece
  char '"'
  return (joinPieces pieces).map String.ofList

/-- The digits before the point: zero, or a run that does not start with it. -/
def wholeDigits : Reader (List Char) := do
  let c ← satisfy Char.isDigit
  if c == '0' then return [c] else return c :: (← takeWhile Char.isDigit)

def fraction : Reader (List Char) := do
  char '.'
  return '.' :: (← takeWhile1 Char.isDigit)

def exponent : Reader (List Char) := do
  let e ← satisfy fun c => c == 'e' || c == 'E'
  let sign ← optional (satisfy fun c => c == '+' || c == '-')
  return e :: sign.toList ++ (← takeWhile1 Char.isDigit)

/-- A number, kept as its text. -/
def numberLiteral : Reader Json := do
  let sign ← optional (satisfy (· == '-'))
  let whole ← wholeDigits
  let part ← match ← peek? with
    | some '.' => fraction
    | _ => pure []
  let power ← match ← peek? with
    | some 'e' | some 'E' => exponent
    | _ => pure []
  return .number (String.ofList (sign.toList ++ whole ++ part ++ power))

/-- Items behind one another with commas between, up to a closing bracket. -/
def items {α : Type} (close : Char) (item : Reader α) : (rounds : Nat) → Reader (List α)
  | 0 => failure
  | rounds + 1 => do
    let a ← item
    blanks
    let c ← next
    if c == close then return [a]
    else if c == ',' then return a :: (← items close item rounds)
    else failure

/-- Bracketed items, possibly none. -/
def bracketed {α : Type} (close : Char) (item : Reader α) (rounds : Nat) : Reader (List α) := do
  blanks
  match ← peek? with
  | some c =>
    if c == close then
      let _ ← next
      return []
    else items close item rounds
  | none => failure

/-- A value nested at most `depth` deep. -/
def value (rounds : Nat) : (depth : Nat) → Reader Json
  | 0 => failure
  | depth + 1 => do
    blanks
    match ← peek? with
    | some '"' => return .string (← stringLiteral rounds)
    | some '[' =>
      char '['
      return .array (← bracketed ']' (value rounds depth) rounds)
    | some '{' =>
      char '\x7b'
      return .object (← bracketed '\x7d' (member rounds (value rounds depth)) rounds)
    | some 't' => do literal "true"; return .boolean true
    | some 'f' => do literal "false"; return .boolean false
    | some 'n' => do literal "null"; return .null
    | some _ => numberLiteral
    | none => failure
where
  /-- A name, a colon and a value. -/
  member (rounds : Nat) (item : Reader Json) : Reader (Option String × Json) := do
    blanks
    let name ← stringLiteral rounds
    blanks
    char ':'
    return (name, ← item)

/-- The value that a document holds, if it is well formed. -/
def ofText? (s : String) : Option Json :=
  let cs := s.toList
  let rounds := cs.length + 1
  readAll (do let v ← value rounds rounds; blanks; return v) cs

end VirtualModules.Json
