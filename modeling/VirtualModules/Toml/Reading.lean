import VirtualModules.Toml
import VirtualModules.Text.Reader
import VirtualModules.Json.Reading

/-!
# Reading TOML

The grammar of TOML 1.0. Arrays and inline tables nest, and dotted keys reach, less than
`nestingLimit` deep. Whole numbers fit in 64 bits, and a positive float that rounds to infinity
is refused.
-/

namespace VirtualModules.Toml

open Reader

def nestingLimit : Nat := 80

/-! ## Characters and blanks -/

def isBlank (c : Char) : Bool := c == ' ' || c == '\t'

def blanks : Reader Unit := do let _ ← takeWhile isBlank

/-- A character that may stand in a comment: no control character but the tab. -/
def isPlain (c : Char) : Bool := c == '\t' || (0x20 ≤ c.toNat && c.toNat != 0x7F)

/-- A line feed, perhaps after a carriage return. -/
def newline : Reader Unit := do
  let _ ← optional (char '\r')
  char '\n'

def comment : Reader Unit := do
  char '#'
  let _ ← takeWhile isPlain

/-- What may follow a statement on its line. -/
def lineRest : Reader Unit := do
  blanks
  let _ ← optional comment
  newline <|> atEnd

/-- Blanks, line ends and comments, as between the items of an array. -/
def gap (rounds : Nat) : Reader Unit := do
  let _ ← many rounds
    ((do let _ ← takeWhile1 isBlank) <|> newline <|> (do comment; newline))

/-! ## Strings -/

/-- What follows a backslash. -/
def escaped : Reader Char := do
  match ← next with
  | 'b' => return '\x08'
  | 't' => return '\t'
  | 'n' => return '\n'
  | 'f' => return '\x0c'
  | 'r' => return '\r'
  | '"' => return '"'
  | '\\' => return '\\'
  | 'u' => scalar 4
  | 'U' => scalar 8
  | _ => failure
where
  /-- A character by its number, which must be no surrogate. -/
  scalar (digits : Nat) : Reader Char := do
    let n := Json.hexNumber (← times digits Json.isHexDigit)
    if n.isValidChar then return Char.ofNat n else failure

/-- A character between double quotes. -/
def basicChar : Reader Char := do
  let c ← satisfy fun c => isPlain c && c != '"'
  if c == '\\' then escaped else return c

def basicString (rounds : Nat) : Reader (List Char) := do
  char '"'
  let cs ← many rounds basicChar
  char '"'
  return cs

def literalString : Reader (List Char) := do
  char '\''
  let cs ← takeWhile fun c => isPlain c && c != '\''
  char '\''
  return cs

/-- A backslash before the end of a line, which swallows all blanks and line ends that follow. -/
def joinedLine (rounds : Nat) : Reader (List Char) := do
  char '\\'
  blanks
  newline
  let _ ← many rounds ((do let _ ← takeWhile1 isBlank) <|> newline)
  return []

/-- A line end inside a string, which counts as a line feed. -/
def innerNewline : Reader (List Char) := do
  newline
  return ['\n']

/-- One or two quotes that do not belong to the closing three. -/
def innerQuotes (quote : Char) : Reader (List Char) := fun cs =>
  let run := (cs.takeWhile (· == quote)).length
  if run = 1 ∨ run = 2 then some (cs.take run, cs.drop run) else none

/-- The closing three quotes, with up to two more before them that belong to the text. -/
def closingQuotes (quote : Char) : Reader (List Char) := fun cs =>
  let run := (cs.takeWhile (· == quote)).length
  if run < 3 then none
  else
    let inner := min 2 (run - 3)
    some (cs.take inner, cs.drop (inner + 3))

/-- A string between three quotes; a line end right after the opening ones does not count. -/
def longString (rounds : Nat) (quote : Char) (piece : Reader (List Char)) :
    Reader (List Char) := do
  char quote
  char quote
  char quote
  let _ ← optional newline
  let pieces ← many rounds (innerQuotes quote <|> piece)
  return pieces.flatten ++ (← closingQuotes quote)

def longBasicString (rounds : Nat) : Reader (List Char) :=
  longString rounds '"'
    (joinedLine rounds <|> innerNewline <|> (do return [← basicChar]))

def longLiteralString (rounds : Nat) : Reader (List Char) :=
  longString rounds '\''
    (innerNewline <|> takeWhile1 fun c => isPlain c && c != '\'')

def stringValue (rounds : Nat) : Reader Toml := do
  let cs ← longBasicString rounds <|> longLiteralString rounds <|> basicString rounds <|>
    literalString
  return .string (String.ofList cs)

/-! ## Keys -/

def isBareKeyChar (c : Char) : Bool := c.isAlphanum || c == '_' || c == '-'

def simpleKey (rounds : Nat) : Reader String := do
  blanks
  let cs ← takeWhile1 isBareKeyChar <|> basicString rounds <|> literalString
  blanks
  return String.ofList cs

/-- A key of one or more parts with dots between them: all parts but the last, and the last. -/
def key (rounds : Nat) : Reader (List String × String) := do
  let first ← simpleKey rounds
  let more ← many rounds (do char '.'; simpleKey rounds)
  let parts := first :: more
  if parts.length < nestingLimit then
    return (parts.dropLast, parts.getLast?.getD first)
  else failure

/-! ## Numbers -/

def decimalNumber (digits : List Char) : Nat :=
  digits.foldl (fun n c => 10 * n + (c.toNat - 48)) 0

/-- Digits with single underscores between them. -/
def digitRun (rounds : Nat) (isDigit : Char → Bool) : Reader (List Char) := do
  let first ← satisfy isDigit
  let more ← many rounds (do let _ ← optional (char '_'); satisfy isDigit)
  return first :: more

def sign : Reader Bool := do
  match ← optional (satisfy fun c => c == '+' || c == '-') with
  | some '-' => return true
  | _ => return false

/-- The digits of a decimal number, without leading zeros. -/
def decimalDigits (rounds : Nat) : Reader (List Char) := do
  match ← peek? with
  | some '0' => times 1 Char.isDigit
  | _ => digitRun rounds Char.isDigit

/-- A whole number of 64 bits. -/
def wholeNumber (n : Int) : Reader Toml :=
  if -9223372036854775808 ≤ n ∧ n ≤ 9223372036854775807 then return .integer n else failure

/-- The number of digits in a base below sixteen or sixteen itself. -/
def baseNumber (base : Nat) (digits : List Char) : Nat :=
  digits.foldl (fun n c => base * n + Json.hexValue c) 0

/-- A whole number after `0x`, `0o` or `0b`. -/
def basedNumber (rounds : Nat) : Reader Toml := do
  char '0'
  match ← next with
  | 'x' => wholeNumber (baseNumber 16 (← digitRun rounds Json.isHexDigit))
  | 'o' => wholeNumber (baseNumber 8 (← digitRun rounds fun c => '0' ≤ c && c ≤ '7'))
  | 'b' => wholeNumber (baseNumber 2 (← digitRun rounds fun c => c == '0' || c == '1'))
  | _ => failure

def decimalInteger (rounds : Nat) : Reader Toml := do
  let negative ← sign
  let n : Int := decimalNumber (← decimalDigits rounds)
  wholeNumber (if negative then -n else n)

/-- The decimal `mantissa · 10 ^ exponent` is at least halfway between the largest double and the
next power of two, and so rounds to infinity. -/
def roundsToInfinity (mantissa : Nat) (exponent : Int) : Bool :=
  let bound := Nat.pow 2 1024 - Nat.pow 2 970
  let digits : Int := (Nat.toDigits 10 mantissa).length
  if mantissa = 0 || digits + exponent < 308 then false
  else if digits + exponent > 310 then true
  else if 0 ≤ exponent then bound ≤ mantissa * Nat.pow 10 exponent.toNat
  else bound * Nat.pow 10 (-exponent).toNat ≤ mantissa

/-- The power of ten of a float. -/
def floatExponent (rounds : Nat) : Reader Int := do
  let _ ← satisfy fun c => c == 'e' || c == 'E'
  let negative ← sign
  let n : Int := decimalNumber (← digitRun rounds Char.isDigit)
  return if negative then -n else n

def decimalFloat (rounds : Nat) : Reader Toml := do
  let negative ← sign
  let whole ← decimalDigits rounds
  let fraction ← optional (do char '.'; digitRun rounds Char.isDigit)
  let exponent ← match fraction with
    | some _ => pure ((← optional (floatExponent rounds)).getD 0)
    | none => floatExponent rounds
  let digits := whole ++ fraction.getD []
  let places : Int := (fraction.getD []).length
  if !negative && roundsToInfinity (decimalNumber digits) (exponent - places) then failure
  else return .float

def specialFloat : Reader Toml := do
  let _ ← sign
  literal "inf" <|> literal "nan"
  return .float

/-! ## Dates and times -/

/-- A number of exactly `digits` digits within bounds. -/
def bounded (digits low high : Nat) : Reader Nat := do
  let n := decimalNumber (← times digits Char.isDigit)
  if low ≤ n ∧ n ≤ high then return n else failure

def daysInMonth (year month : Nat) : Nat :=
  if month = 2 then
    if year % 4 = 0 ∧ (year % 100 ≠ 0 ∨ year % 400 = 0) then 29 else 28
  else if month = 4 ∨ month = 6 ∨ month = 9 ∨ month = 11 then 30
  else 31

def date : Reader Unit := do
  let year ← bounded 4 0 9999
  char '-'
  let month ← bounded 2 1 12
  char '-'
  let _ ← bounded 2 1 (daysInMonth year month)

def time : Reader Unit := do
  let _ ← bounded 2 0 23
  char ':'
  let _ ← bounded 2 0 59
  char ':'
  let _ ← bounded 2 0 60
  let _ ← optional (do char '.'; takeWhile1 Char.isDigit)

def offset : Reader Unit := do
  match ← next with
  | 'Z' | 'z' => return
  | '+' | '-' => do
    let _ ← bounded 2 0 23
    char ':'
    let _ ← bounded 2 0 59
  | _ => failure

/-- A date, a time, or a date and a time with or without an offset. -/
def dateOrTime : Reader Toml := do
  (do
    date
    let _ ← optional (do
      let _ ← satisfy fun c => c == 'T' || c == 't' || c == ' '
      time
      optional offset)) <|> time
  return .dateTime

/-! ## Values -/

def scalar (rounds : Nat) : Reader Toml := do
  match ← peek? with
  | some '"' | some '\'' => stringValue rounds
  | some 't' => do literal "true"; return .boolean true
  | some 'f' => do literal "false"; return .boolean false
  | some _ =>
    dateOrTime <|> decimalFloat rounds <|> specialFloat <|> basedNumber rounds <|>
      decimalInteger rounds
  | none => failure

/-- Items with commas between them and, where allowed, one after the last. -/
def items {α : Type} (space : Reader Unit) (item : Reader α) (close : Char) (trailing : Bool) :
    (rounds : Nat) → Reader (List α)
  | 0 => failure
  | rounds + 1 => do
    let a ← item
    space
    let c ← next
    if c == close then return [a]
    else if c == ',' then do
      space
      match ← peek? with
      | some d =>
        if d == close then
          if trailing then
            let _ ← next
            return [a]
          else failure
        else return a :: (← items space item close trailing rounds)
      | none => failure
    else failure

/-- Items between brackets, possibly none. -/
def bracketed {α : Type} (space : Reader Unit) (item : Reader α) (opening close : Char)
    (trailing : Bool) (rounds : Nat) : Reader (List α) := do
  char opening
  space
  match ← peek? with
  | some c =>
    if c == close then
      let _ ← next
      return []
    else items space item close trailing rounds
  | none => failure

/-- A key, an equals sign and a value. -/
def binding (rounds : Nat) (value : Reader Toml) : Reader Binding := do
  let (path, key) ← key rounds
  char '='
  blanks
  return ⟨path, key, ← value⟩

/-- A value in which arrays and inline tables nest at most `depth` deep. -/
def value (rounds : Nat) : (depth : Nat) → Reader Toml
  | 0 => scalar rounds
  | depth + 1 => do
    match ← peek? with
    | some '[' =>
      return .array (← bracketed (gap rounds) (value rounds depth) '[' ']' true rounds)
    | some '\x7b' =>
      let bindings ← bracketed blanks (binding rounds (value rounds depth)) '\x7b' '\x7d' false
        rounds
      match inlineTable bindings with
      | some t => return t
      | none => failure
    | _ => scalar rounds

/-! ## Documents -/

/-- A binding on a line of its own. -/
def bindingLine (rounds : Nat) : Reader Binding := do
  let b ← binding rounds (value rounds (nestingLimit - 1))
  lineRest
  return b

/-- An empty line or a comment. -/
def emptyLine : Reader Unit := do
  blanks
  newline <|> (do comment; newline <|> atEnd)

/-- The bindings up to the next header or the end. -/
def bindingLines (rounds : Nat) : Reader (List Binding) := do
  let lines ← many rounds
    ((do emptyLine; return none) <|> (do blanks; return some (← bindingLine rounds)))
  return lines.filterMap id

/-- A header and the bindings under it. -/
def sectionLines (rounds : Nat) : Reader Section := do
  blanks
  char '['
  let isArray ← optional (char '[')
  let (path, key) ← key rounds
  char ']'
  if isArray.isSome then char ']'
  lineRest
  return ⟨isArray.isSome, path, key, ← bindingLines rounds⟩

/-- The table that a document describes, if it is well formed. -/
def ofText? (s : String) : Option Toml :=
  let cs := s.toList
  let rounds := cs.length + 1
  readAll (do
    let _ ← optional (char '\ufeff')
    let bindings ← bindingLines rounds
    let sections ← many rounds (sectionLines rounds)
    blanks
    match document bindings sections with
    | some t => return t
    | none => failure) cs

end VirtualModules.Toml
