import VirtualModules.Bytes
import VirtualModules.Text.Dots

/-!
# Import paths

An `ImportPath` is a dotted text such as `app.models.Parent` whose segments are identifiers
(`ImportPath.ofString`). It serves as a key, ordered by its text, and as a namespace: one path
is within another when the other is a leading run of its segments.

* `segments` is the list of identifiers between the dots, and `child` adds one to it.
* `parent?`, `name` and `prefixes` cut the text at its dots, and each of them gives a path again.
* `isWithin` looks at the text alone: the namespace, then nothing or a dot.
-/

namespace VirtualModules

/-! ## Identifiers -/

/-- An ASCII letter or an underscore. -/
def isIdentifierStart (c : Char) : Bool := c == '_' || c.isAlpha

/-- An ASCII letter, a digit or an underscore. -/
def isIdentifierChar (c : Char) : Bool := c == '_' || c.isAlphanum

def isIdentifier : List Char → Bool
  | [] => false
  | c :: rest => isIdentifierStart c && rest.all isIdentifierChar

theorem isIdentifierChar_of_start {c : Char} (h : isIdentifierStart c = true) :
    isIdentifierChar c = true := by
  simp only [isIdentifierStart, isIdentifierChar, Char.isAlphanum, Bool.or_eq_true] at h ⊢
  exact h.imp_right .inl

theorem all_isIdentifierChar {cs : List Char} (h : isIdentifier cs = true) :
    cs.all isIdentifierChar = true := by
  cases cs with
  | nil => rfl
  | cons c rest =>
    obtain ⟨hc, hrest⟩ := Bool.and_eq_true_iff.mp h
    simp [isIdentifierChar_of_start hc, hrest]

theorem dot_not_mem_identifier {cs : List Char} (h : isIdentifier cs = true) : '.' ∉ cs :=
  fun mem => absurd (List.all_eq_true.mp (all_isIdentifierChar h) '.' mem) (by decide)

theorem isIdentifier_append {cs ds : List Char} (h : isIdentifier cs = true)
    (hd : ds.all isIdentifierChar = true) : isIdentifier (cs ++ ds) = true := by
  cases cs with
  | nil => simp [isIdentifier] at h
  | cons c rest =>
    obtain ⟨hc, hrest⟩ := Bool.and_eq_true_iff.mp h
    simp only [List.cons_append, isIdentifier, List.all_append, hc, hrest, hd, Bool.and_self]

theorem isIdentifierChar_hexDigit {n : Nat} (h : n < 16) : isIdentifierChar (hexDigit n) = true :=
  have all : ∀ n : Fin 16, isIdentifierChar (hexDigit n) = true := by decide
  all ⟨n, h⟩

theorem all_isIdentifierChar_hexDigits (width n : Nat) :
    (hexDigits width n).all isIdentifierChar = true := by
  induction width generalizing n with
  | zero => rfl
  | succ width ih =>
    simp [hexDigits, ih, isIdentifierChar_hexDigit (Nat.mod_lt n (by decide : 16 > 0))]

/-- A name without dots: an ASCII letter or underscore, then letters, digits and underscores. -/
structure Identifier where
  chars : List Char
  valid : isIdentifier chars = true

namespace Identifier

/-- The identifier followed by more identifier characters. -/
def append (i : Identifier) (tail : List Char) (h : tail.all isIdentifierChar = true) :
    Identifier := ⟨i.chars ++ tail, isIdentifier_append i.valid h⟩

/-- The identifier followed by another one. -/
def appendName (i j : Identifier) : Identifier := i.append j.chars (all_isIdentifierChar j.valid)

/-- The identifier followed by the sixteen hexadecimal digits of a word. -/
def appendHash (i : Identifier) (hash : UInt64) : Identifier :=
  i.append (hexDigits 16 hash.toNat) (all_isIdentifierChar_hexDigits _ _)

def text (i : Identifier) : String := String.ofList i.chars

end Identifier

/-! ## Dotted paths -/

/-- Every segment between the dots is an identifier. -/
def isDotted (cs : List Char) : Bool := (cs.splitOn '.').all isIdentifier

/-- A dotted text whose segments are identifiers. -/
structure ImportPath where
  text : String
  valid : isDotted text.toList = true

/-- Why a text is no import path. -/
inductive PathFault where
  | empty
  | badSegment
  deriving DecidableEq, Repr

/-- A text that was refused as an import path. -/
structure InvalidImportPath where
  path : String
  fault : PathFault
  deriving DecidableEq, Repr

def InvalidImportPath.message (e : InvalidImportPath) : String :=
  "invalid import path '" ++ e.path ++ "': " ++
    match e.fault with
    | .empty => "path is empty"
    | .badSegment => "every segment must be an identifier"

namespace ImportPath

theorem ext_text {p q : ImportPath} (h : p.text = q.text) : p = q := by
  cases p; cases q; simp_all

instance : DecidableEq ImportPath := fun p q =>
  if h : p.text = q.text then .isTrue (ext_text h) else .isFalse fun e => h (e ▸ rfl)

instance : ToString ImportPath := ⟨text⟩

/-! ### Order by text -/

instance : LT ImportPath := ⟨fun p q => p.text < q.text⟩
instance : LE ImportPath := ⟨fun p q => p.text ≤ q.text⟩
instance : DecidableLT ImportPath := fun p q => inferInstanceAs (Decidable (p.text < q.text))
instance : DecidableLE ImportPath := fun p q => inferInstanceAs (Decidable (p.text ≤ q.text))

instance : Std.IsLinearOrder ImportPath where
  le_refl p := String.le_refl p.text
  le_trans _ _ _ h h' := String.le_trans h h'
  le_antisymm _ _ h h' := ext_text (String.le_antisymm h h')
  le_total p q := String.le_total p.text q.text

instance : Std.LawfulOrderLT ImportPath where
  lt_iff p q := Std.LawfulOrderLT.lt_iff p.text q.text

/-! ### Reading -/

/-- Accepts exactly the dotted texts whose segments are identifiers. -/
def ofString (s : String) : Except InvalidImportPath ImportPath :=
  if s = "" then .error ⟨s, .empty⟩
  else if h : isDotted s.toList = true then .ok ⟨s, h⟩
  else .error ⟨s, .badSegment⟩

/-! ### Cuts of dotted texts -/

theorem isDotted_append {before after : List Char} :
    isDotted (before ++ '.' :: after) = (isDotted before && isDotted after) := by
  simp only [isDotted, List.splitOn_append_cons_self, List.all_append]

theorem isDotted_of_not_mem {cs : List Char} (undotted : '.' ∉ cs) :
    isDotted cs = isIdentifier cs := by
  simp [isDotted, List.splitOn_eq_singleton undotted]

theorem isDotted_of_cutLast {cs before : List Char} (valid : isDotted cs = true)
    (cut : before ∈ (cutLast cs).1) : isDotted before = true := by
  rcases undotted_or_last_dot cs with undotted | ⟨before', name, rfl, undotted⟩
  · rw [cutLast_of_not_mem undotted] at cut
    cases cut
  · rw [cutLast_append undotted] at cut
    cases cut
    rw [isDotted_append, Bool.and_eq_true] at valid
    exact valid.1

theorem isIdentifier_cutLast {cs : List Char} (valid : isDotted cs = true) :
    isIdentifier (cutLast cs).2 = true := by
  rcases undotted_or_last_dot cs with undotted | ⟨before, name, rfl, undotted⟩
  · rwa [cutLast_of_not_mem undotted, ← isDotted_of_not_mem undotted]
  · rw [isDotted_append, Bool.and_eq_true] at valid
    rw [cutLast_append undotted, ← isDotted_of_not_mem undotted, valid.2]

theorem isDotted_of_mem_beforeDots {cs before : List Char} (valid : isDotted cs = true)
    (mem : before ∈ beforeDots cs) : isDotted before = true := by
  obtain ⟨after, rfl⟩ := exists_after_of_mem_beforeDots mem
  rw [isDotted_append, Bool.and_eq_true] at valid
  exact valid.1

/-! ### Segments -/

/-- The identifiers between the dots. -/
def segmentChars (p : ImportPath) : List (List Char) := p.text.toList.splitOn '.'

theorem segmentChars_ne_nil (p : ImportPath) : p.segmentChars ≠ [] := List.splitOn_ne_nil _ _

theorem isIdentifier_of_mem_segmentChars {p : ImportPath} {cs : List Char}
    (h : cs ∈ p.segmentChars) : isIdentifier cs = true :=
  List.all_eq_true.mp p.valid cs h

/-- The texts between the dots. -/
def segments (p : ImportPath) : List String := p.segmentChars.map String.ofList

/-- The path with a text. -/
def ofChars (cs : List Char) (valid : isDotted cs = true) : ImportPath :=
  ⟨String.ofList cs, by rwa [String.toList_ofList]⟩

/-- The path before the last dot; a path of one segment has no parent. -/
def parent? (p : ImportPath) : Option ImportPath :=
  (cutLast p.text.toList).1.pmap ofChars fun _ cut => isDotted_of_cutLast p.valid cut

/-- The segment behind the last dot. -/
def name (p : ImportPath) : Identifier where
  chars := (cutLast p.text.toList).2
  valid := isIdentifier_cutLast p.valid

/-- The path and each of its namespaces, longest first. -/
def prefixes (p : ImportPath) : List ImportPath :=
  p :: (beforeDots p.text.toList).pmap ofChars fun _ mem => isDotted_of_mem_beforeDots p.valid mem

/-- The path equals the namespace or lies below it: a dot follows the namespace's text. -/
def isWithin (p nspace : ImportPath) : Bool :=
  match nspace.text.toList.isPrefixOf? p.text.toList with
  | none => false
  | some [] => true
  | some (c :: _) => c == '.'

/-! ### Extending -/

/-- Appends a dotted text; refused exactly when the whole is no import path. -/
def join (p : ImportPath) (name : String) : Except InvalidImportPath ImportPath :=
  ofString (p.text ++ "." ++ name)

/-- Appends one identifier. -/
def child (p : ImportPath) (name : Identifier) : ImportPath where
  text := p.text ++ "." ++ name.text
  valid := by
    have : (p.text ++ "." ++ name.text).toList = p.text.toList ++ '.' :: name.chars := by
      simp [Identifier.text]
    rw [this, isDotted_append, p.valid, isDotted_of_not_mem (dot_not_mem_identifier name.valid),
      name.valid, Bool.and_self]

theorem ofString_text (p : ImportPath) : ofString p.text = .ok p := by
  have nonempty : p.text ≠ "" := by
    intro h
    have := p.valid
    rw [h] at this
    exact absurd this (by decide)
  simp [ofString, nonempty, p.valid]

/-- A path is what reading accepts from its own text. -/
theorem ofString_eq_ok_iff {s : String} {p : ImportPath} : ofString s = .ok p ↔ p.text = s := by
  constructor
  · intro h
    unfold ofString at h
    split at h
    · cases h
    · split at h <;> cases h
      rfl
  · rintro rfl
    exact ofString_text p

end ImportPath

end VirtualModules
