/-!
# Bytes

Texts, numbers and digests meet as lists of bytes. A text is the bytes of its UTF-8 form
(`Bytes.toText?_ofText`), a number of fixed width stands with its lowest byte first
(`ofLittleEndian_littleEndian`), and `hexDigits` prints a number in a fixed count of lower-case
hexadecimal digits.
-/

namespace VirtualModules

abbrev Bytes := List UInt8

namespace Bytes

/-- The UTF-8 form of a text. -/
def ofText (s : String) : Bytes := s.toByteArray.data.toList

/-- The text whose UTF-8 form these bytes are, if they are one. -/
def toText? (b : Bytes) : Option String := String.fromUTF8? ⟨b.toArray⟩

/-- Reading the UTF-8 form of a text gives the text back. -/
@[simp] theorem toText?_ofText (s : String) : toText? (ofText s) = some s := by
  have valid : s.toByteArray.IsValidUTF8 := s.isValidUTF8
  simp [toText?, ofText, String.fromUTF8?, String.fromUTF8, valid]

/-- Only its own UTF-8 form is read as a text. -/
theorem ofText_of_toText? {b : Bytes} {s : String} (h : toText? b = some s) : ofText s = b := by
  unfold toText? String.fromUTF8? at h
  split at h
  · cases h
    rfl
  · cases h

/-- The lowest `width` bytes of a number, lowest first. -/
def littleEndian : Nat → Nat → Bytes
  | 0, _ => []
  | width + 1, n => UInt8.ofNat (n % 256) :: littleEndian width (n / 256)

/-- The number whose bytes these are, lowest first. -/
def ofLittleEndian : Bytes → Nat
  | [] => 0
  | b :: rest => b.toNat + 256 * ofLittleEndian rest

@[simp] theorem length_littleEndian (width n : Nat) : (littleEndian width n).length = width := by
  induction width generalizing n with
  | zero => rfl
  | succ width ih => simp [littleEndian, ih]

/-- A number below the power `width` of 256 is read back from its bytes. -/
theorem ofLittleEndian_littleEndian {width n : Nat} (h : n < Nat.pow 256 width) :
    ofLittleEndian (littleEndian width n) = n := by
  induction width generalizing n with
  | zero => exact (Nat.lt_one_iff.mp h).symm
  | succ width ih =>
    have bound : n < Nat.pow 256 width * 256 := h
    have below : n / 256 < Nat.pow 256 width :=
      Nat.div_lt_of_lt_mul (by rwa [Nat.mul_comm] at bound)
    simp only [littleEndian, ofLittleEndian, ih below, UInt8.toNat_ofNat']
    omega

theorem ofLittleEndian_lt (b : Bytes) : ofLittleEndian b < Nat.pow 256 b.length := by
  induction b with
  | nil => exact Nat.one_pos
  | cons first rest ih =>
    have byte : first.toNat < 256 := first.toNat_lt
    change first.toNat + 256 * ofLittleEndian rest < Nat.pow 256 rest.length * 256
    omega

/-- Numbers below the power `width` of 256 have different bytes. -/
theorem littleEndian_inj {width n m : Nat} (hn : n < Nat.pow 256 width)
    (hm : m < Nat.pow 256 width) (h : littleEndian width n = littleEndian width m) : n = m := by
  rw [← ofLittleEndian_littleEndian hn, h, ofLittleEndian_littleEndian hm]

end Bytes

theorem ofText_inj {a b : String} (h : Bytes.ofText a = Bytes.ofText b) : a = b := by
  have texts := congrArg Bytes.toText? h
  simpa using texts

/-! ## Hexadecimal -/

/-- The lower-case hexadecimal digit of a number below sixteen. -/
def hexDigit (n : Nat) : Char := if n < 10 then Char.ofNat (48 + n) else Char.ofNat (87 + n)

/-- The lowest `width` hexadecimal digits of a number, highest first. -/
def hexDigits : Nat → Nat → List Char
  | 0, _ => []
  | width + 1, n => hexDigits width (n / 16) ++ [hexDigit (n % 16)]

/-- The bytes in hexadecimal, two digits each. -/
def Bytes.toHex (b : Bytes) : String :=
  String.ofList (b.flatMap fun x => hexDigits 2 x.toNat)

@[simp] theorem length_hexDigits (width n : Nat) : (hexDigits width n).length = width := by
  induction width generalizing n with
  | zero => rfl
  | succ width ih => simp [hexDigits, ih]

theorem hexDigit_inj : ∀ {n m : Nat}, n < 16 → m < 16 → hexDigit n = hexDigit m → n = m := by
  have each : ∀ n < 16, ∀ m < 16, hexDigit n = hexDigit m → n = m := by decide
  exact fun {n m} hn hm => each n hn m hm

/-- Numbers below the power `width` of 16 have different digits. -/
theorem hexDigits_inj {width n m : Nat} (hn : n < Nat.pow 16 width) (hm : m < Nat.pow 16 width)
    (h : hexDigits width n = hexDigits width m) : n = m := by
  induction width generalizing n m with
  | zero =>
    change n < 1 at hn
    change m < 1 at hm
    omega
  | succ width ih =>
    change n < Nat.pow 16 width * 16 at hn
    change m < Nat.pow 16 width * 16 at hm
    obtain ⟨upper, last⟩ := List.append_inj' h rfl
    have quotients : n / 16 = m / 16 := ih (by omega) (by omega) upper
    have remainders : n % 16 = m % 16 :=
      hexDigit_inj (by omega) (by omega) (List.cons_eq_cons.mp last).1
    omega

end VirtualModules
