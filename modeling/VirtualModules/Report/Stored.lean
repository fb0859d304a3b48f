import VirtualModules.Bytes
import VirtualModules.Fingerprint
import VirtualModules.Generation

/-!
# Stored reports

A combined report is stored as a header behind its length, and a payload. The header names the
format and holds the fingerprint of the payload, so that a torn file is noticed. Lengths are
written in as few bytes as their size allows (`encodeLength`); everything else is lengths, texts
and lists of them. What follows the payload's last part is not looked at.
-/

namespace VirtualModules.Stored

/-! ## Writing -/

/-- A length below 251 is one byte; a larger one is two, four or eight bytes, lowest first, behind
a byte that says which. -/
def encodeLength (n : Nat) : Bytes :=
  if n < 251 then [UInt8.ofNat n]
  else if n < 0x10000 then 251 :: Bytes.littleEndian 2 n
  else if n < 0x100000000 then 252 :: Bytes.littleEndian 4 n
  else 253 :: Bytes.littleEndian 8 n

def encodeText (s : String) : Bytes :=
  let b := Bytes.ofText s
  encodeLength b.length ++ b

/-- Items behind their number. -/
def encodeList {α : Type} (item : α → Bytes) (l : List α) : Bytes :=
  encodeLength l.length ++ l.flatMap item

def encodePath (p : ImportPath) : Bytes := encodeText p.text

def encodeTable {ν : Type} (value : ν → Bytes) (t : Table ImportPath ν) : Bytes :=
  encodeList (fun (k, v) => encodePath k ++ value v) t.entries

def encodeReport (r : Report) : Bytes :=
  encodeTable encodePath r.concreteAliases ++ encodeTable encodePath r.querysetAliases ++
    encodeTable encodePath r.virtualModules ++
    encodeTable (fun s => encodeList encodePath s.toList) r.relatedModules

def encodeCombined (c : Combined) : Bytes := encodeText c.version ++ encodeReport c.report

/-- The four bytes that every header starts with. -/
def magic : Bytes := [0x56, 0x44, 0x45, 0x50]

def formatVersion : Nat := 1

/-- The version of the program that writes. -/
def programVersion : String := "0.1.0"

structure Header where
  magic : Bytes
  formatVersion : Nat
  programVersion : String
  checksum : Bytes
  deriving DecidableEq

def Header.ofPayload (payload : Bytes) : Header where
  magic := Stored.magic
  formatVersion := Stored.formatVersion
  programVersion := Stored.programVersion
  checksum := (Fingerprint.ofBytes payload).toBytes

def encodeHeader (h : Header) : Bytes :=
  h.magic ++ encodeLength h.formatVersion ++ encodeText h.programVersion ++ h.checksum

/-- The bytes that a combined report is stored as. -/
def encode (c : Combined) : Bytes :=
  let payload := encodeCombined c
  let header := encodeHeader (.ofPayload payload)
  Bytes.littleEndian 4 header.length ++ header ++ payload

/-! ## Reading -/

/-- Takes a value from the front of some bytes and leaves the rest. -/
abbrev ByteReader := StateT Bytes Option

/-- The next `count` bytes; refused if there are fewer. -/
def take (count : Nat) : ByteReader Bytes := fun b =>
  if count ≤ b.length then some (b.take count, b.drop count) else none

def readByte : ByteReader UInt8
  | [] => none
  | x :: rest => some (x, rest)

/-- A number of `width` bytes, lowest first. -/
def readNumber (width : Nat) : ByteReader Nat := do
  return Bytes.ofLittleEndian (← take width)

/-- A length of at most `width` bytes. -/
def readLengthWithin (width : Nat) : ByteReader Nat := do
  let b ← readByte
  if b < 251 then return b.toNat
  else if b = 251 ∧ 2 ≤ width then readNumber 2
  else if b = 252 ∧ 4 ≤ width then readNumber 4
  else if b = 253 ∧ 8 ≤ width then readNumber 8
  else failure

def readLength : ByteReader Nat := readLengthWithin 8

def readText : ByteReader String := do
  match Bytes.toText? (← take (← readLength)) with
  | some s => return s
  | none => failure

/-- A number of items one after another. -/
def readTimes {α : Type} (item : ByteReader α) : (count : Nat) → ByteReader (List α)
  | 0 => return []
  | count + 1 => do
    let a ← item
    return a :: (← readTimes item count)

def readList {α : Type} (item : ByteReader α) : ByteReader (List α) := do
  readTimes item (← readLength)

def readPath : ByteReader ImportPath := do
  match ImportPath.ofString (← readText) with
  | .ok p => return p
  | .error _ => failure

def readTable {ν : Type} (value : ByteReader ν) : ByteReader (Table ImportPath ν) := do
  return Table.ofList (← readList do return (← readPath, ← value))

def readReport : ByteReader Report := do
  return {
    concreteAliases := ← readTable readPath
    querysetAliases := ← readTable readPath
    virtualModules := ← readTable readPath
    relatedModules := ← readTable do return SortedSet.ofList (← readList readPath) }

def readCombined : ByteReader Combined := do return ⟨← readText, ← readReport⟩

def readHeader : ByteReader Header := do
  return {
    magic := ← take 4
    formatVersion := ← readLengthWithin 4
    programVersion := ← readText
    checksum := ← take 16 }

/-- The combined report that some bytes store; none if they are not all there, are of another
format or version, or do not match their checksum. -/
def decode (b : Bytes) : Option Combined := do
  let (headerLength, rest) ← (readNumber 4).run b
  let (headerBytes, payload) ← (take headerLength).run rest
  let (header, _) ← readHeader.run headerBytes
  if header.magic = magic ∧ header.formatVersion = formatVersion ∧
      header.checksum = (Fingerprint.ofBytes payload).toBytes then
    (readCombined.run payload).map (·.1)
  else none

end VirtualModules.Stored
