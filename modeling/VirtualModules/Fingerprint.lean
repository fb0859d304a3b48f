import VirtualModules.Fingerprint.Xxh3

/-!
# Fingerprints

A `Fingerprint` is the 128-bit hash of a stream of bytes, kept as sixteen bytes with the lowest
first. A sequence of parts is hashed through `frame`, which puts the length of each part in
front of it, so that the bounds between parts count and not only their concatenation.
-/

namespace VirtualModules

/-- The parts, each behind its length in eight bytes, lowest first. -/
def frame (parts : List Bytes) : Bytes :=
  parts.flatMap fun part => Bytes.littleEndian 8 part.length ++ part

/-- A 128-bit content hash. -/
structure Fingerprint where
  bits : Xxh3.Wide
  deriving DecidableEq, Repr

namespace Fingerprint

def ofBytes (b : Bytes) : Fingerprint := ⟨Xxh3.hash128 b⟩

/-- The fingerprint of a sequence of parts. -/
def ofParts (parts : List Bytes) : Fingerprint := ofBytes (frame parts)

def ofTexts (parts : List String) : Fingerprint := ofParts (parts.map Bytes.ofText)

/-- The sixteen bytes, lowest first. -/
def toBytes (f : Fingerprint) : Bytes :=
  Bytes.littleEndian 8 f.bits.low.toNat ++ Bytes.littleEndian 8 f.bits.high.toNat

def toHex (f : Fingerprint) : String := f.toBytes.toHex

/-- The first four hexadecimal digits, enough to tell fingerprints apart in a log. -/
def abbreviated (f : Fingerprint) : String :=
  "ContentHash(" ++ Bytes.toHex (f.toBytes.take 2) ++ "..)"

end Fingerprint

/-- The 64-bit hash, for names. -/
def shortHash (b : Bytes) : UInt64 := Xxh3.hash64 b

end VirtualModules
