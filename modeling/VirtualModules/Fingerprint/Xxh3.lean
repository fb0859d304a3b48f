import VirtualModules.Bytes

/-!
# The XXH3 hash

XXH3 with seed zero and the default secret, in its 64-bit (`hash64`) and 128-bit (`hash128`)
forms. Inputs are treated by length: up to 16 bytes by one multiplication, up to 128 and up to
240 bytes by mixing blocks of sixteen against the secret, and longer ones by eight lanes that
take in stripes of 64 bytes and are scrambled after every sixteen stripes.
-/

namespace VirtualModules.Xxh3

/-! ## Words -/

/-- The 64-bit word at an offset, lowest byte first. -/
def word64 (b : Bytes) (offset : Nat) : UInt64 :=
  UInt64.ofNat (Bytes.ofLittleEndian ((b.drop offset).take 8))

/-- The 32-bit word at an offset, lowest byte first, widened. -/
def word32 (b : Bytes) (offset : Nat) : UInt64 :=
  UInt64.ofNat (Bytes.ofLittleEndian ((b.drop offset).take 4))

def rotateLeft (x : UInt64) (k : UInt64) : UInt64 := (x <<< k) ||| (x >>> (64 - k))

def low32 (x : UInt64) : UInt64 := x &&& (0xFFFFFFFF : UInt64)

/-- The byte at a place counted from the lowest. -/
def byteAt (x place : UInt64) : UInt64 := (x >>> (8 * place)) &&& (0xFF : UInt64)

/-- The four low bytes in reverse. -/
def swap32 (x : UInt64) : UInt64 :=
  (byteAt x 0 <<< 24) ||| (byteAt x 1 <<< 16) ||| (byteAt x 2 <<< 8) ||| byteAt x 3

/-- The eight bytes in reverse. -/
def swap64 (x : UInt64) : UInt64 := (swap32 x <<< 32) ||| swap32 (x >>> 32)

/-- A value of 128 bits in two words. -/
structure Wide where
  low : UInt64
  high : UInt64
  deriving DecidableEq, Repr

/-- The full product of two words. -/
def multiply (x y : UInt64) : Wide :=
  let product := x.toNat * y.toNat
  ⟨UInt64.ofNat product, UInt64.ofNat (product >>> 64)⟩

/-- The two halves of the full product, folded into one word. -/
def foldProduct (x y : UInt64) : UInt64 :=
  let product := multiply x y
  product.low ^^^ product.high

def xorShift (x : UInt64) (k : UInt64) : UInt64 := x ^^^ (x >>> k)

/-! ## Constants -/

def prime32_1 : UInt64 := 0x9E3779B1
def prime32_2 : UInt64 := 0x85EBCA77
def prime32_3 : UInt64 := 0xC2B2AE3D
def prime64_1 : UInt64 := 0x9E3779B185EBCA87
def prime64_2 : UInt64 := 0xC2B2AE3D27D4EB4F
def prime64_3 : UInt64 := 0x165667B19E3779F9
def prime64_4 : UInt64 := 0x85EBCA77C2B2AE63
def prime64_5 : UInt64 := 0x27D4EB2F165667C5
def primeMix1 : UInt64 := 0x165667919E3779F9
def primeMix2 : UInt64 := 0x9FB21C651E98DF25

/-- The default secret. -/
def secret : Bytes := [
  0xb8, 0xfe, 0x6c, 0x39, 0x23, 0xa4, 0x4b, 0xbe, 0x7c, 0x01, 0x81, 0x2c, 0xf7, 0x21, 0xad, 0x1c,
  0xde, 0xd4, 0x6d, 0xe9, 0x83, 0x90, 0x97, 0xdb, 0x72, 0x40, 0xa4, 0xa4, 0xb7, 0xb3, 0x67, 0x1f,
  0xcb, 0x79, 0xe6, 0x4e, 0xcc, 0xc0, 0xe5, 0x78, 0x82, 0x5a, 0xd0, 0x7d, 0xcc, 0xff, 0x72, 0x21,
  0xb8, 0x08, 0x46, 0x74, 0xf7, 0x43, 0x24, 0x8e, 0xe0, 0x35, 0x90, 0xe6, 0x81, 0x3a, 0x26, 0x4c,
  0x3c, 0x28, 0x52, 0xbb, 0x91, 0xc3, 0x00, 0xcb, 0x88, 0xd0, 0x65, 0x8b, 0x1b, 0x53, 0x2e, 0xa3,
  0x71, 0x64, 0x48, 0x97, 0xa2, 0x0d, 0xf9, 0x4e, 0x38, 0x19, 0xef, 0x46, 0xa9, 0xde, 0xac, 0xd8,
  0xa8, 0xfa, 0x76, 0x3f, 0xe3, 0x9c, 0x34, 0x3f, 0xf9, 0xdc, 0xbb, 0xc7, 0xc7, 0x0b, 0x4f, 0x1d,
  0x8a, 0x51, 0xe0, 0x4b, 0xcd, 0xb4, 0x59, 0x31, 0xc8, 0x9f, 0x7e, 0xc9, 0xd9, 0x78, 0x73, 0x64,
  0xea, 0xc5, 0xac, 0x83, 0x34, 0xd3, 0xeb, 0xc3, 0xc5, 0x81, 0xa0, 0xff, 0xfa, 0x13, 0x63, 0xeb,
  0x17, 0x0d, 0xdd, 0x51, 0xb7, 0xf0, 0xda, 0x49, 0xd3, 0x16, 0x55, 0x26, 0x29, 0xd4, 0x68, 0x9e,
  0x2b, 0x16, 0xbe, 0x58, 0x7d, 0x47, 0xa1, 0xfc, 0x8f, 0xf8, 0xb8, 0xd1, 0x7a, 0xd0, 0x31, 0xce,
  0x45, 0xcb, 0x3a, 0x8f, 0x95, 0x16, 0x04, 0x28, 0xaf, 0xd7, 0xfb, 0xca, 0xbb, 0x4b, 0x40, 0x7e]

/-! ## Final mixing -/

/-- The avalanche of the long forms. -/
def avalanche (h : UInt64) : UInt64 := xorShift (xorShift h 37 * primeMix1) 32

/-- The avalanche of the shortest inputs. -/
def avalancheShort (h : UInt64) : UInt64 :=
  xorShift (xorShift (xorShift h 33 * prime64_2) 29 * prime64_3) 32

/-- The mixing of inputs of four to eight bytes. -/
def mixByLength (h : UInt64) (len : UInt64) : UInt64 :=
  let h := (h ^^^ rotateLeft h 49 ^^^ rotateLeft h 24) * primeMix2
  xorShift ((h ^^^ ((h >>> 35) + len)) * primeMix2) 28

/-- Sixteen bytes of input against sixteen bytes of secret. -/
def mix16 (input : Bytes) (inputAt secretAt : Nat) : UInt64 :=
  foldProduct (word64 input inputAt ^^^ word64 secret secretAt)
    (word64 input (inputAt + 8) ^^^ word64 secret (secretAt + 8))

/-- The first, middle and last byte of one to three, with the length. -/
def packShort (input : Bytes) : UInt64 :=
  let len := input.length
  let byte (i : Nat) : UInt64 := UInt64.ofNat ((input[i]?.getD 0).toNat)
  (byte 0 <<< 16) ||| (byte (len / 2) <<< 24) ||| byte (len - 1) ||| (UInt64.ofNat len <<< 8)

/-! ## Long inputs -/

/-- The lanes before any input. -/
def lanesInitial : List UInt64 :=
  [prime32_3, prime64_1, prime64_2, prime64_3, prime64_4, prime32_2, prime64_5, prime32_1]

/-- Takes in two lanes' worth of a stripe: each lane gains its neighbour's word and the product
of the halves of its own word masked by the secret. -/
def accumulate : List UInt64 → Bytes → Bytes → List UInt64
  | a :: b :: rest, stripe, key =>
    let wordA := word64 stripe 0
    let wordB := word64 stripe 8
    let maskedA := wordA ^^^ word64 key 0
    let maskedB := wordB ^^^ word64 key 8
    (a + wordB + low32 maskedA * (maskedA >>> 32)) ::
      (b + wordA + low32 maskedB * (maskedB >>> 32)) ::
      accumulate rest (stripe.drop 16) (key.drop 16)
  | lanes, _, _ => lanes

/-- Scrambles the lanes against the end of the secret. -/
def scramble : List UInt64 → Bytes → List UInt64
  | [], _ => []
  | a :: rest, key =>
    ((xorShift a 47 ^^^ word64 key 0) * prime32_1) :: scramble rest (key.drop 8)

/-- Takes in `count` stripes, the secret advancing eight bytes with each. -/
def accumulateStripes : (count : Nat) → List UInt64 → Bytes → Bytes → List UInt64
  | 0, lanes, _, _ => lanes
  | count + 1, lanes, input, key =>
    accumulateStripes count (accumulate lanes input key) (input.drop 64) (key.drop 8)

/-- Takes in `count` blocks of sixteen stripes, then the `left` stripes that follow. -/
def accumulateBlocks : (count left : Nat) → List UInt64 → Bytes → List UInt64
  | 0, left, lanes, input => accumulateStripes left lanes input secret
  | count + 1, left, lanes, input =>
    accumulateBlocks count left
      (scramble (accumulateStripes 16 lanes input secret) (secret.drop 128)) (input.drop 1024)

/-- The lanes after the whole of a long input. -/
def lanesOf (input : Bytes) : List UInt64 :=
  let len := input.length
  let blocks := (len - 1) / 1024
  let left := (len - 1 - 1024 * blocks) / 64
  accumulate (accumulateBlocks blocks left lanesInitial input) (input.drop (len - 64))
    (secret.drop 121)

/-- Folds the lanes pairwise onto a start value. -/
def mergeLanes : List UInt64 → Bytes → UInt64 → UInt64
  | a :: b :: rest, key, acc =>
    mergeLanes rest (key.drop 16) (acc + foldProduct (a ^^^ word64 key 0) (b ^^^ word64 key 8))
  | _, _, acc => avalanche acc

/-! ## The 64-bit hash -/

/-- The blocks from both ends of an input of 17 to 128 bytes, innermost first. -/
def mixEnds (input : Bytes) : (pairs : Nat) → UInt64 → UInt64
  | 0, acc => acc
  | i + 1, acc =>
    mixEnds input i (acc + mix16 input (16 * i) (32 * i) +
      mix16 input (input.length - 16 * (i + 1)) (32 * i + 16))

def hash64 (input : Bytes) : UInt64 :=
  let len := input.length
  let size := UInt64.ofNat len
  if len = 0 then avalancheShort (word64 secret 56 ^^^ word64 secret 64)
  else if len ≤ 3 then avalancheShort (packShort input ^^^ word32 secret 0 ^^^ word32 secret 4)
  else if len ≤ 8 then
    mixByLength
      ((word32 input (len - 4) + (word32 input 0 <<< 32)) ^^^
        word64 secret 8 ^^^ word64 secret 16) size
  else if len ≤ 16 then
    let low := word64 input 0 ^^^ word64 secret 24 ^^^ word64 secret 32
    let high := word64 input (len - 8) ^^^ word64 secret 40 ^^^ word64 secret 48
    avalanche (size + swap64 low + high + foldProduct low high)
  else if len ≤ 128 then avalanche (mixEnds input ((len + 31) / 32) (size * prime64_1))
  else if len ≤ 240 then
    let first := (List.range 8).foldl (fun acc i => acc + mix16 input (16 * i) (16 * i))
      (size * prime64_1)
    let second := (List.range (len / 16 - 8)).foldl
      (fun acc i => acc + mix16 input (16 * (i + 8)) (16 * i + 3))
      (mix16 input (len - 16) 119)
    avalanche (avalanche first + second)
  else mergeLanes (lanesOf input) (secret.drop 11) (size * prime64_1)

/-! ## The 128-bit hash -/

/-- Two blocks of sixteen bytes against 32 bytes of secret. -/
def mix32 (input : Bytes) (acc : Wide) (first second secretAt : Nat) : Wide where
  low := (acc.low + mix16 input first secretAt) ^^^
    (word64 input second + word64 input (second + 8))
  high := (acc.high + mix16 input second (secretAt + 16)) ^^^
    (word64 input first + word64 input (first + 8))

/-- The blocks from both ends of an input of 17 to 128 bytes, innermost first. -/
def mixEndsWide (input : Bytes) : (pairs : Nat) → Wide → Wide
  | 0, acc => acc
  | i + 1, acc =>
    mixEndsWide input i (mix32 input acc (16 * i) (input.length - 16 * (i + 1)) (32 * i))

/-- The last mixing of inputs of 17 to 240 bytes. -/
def finishWide (acc : Wide) (size : UInt64) : Wide where
  low := avalanche (acc.low + acc.high)
  high := 0 - avalanche (acc.low * prime64_1 + acc.high * prime64_4 + size * prime64_2)

def hash128 (input : Bytes) : Wide :=
  let len := input.length
  let size := UInt64.ofNat len
  if len = 0 then
    ⟨avalancheShort (word64 secret 64 ^^^ word64 secret 72),
      avalancheShort (word64 secret 80 ^^^ word64 secret 88)⟩
  else if len ≤ 3 then
    let packed := packShort input
    let swapped := swap32 packed
    let turned := low32 (swapped <<< 13) ||| (swapped >>> 19)
    ⟨avalancheShort (packed ^^^ word32 secret 0 ^^^ word32 secret 4),
      avalancheShort (turned ^^^ word32 secret 8 ^^^ word32 secret 12)⟩
  else if len ≤ 8 then
    let keyed := (word32 input 0 + (word32 input (len - 4) <<< 32)) ^^^
      word64 secret 16 ^^^ word64 secret 24
    let product := multiply keyed (prime64_1 + (size <<< 2))
    let high := product.high + (product.low <<< 1)
    let low := product.low ^^^ (high >>> 3)
    ⟨xorShift (xorShift low 35 * primeMix2) 28, avalanche high⟩
  else if len ≤ 16 then
    let inputLow := word64 input 0
    let inputHigh := word64 input (len - 8)
    let product := multiply
      (inputLow ^^^ inputHigh ^^^ word64 secret 32 ^^^ word64 secret 40) prime64_1
    let low := product.low + ((size - 1) <<< 54)
    let masked := inputHigh ^^^ word64 secret 48 ^^^ word64 secret 56
    let high := product.high + masked + low32 masked * (prime32_2 - 1)
    let last := multiply (low ^^^ swap64 high) prime64_2
    ⟨avalanche last.low, avalanche (last.high + high * prime64_2)⟩
  else if len ≤ 128 then
    finishWide (mixEndsWide input ((len + 31) / 32) ⟨size * prime64_1, 0⟩) size
  else if len ≤ 240 then
    let first := (List.range 4).foldl
      (fun acc i => mix32 input acc (32 * i) (32 * i + 16) (32 * i)) ⟨size * prime64_1, 0⟩
    let second := (List.range (len / 32 - 4)).foldl
      (fun acc i => mix32 input acc (32 * (i + 4)) (32 * (i + 4) + 16) (32 * i + 3))
      ⟨avalanche first.low, avalanche first.high⟩
    finishWide (mix32 input second (len - 16) (len - 32) 103) size
  else
    let lanes := lanesOf input
    ⟨mergeLanes lanes (secret.drop 11) (size * prime64_1),
      mergeLanes lanes (secret.drop 117) (~~~(size * prime64_2))⟩

end VirtualModules.Xxh3
