-- SUMMARY: Gzip members: header, deflated data, checksum and length.
import ObjectGraph.Gzip.Inflate

/-! # Gzip members

A member is a header, deflated data, and the checksum and length of what was
compressed. Members may follow each other; reading takes the first one.
-/

namespace ObjectGraph

namespace Gzip

/-! ## Checksums -/

/-- Eight steps of dividing by the polynomial of the checksum. -/
def crcSteps : (count : Nat) → Nat → Nat
  | 0, r => r
  | count + 1, r => crcSteps count (if r % 2 = 1 then (r / 2) ^^^ 0xedb88320 else r / 2)

/-- The checksum of 32 bits. -/
def crc32 (bytes : List UInt8) : Nat :=
  (bytes.foldl (fun r b => crcSteps 8 (r ^^^ b.toNat)) 0xffffffff) ^^^ 0xffffffff

/-- The number of bytes, the lowest first. -/
def littleEndian (bytes : List UInt8) : Nat := bytes.foldr (fun b n => b.toNat + 0x100 * n) 0

example : crc32 "123456789".toUTF8.toList = 0xcbf43926 := by decide +kernel

/-! ## Headers -/

def magic : List UInt8 := [0x1f, 0x8b]

/-- Does the text start like a gzip member? -/
def isGzip (bytes : List UInt8) : Bool := magic.isPrefixOf bytes

/-- Parts of a header that a flag announces. -/
def hasFlag (flags : UInt8) (bit : Nat) : Bool := flags.toNat.testBit bit

/-- Split off so many bytes. -/
def split? (count : Nat) (bytes : List UInt8) : Option (List UInt8 × List UInt8) :=
  if count ≤ bytes.length then some (bytes.take count, bytes.drop count) else none

def maxTextLength : Nat := 65535

/-- Pass a text that ends with a zero. -/
def skipText? (bytes : List UInt8) : Option (List UInt8) :=
  let text := bytes.takeWhile (· != 0)
  if text.length < bytes.length ∧ text.length ≤ maxTextLength then
    some (bytes.drop (text.length + 1))
  else none

def skipExtra? (bytes : List UInt8) : Option (List UInt8) := do
  let (size, rest) ← split? 2 bytes
  let (_, rest) ← split? (littleEndian size) rest
  return rest

/-- Pass a header. Where it has a checksum of its own, that is of all before it. -/
def skipHeader? (bytes : List UInt8) : Option (List UInt8) := do
  let (fixed, rest) ← split? 10 bytes
  let flags ← fixed[3]?
  if !isGzip fixed || fixed[2]? ≠ some 8 || hasFlag flags 5 || hasFlag flags 6 || hasFlag flags 7 then
    none
  let rest ← if hasFlag flags 2 then skipExtra? rest else some rest
  let rest ← if hasFlag flags 3 then skipText? rest else some rest
  let rest ← if hasFlag flags 4 then skipText? rest else some rest
  if hasFlag flags 1 then
    let (sum, after) ← split? 2 rest
    if littleEndian sum = crc32 (bytes.take (bytes.length - rest.length)) % 0x10000 then some after
    else none
  else return rest

/-! ## Members -/

/-- The content of the first member and what follows it. -/
def member? (bytes : List UInt8) : Option (List UInt8 × List UInt8) := do
  let (content, rest) ← inflate? (← skipHeader? bytes)
  let (sum, rest) ← split? 4 rest
  let (size, rest) ← split? 4 rest
  if littleEndian sum = crc32 content ∧ littleEndian size = content.length % UInt32.size then
    some (content, rest)
  else none

/-- The content of the first member. -/
def decompress? (bytes : List UInt8) : Option (List UInt8) := (member? bytes).map (·.1)

end Gzip

end ObjectGraph
