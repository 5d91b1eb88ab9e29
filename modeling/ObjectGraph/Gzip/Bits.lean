-- SUMMARY: Bytes as a stream of bits.

/-! # Bits

Bits are taken from each byte starting with the lowest. Numbers are stored with
their lowest bit first.
-/

namespace ObjectGraph

namespace Gzip

structure Bits where
  /-- What is left of a byte that was started. -/
  started : List Bool
  bytes : List UInt8

namespace Bits

def ofBytes (bytes : List UInt8) : Bits := ⟨[], bytes⟩

/-- The lowest `count` bits of a number, the lowest first. -/
def ofNat : (count : Nat) → Nat → List Bool
  | 0, _ => []
  | count + 1, n => (n % 2 == 1) :: ofNat count (n / 2)

def bit? (s : Bits) : Option (Bool × Bits) :=
  match s.started with
  | b :: rest => some (b, ⟨rest, s.bytes⟩)
  | [] =>
    match s.bytes with
    | [] => none
    | byte :: bytes =>
      match ofNat 8 byte.toNat with
      | b :: rest => some (b, ⟨rest, bytes⟩)
      | [] => none

/-- A number of `count` bits. -/
def number? : (count : Nat) → Bits → Option (Nat × Bits)
  | 0, s => some (0, s)
  | count + 1, s => do
    let (b, s) ← s.bit?
    let (n, s) ← number? count s
    return (2 * n + b.toNat, s)

/-- Give up what is left of a started byte. -/
def align (s : Bits) : Bits := ⟨[], s.bytes⟩

/-- An upper bound for the number of bits. -/
def size (s : Bits) : Nat := s.started.length + 8 * s.bytes.length

end Bits

example : ((Bits.ofBytes [0x5a]).number? 4).map (·.1) = some 0xa := by decide

end Gzip

end ObjectGraph
