-- SUMMARY: Decompression of deflated data.
import ObjectGraph.Gzip.Huffman

/-! # Inflating

Deflated data is a sequence of blocks, stored as they are or coded. In a coded
block a symbol is a byte, the end of the block, or the length of a copy from the
output so far, followed by its distance. What lies before the output reads as
zeros.
-/

namespace ObjectGraph

namespace Gzip

/-! ## Lengths and distances -/

/-- The shortest length of each length symbol, and the number of bits to add to it. -/
def lengthBases : Array (Nat × Nat) :=
  #[(3, 0), (4, 0), (5, 0), (6, 0), (7, 0), (8, 0), (9, 0), (10, 0), (11, 1), (13, 1), (15, 1),
    (17, 1), (19, 2), (23, 2), (27, 2), (31, 2), (35, 3), (43, 3), (51, 3), (59, 3), (67, 4),
    (83, 4), (99, 4), (115, 4), (131, 5), (163, 5), (195, 5), (227, 5), (258, 0)]

/-- The same for distances. -/
def distanceBases : Array (Nat × Nat) :=
  #[(1, 0), (2, 0), (3, 0), (4, 0), (5, 1), (7, 1), (9, 2), (13, 2), (17, 3), (25, 3), (33, 4),
    (49, 4), (65, 5), (97, 5), (129, 6), (193, 6), (257, 7), (385, 7), (513, 8), (769, 8),
    (1025, 9), (1537, 9), (2049, 10), (3073, 10), (4097, 11), (6145, 11), (8193, 12),
    (12289, 12), (16385, 13), (24577, 13)]

/-- A base and the bits to add to it. -/
def extended? (bases : Array (Nat × Nat)) (symbol : Nat) (s : Bits) : Option (Nat × Bits) := do
  let (base, count) ← bases[symbol]?
  let (n, s) ← s.number? count
  return (base + n, s)

/-- The byte so far back in the output. -/
def byteBack (out : Array UInt8) (distance : Nat) : UInt8 :=
  if distance ≤ out.size then out[out.size - distance]?.getD 0 else 0

/-- Copy bytes from the output to its end. -/
def copyBack (distance : Nat) : (length : Nat) → Array UInt8 → Array UInt8
  | 0, out => out
  | length + 1, out => copyBack distance length (out.push (byteBack out distance))

/-! ## Coded blocks -/

structure Codes where
  literals : Code
  distances : Code

def endOfBlock : Nat := 256

/-- The symbols of a block up to its end. -/
def inflateSymbols (codes : Codes) : (fuel : Nat) → Array UInt8 → Bits → Option (Array UInt8 × Bits)
  | 0, _, _ => none
  | fuel + 1, out, s => do
    let (symbol, s) ← codes.literals.symbol? s
    if symbol < endOfBlock then inflateSymbols codes fuel (out.push (UInt8.ofNat symbol)) s
    else if symbol = endOfBlock then return (out, s)
    else
      let (length, s) ← extended? lengthBases (symbol - (endOfBlock + 1)) s
      let (symbol, s) ← codes.distances.symbol? s
      let (distance, s) ← extended? distanceBases symbol s
      inflateSymbols codes fuel (copyBack distance length out) s

/-- The codes of blocks that do not bring their own. -/
def fixedCodes? : Option Codes := do
  let literals ← Code.ofLengths?
    (.replicate 144 8 ++ .replicate 112 9 ++ .replicate 24 7 ++ .replicate 8 8)
  return ⟨literals, ← Code.ofLengths? (.replicate 32 5)⟩

/-! ## Codes in the data -/

/-- The order in which lengths of the code for lengths are stored. -/
def lengthOrder : List Nat := [16, 17, 18, 0, 8, 7, 9, 6, 10, 5, 11, 4, 12, 3, 13, 2, 14, 1, 15]

def numbers? (bits : Nat) : (count : Nat) → Bits → Option (List Nat × Bits)
  | 0, s => some ([], s)
  | count + 1, s => do
    let (n, s) ← s.number? bits
    let (ns, s) ← numbers? bits count s
    return (n :: ns, s)

/-- The code for code lengths. -/
def lengthCode? (count : Nat) (s : Bits) : Option (Code × Bits) := do
  let (ns, s) ← numbers? 3 count s
  let stored := lengthOrder.zip ns
  return (← Code.ofLengths? ((List.range 19).map fun i => (stored.lookup i).getD 0), s)

/-- Code lengths: as they are, or the last one or zero repeated. -/
def codeLengths? (code : Code) (total : Nat) :
    (fuel : Nat) → Array Nat → Bits → Option (Array Nat × Bits)
  | 0, _, _ => none
  | fuel + 1, done, s =>
    if done.size = total then some (done, s)
    else if total < done.size then none
    else do
      let (symbol, s) ← code.symbol? s
      if symbol < 16 then codeLengths? code total fuel (done.push symbol) s
      else
        let repeated ← if symbol = 16 then done.back? else some 0
        let (n, s) ← s.number? (if symbol = 16 then 2 else if symbol = 17 then 3 else 7)
        let count := n + if symbol = 18 then 11 else 3
        codeLengths? code total fuel (done ++ Array.replicate count repeated) s

def maxLiterals : Nat := 286

def maxDistances : Nat := 30

/-- The codes that a block brings. -/
def readCodes? (s : Bits) : Option (Codes × Bits) := do
  let (literals, s) ← s.number? 5
  let (distances, s) ← s.number? 5
  let (count, s) ← s.number? 4
  let literals := literals + 257
  let distances := distances + 1
  if maxLiterals < literals || maxDistances < distances then none
  let (code, s) ← lengthCode? (count + 4) s
  let total := literals + distances
  let (lengths, s) ← codeLengths? code total (total + 1) #[] s
  let lengths := lengths.toList
  return (⟨← Code.ofLengths? (lengths.take literals), ← Code.ofLengths? (lengths.drop literals)⟩, s)

/-! ## Blocks -/

/-- Bytes stored as they are, after their number and its complement. -/
def stored? (out : Array UInt8) (s : Bits) : Option (Array UInt8 × Bits) := do
  let (length, s) ← s.align.number? 16
  let (complement, s) ← s.number? 16
  if length + complement ≠ 0xffff || s.bytes.length < length then none
  return (out ++ (s.bytes.take length).toArray, ⟨[], s.bytes.drop length⟩)

/-- One block, and whether it is the last. -/
def block? (out : Array UInt8) (s : Bits) : Option (Bool × Array UInt8 × Bits) := do
  let (isLast, s) ← s.bit?
  let (kind, s) ← s.number? 2
  let (out, s) ← match kind with
    | 0 => stored? out s
    | 1 => do inflateSymbols (← fixedCodes?) (s.size + 1) out s
    | 2 => do
      let (codes, s) ← readCodes? s
      inflateSymbols codes (s.size + 1) out s
    | _ => none
  return (isLast, out, s)

def blocks? : (fuel : Nat) → Array UInt8 → Bits → Option (Array UInt8 × Bits)
  | 0, _, _ => none
  | fuel + 1, out, s => do
    let (isLast, out, s) ← block? out s
    if isLast then return (out, s)
    blocks? fuel out s

/-- Decompressed data, and the bytes after it. -/
def inflate? (bytes : List UInt8) : Option (List UInt8 × List UInt8) := do
  let s := Bits.ofBytes bytes
  let (out, s) ← blocks? (s.size + 1) #[] s
  return (out.toList, s.bytes)

end Gzip

end ObjectGraph
