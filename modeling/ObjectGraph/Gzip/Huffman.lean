-- SUMMARY: Canonical codes given by the lengths of their code words.
import ObjectGraph.Gzip.Bits

/-! # Canonical codes

A code is given by the length of the code word of each symbol, zero for a symbol
that has none. Code words are numbers in order of their length, then of their
symbol, so that the lengths alone determine them.
-/

namespace ObjectGraph

namespace Gzip

def maxCodeLength : Nat := 15

structure Code where
  /-- How many code words there are of length 1, 2 and so on. -/
  counts : List Nat
  /-- The symbols in the order of their code words. -/
  symbols : Array Nat

namespace Code

/-- The symbols whose code words have this length. -/
def symbolsOf (lengths : List Nat) (length : Nat) : List Nat :=
  (lengths.zipIdx.filter (·.1 == length)).map (·.2)

/-- The room that code words take, in code words of the greatest length. -/
def room (counts : List Nat) : Nat :=
  (counts.zipIdx 1).foldl (fun sum (count, length) => sum + count <<< (maxCodeLength - length)) 0

/-- The code of some lengths. With more than one symbol, code words have to use up
the room and no more. -/
def ofLengths? (lengths : List Nat) : Option Code :=
  let groups := (List.range' 1 maxCodeLength).map (symbolsOf lengths)
  let counts := groups.map (·.length)
  let symbols := groups.flatten
  if 1 < symbols.length ∧ room counts ≠ 1 <<< maxCodeLength then none
  else some ⟨counts, symbols.toArray⟩

/-- Read a symbol: `word` is the code word so far, `first` the first one of its
length, which belongs to the symbol at `index`. -/
def symbolFrom? (symbols : Array Nat) :
    (counts : List Nat) → (word first index : Nat) → Bits → Option (Nat × Bits)
  | [], _, _, _, _ => none
  | count :: counts, word, first, index, s => do
    let (b, s) ← s.bit?
    let word := 2 * word + b.toNat
    if word < first + count then return (← symbols[index + (word - first)]?, s)
    symbolFrom? symbols counts word (2 * (first + count)) (index + count) s

def symbol? (c : Code) (s : Bits) : Option (Nat × Bits) := symbolFrom? c.symbols c.counts 0 0 0 s

end Code

end Gzip

end ObjectGraph
