-- SUMMARY: Sets and partitions of the code points, given by the places where they change.

/-! # Boundaries

A property of characters is constant on long runs of code points, so it is kept
as the sorted places where it changes. The tables are written as numbers in base
26, every number as its distance from the one before it.
-/

namespace ObjectGraph

namespace Text

/-! ## Written tables -/

/-- Numbers whose digits are letters, the last digit of each a capital. -/
def readNumbers (text : String) : List Nat :=
  let digit (pair : Nat × List Nat) (c : Char) : Nat × List Nat :=
    if c.isUpper then (0, (26 * pair.1 + (c.toNat - 'A'.toNat)) :: pair.2)
    else (26 * pair.1 + (c.toNat - 'a'.toNat), pair.2)
  (text.toList.foldl digit (0, [])).2.reverse

example : readNumbers "CbaAcB" = [2, 676, 53] := by decide +kernel

/-- Numbers from their distances. -/
def readDistances (start : Nat) : List Nat → List Nat
  | [] => []
  | d :: rest => (start + d) :: readDistances (start + d) rest

/-- How many of the sorted numbers are at most `n`. -/
def rank (sorted : Array Nat) (n : Nat) : Nat := go sorted.size 0 sorted.size
where
  /-- The answer lies between `low` and `high`. -/
  go : (fuel : Nat) → (low high : Nat) → Nat
  | 0, low, _ => low
  | fuel + 1, low, high =>
    let middle := (low + high) / 2
    if high ≤ low then low
    else if sorted[middle]?.any (· ≤ n) then go fuel (middle + 1) high
    else go fuel low middle

example : rank #[3, 5, 9] 5 = 2 := by decide

/-! ## Sets -/

/-- A set of code points: runs in it and runs outside of it take turns. -/
structure CodeSet where
  bounds : Array Nat

def CodeSet.ofText (text : String) : CodeSet := ⟨(readDistances 0 (readNumbers text)).toArray⟩

def CodeSet.contains (s : CodeSet) (n : Nat) : Bool := rank s.bounds n % 2 == 1

/-! ## Partitions -/

/-- A number for every code point. -/
structure Partition where
  starts : Array Nat
  values : Array Nat

/-- Every other number is the start of a run, the ones between are the values. -/
def Partition.ofNumbers (start : Nat) : List Nat → List (Nat × Nat)
  | d :: v :: rest => (start + d, v) :: ofNumbers (start + d) rest
  | _ => []

def Partition.ofText (text : String) : Partition :=
  let runs := Partition.ofNumbers 0 (readNumbers text)
  ⟨(runs.map (·.1)).toArray, (runs.map (·.2)).toArray⟩

def Partition.valueAt (p : Partition) (n : Nat) : Nat := p.values[rank p.starts n - 1]?.getD 0

end Text

end ObjectGraph
