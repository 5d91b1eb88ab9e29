-- SUMMARY: Reading integers in a radix and decimal floating-point notation.
import ObjectGraph.Number.Binary64

/-! # Reading numbers

Digits in a radix, and decimal notation: digits with at most one point among
them, then optionally an exponent.
-/

namespace ObjectGraph

/-- The value of a digit in radix 16 or below. -/
def digitValue? (radix : Nat) (c : Char) : Option Nat :=
  let value? :=
    if c.isDigit then some (c.toNat - '0'.toNat)
    else if 'a' ≤ c ∧ c ≤ 'f' then some (c.toNat - 'a'.toNat + 10)
    else if 'A' ≤ c ∧ c ≤ 'F' then some (c.toNat - 'A'.toNat + 10)
    else none
  value?.filter (· < radix)

/-- The number that digits denote; at least one digit is needed. -/
def readDigits? (radix : Nat) (text : List Char) : Option Nat :=
  if text.isEmpty then none
  else text.foldlM (fun n c => (digitValue? radix c).map (n * radix + ·)) 0

namespace Binary64

/-- The exponent that follows the digits: nothing, or `e`, a sign and digits. -/
def readExponent? : List Char → Option Int
  | [] => some 0
  | e :: rest =>
    if e = 'e' ∨ e = 'E' then
      match rest with
      | '-' :: digits => (readDigits? 10 digits).map fun n => -(n : Int)
      | '+' :: digits => (readDigits? 10 digits).map fun n => (n : Int)
      | digits => (readDigits? 10 digits).map fun n => (n : Int)
    else none

/-- Decimal notation without a sign. -/
def readUnsigned? (negative : Bool) (text : List Char) : Option Binary64 :=
  let whole := text.takeWhile Char.isDigit
  let afterWhole := text.dropWhile Char.isDigit
  let (fraction, rest) := match afterWhole with
    | '.' :: more => (more.takeWhile Char.isDigit, more.dropWhile Char.isDigit)
    | more => ([], more)
  match readDigits? 10 (whole ++ fraction), readExponent? rest with
  | some digits, some exponent => some (ofDecimal negative digits (exponent - fraction.length))
  | _, _ => none

/-- Decimal notation with an optional sign, rounded to the nearest double. -/
def read? : List Char → Option Binary64
  | '-' :: text => readUnsigned? true text
  | '+' :: text => readUnsigned? false text
  | text => readUnsigned? false text

end Binary64

end ObjectGraph
