-- SUMMARY: The shortest decimal digits that read back as a double, and their layouts.
import ObjectGraph.Number.Binary64

/-! # Shortest decimals

`Binary64.shortest` finds the decimal with the fewest digits inside the interval
of values that round to a double, the one nearest to it if there are several.
A `NumberLayout` says how the digits are set out.
-/

namespace ObjectGraph

/-- The number `digits * 10 ^ exponent`. -/
structure Decimal where
  digits : Nat
  exponent : Int
deriving DecidableEq, Repr

/-- Remove up to `n` zeros at the end of the digits. -/
def Decimal.stripZeros : Nat → Decimal → Decimal
  | 0, d => d
  | n + 1, d =>
    if d.digits % 10 = 0 ∧ d.digits ≠ 0 then stripZeros n ⟨d.digits / 10, d.exponent + 1⟩ else d

namespace Binary64

/-- The two ends of the interval that rounds to a positive finite number, in
quarters of its last significand bit, and the number itself. Below a power of
two the lower neighbour is half as far. -/
def roundingInterval (x : Binary64) : Nat × Nat × Nat :=
  let centre := 4 * x.significand
  let below := if x.fraction = 0 && 1 < x.biasedExponent then 1 else 2
  (centre - below, centre, centre + 2)

/-- Compare `a * 2 ^ p * 10 ^ k` with `b`, where a quarter bit is `2 ^ p`: both
sides are put over the common denominator as naturals. -/
def overCommonUnit (p : Int) (k : Int) (a b : Nat) : Nat × Nat :=
  ((a <<< p.toNat) * Nat.pow 10 k.toNat, (b <<< (-p).toNat) * Nat.pow 10 (-k).toNat)

/-- The multiple of `10 ^ k` nearest to the number among those that round to it,
if there is one. The end points belong to the interval when the significand is even. -/
def nearestMultiple (x : Binary64) (k : Int) : Option Nat :=
  let (low, centre, high) := x.roundingInterval
  let p : Int := (x.scale : Int) - 1076
  let closed := x.significand % 2 = 0
  let inside (n : Nat) : Bool :=
    let (l, t) := overCommonUnit p (-k) low n
    let (h, t') := overCommonUnit p (-k) high n
    if closed then l ≤ t && t' ≤ h else l < t && t' < h
  let (c, unit) := overCommonUnit p (-k) centre 1
  let floor := c / unit
  let nearFloor := 2 * (c % unit) < unit || (2 * (c % unit) == unit && floor % 2 == 0)
  let (first, second) := if nearFloor then (floor, floor + 1) else (floor + 1, floor)
  if inside first then some first else if inside second then some second else none

/-- The decimal exponent `e` with `10 ^ (e - 1) ≤ x < 10 ^ e`, for a positive finite number. -/
def decimalWidth (x : Binary64) : Int :=
  let units := x.magnitude
  let ones := units >>> 1074
  if ones = 0 then
    let scaled := (units * Nat.pow 10 400) >>> 1074
    (Nat.toDigits 10 scaled).length - 400
  else (Nat.toDigits 10 ones).length

/-- The decimal of fewest digits that reads back as the finite number, without
its sign. -/
def shortest (x : Binary64) : Decimal :=
  if x.magnitude = 0 then ⟨0, 0⟩
  else
    let width := x.decimalWidth
    let found := (List.range 17).findSome? fun (n : Nat) =>
      let k := width - n - 1
      (x.nearestMultiple k).bind fun d => if d = 0 then none else some (Decimal.mk d k)
    (found.getD ⟨x.magnitude, 0⟩).stripZeros 20

end Binary64

/-! ## Layouts -/

/-- How a floating-point number is written. -/
structure NumberLayout where
  /-- Decimal widths written without an exponent: all, or those in a closed range. -/
  positional : Option (Int × Int)
  /-- A whole number written without an exponent ends in `.0`. -/
  keepPoint : Bool
  /-- What stands before a non-negative exponent. -/
  plus : String
  nan : String
  infinity : String

namespace NumberLayout

/-- The display form: every digit, no exponent, no point after a whole number. -/
def plain : NumberLayout := ⟨none, false, "", "NaN", "inf"⟩

/-- The form of JSON output; what is not finite never reaches it. -/
def json : NumberLayout := ⟨some (-4, 16), true, "+", "null", "null"⟩

/-- The form of block-style YAML text. -/
def yaml : NumberLayout := ⟨some (-4, 16), true, "", ".nan", ".inf"⟩

/-- Write a decimal without its sign. -/
def writeDecimal (l : NumberLayout) (d : Decimal) : String :=
  let digits := Nat.toDigits 10 d.digits
  let width : Int := digits.length + d.exponent
  let zeros (n : Int) := List.replicate n.toNat '0'
  let inRange := match l.positional with
    | none => true
    | some (lo, hi) => lo ≤ width && width ≤ hi
  if d.digits = 0 then (if l.keepPoint then "0.0" else "0")
  else if inRange then
    if 0 ≤ d.exponent then
      String.ofList (digits ++ zeros d.exponent ++ (if l.keepPoint then ['.', '0'] else []))
    else if 0 < width then
      String.ofList (digits.take width.toNat ++ '.' :: digits.drop width.toNat)
    else String.ofList ('0' :: '.' :: zeros (-width) ++ digits)
  else
    let exponent := width - 1
    let mantissa := match digits with
      | [c] => [c]
      | c :: rest => c :: '.' :: rest
      | [] => []
    String.ofList mantissa ++ "e" ++ (if 0 ≤ exponent then l.plus else "") ++ toString exponent

def write (l : NumberLayout) (x : Binary64) : String :=
  let minus := if x.sign then "-" else ""
  if x.isNaN then l.nan
  else if !x.isFinite then minus ++ l.infinity
  else minus ++ l.writeDecimal x.shortest

end NumberLayout

end ObjectGraph
