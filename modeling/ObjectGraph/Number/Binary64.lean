-- SUMMARY: Double-precision numbers as 64-bit words: exact value, comparison, rounding.

/-! # Double-precision numbers

A `Binary64` is the 64-bit word of an IEEE 754 double. The magnitude of a finite
number is a natural number of units of `2 ^ -1074`, so comparison and rounding
are exact arithmetic on naturals.
-/

namespace ObjectGraph

structure Binary64 where
  word : UInt64
deriving DecidableEq, Repr, Inhabited

namespace Binary64

/-! ## Fields -/

/-- The weight of the sign bit. -/
def signWeight : Nat := 1 <<< 63

/-- The weight of the leading bit of a normal significand, one above the fraction. -/
def leadingWeight : Nat := 1 <<< 52

def sign (x : Binary64) : Bool := signWeight ≤ x.word.toNat

def biasedExponent (x : Binary64) : Nat := x.word.toNat / leadingWeight % 2048

def fraction (x : Binary64) : Nat := x.word.toNat % leadingWeight

def isFinite (x : Binary64) : Bool := x.biasedExponent != 2047

def isNaN (x : Binary64) : Bool := x.biasedExponent == 2047 && x.fraction != 0

/-- The whole significand, with the leading bit of a normal number. -/
def significand (x : Binary64) : Nat :=
  if x.biasedExponent = 0 then x.fraction else leadingWeight + x.fraction

/-- The weight of the last significand bit, as a power of two units. -/
def scale (x : Binary64) : Nat := x.biasedExponent - 1

/-- The magnitude of a finite number in units of `2 ^ -1074`. -/
def magnitude (x : Binary64) : Nat := x.significand <<< x.scale

/-- The value of a finite number in units of `2 ^ -1074`. -/
def scaled (x : Binary64) : Int := if x.sign then -(x.magnitude : Int) else x.magnitude

def nan : Binary64 := ⟨0x7ff8000000000000⟩

def infinity (negative : Bool) : Binary64 :=
  if negative then ⟨0xfff0000000000000⟩ else ⟨0x7ff0000000000000⟩

/-! ## Comparison -/

/-- Numeric equality: the two zeros are equal, and a NaN equals nothing. -/
def equals (x y : Binary64) : Bool :=
  if x.isFinite && y.isFinite then x.scaled == y.scaled
  else !x.isNaN && !y.isNaN && x == y

theorem equals_comm (x y : Binary64) : x.equals y = y.equals x := by
  simp only [equals, Bool.and_comm y.isFinite, Bool.and_comm (!y.isNaN)]
  split
  · exact BEq.comm
  · rw [BEq.comm (a := x)]

theorem equals_self_iff (x : Binary64) : x.equals x = true ↔ x.isNaN = false := by
  by_cases h : x.isFinite = true
  · have : x.isNaN = false := by simp_all [isFinite, isNaN]
    simp [equals, h, this]
  · simp [equals, h]

/-! ## Rounding -/

/-- Quotient to the nearest natural, a half going to the even neighbour. -/
def roundDiv (num den : Nat) : Nat :=
  let q := num / den
  let r := num % den
  if 2 * r < den then q
  else if den < 2 * r then q + 1
  else if q % 2 = 0 then q else q + 1

/-- The word of the double nearest to the magnitude `num / den` in units of
`2 ^ -1074`, ties to even, beyond the largest finite one infinity. -/
def roundUnits (num den : Nat) : Nat :=
  let shift := Nat.log2 (num / den) - 52
  let word := shift * leadingWeight + roundDiv num (den <<< shift)
  min word (2047 * leadingWeight)

/-- The double nearest to `± num / den`, ties to even. -/
def ofRatio (negative : Bool) (num den : Nat) : Binary64 :=
  let word := roundUnits (num <<< 1074) den
  ⟨UInt64.ofNat (if negative then signWeight + word else word)⟩

/-- The double nearest to an integer, ties to even. -/
def ofInt (i : Int) : Binary64 := ofRatio (i < 0) i.natAbs 1

/-- The double nearest to the decimal `± digits * 10 ^ exponent`, ties to even.
Exponents out of range are decided from the number of digits, so that no huge
power is formed. -/
def ofDecimal (negative : Bool) (digits : Nat) (exponent : Int) : Binary64 :=
  let width : Int := (Nat.toDigits 10 digits).length
  if digits = 0 ∨ width + exponent < -400 then ofRatio negative 0 1
  else if 400 < width + exponent then infinity negative
  else if 0 ≤ exponent then ofRatio negative (digits * Nat.pow 10 exponent.toNat) 1
  else ofRatio negative digits (Nat.pow 10 exponent.natAbs)

example : (ofInt 3).word = 0x4008000000000000 := by decide +kernel
example : ofInt 9007199254740993 = ofInt 9007199254740992 := by decide +kernel
example : (ofDecimal false 1 (-1)).word = 0x3fb999999999999a := by decide +kernel

end Binary64

end ObjectGraph
