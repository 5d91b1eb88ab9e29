-- SUMMARY: Characters by their numbers in hexadecimal notation.
import ObjectGraph.Number.Read

/-! # Hexadecimal notation of characters -/

namespace ObjectGraph

namespace Text

/-- The character of a code point, unless it is a surrogate or out of range. -/
def charOf? (n : Nat) : Option Char :=
  if h : n.isValidChar then some (Char.ofNatAux n h) else none

/-- The character of a number in hexadecimal digits. -/
def hexChar? (digits : List Char) : Option Char := (readDigits? 16 digits).bind charOf?

/-- A number in hexadecimal digits of which the letters are capitals, with at least `width` digits. -/
def hexUpper (width n : Nat) : String :=
  let digits := (Nat.toDigits 16 n).map Char.toUpper
  String.ofList (List.replicate (width - digits.length) '0' ++ digits)

example : hexUpper 4 0xab = "00AB" := by decide +kernel

end Text

end ObjectGraph
