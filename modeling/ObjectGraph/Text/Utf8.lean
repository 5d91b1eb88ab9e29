-- SUMMARY: Reading UTF-8.

/-! # UTF-8

A byte below 128 is a character. Other characters have a first byte that tells
their length, and continue with bytes of six bits each. A longer form than
needed, a surrogate, and what is beyond the last character are refused.
-/

namespace ObjectGraph

namespace Text

/-- The six bits of a continuation byte. -/
def continuation? (b : UInt8) : Option Nat := if b.toNat / 0x40 = 2 then some (b.toNat % 0x40) else none

/-- The character of a number that needs a form at least this long. -/
def charAbove? (least n : Nat) : Option Char :=
  if h : n.isValidChar then (if least ≤ n then some (Char.ofNatAux n h) else none) else none

/-- Read characters onto the ones before them, which are in reverse. -/
def decodeOnto (done : List Char) : List UInt8 → Option (List Char)
  | [] => some done.reverse
  | a :: rest =>
    let n := a.toNat
    if n < 0x80 then decodeOnto (Char.ofNat n :: done) rest
    else match rest with
    | [] => none
    | b :: rest =>
      match continuation? b with
      | none => none
      | some b =>
        if 0xc0 ≤ n ∧ n < 0xe0 then
          match charAbove? 0x80 (0x40 * (n - 0xc0) + b) with
          | some c => decodeOnto (c :: done) rest
          | none => none
        else match rest with
        | [] => none
        | c :: rest =>
          match continuation? c with
          | none => none
          | some c =>
            if 0xe0 ≤ n ∧ n < 0xf0 then
              match charAbove? 0x800 (0x1000 * (n - 0xe0) + 0x40 * b + c) with
              | some c => decodeOnto (c :: done) rest
              | none => none
            else match rest with
            | [] => none
            | d :: rest =>
              match continuation? d with
              | none => none
              | some d =>
                if 0xf0 ≤ n ∧ n < 0xf8 then
                  match charAbove? 0x10000 (0x40000 * (n - 0xf0) + 0x1000 * b + 0x40 * c + d) with
                  | some c => decodeOnto (c :: done) rest
                  | none => none
                else none

/-- The text of bytes in UTF-8. -/
def decode? (bytes : List UInt8) : Option String := (decodeOnto [] bytes).map String.ofList

example : decode? [0x61, 0xc3, 0xa9, 0xf0, 0x9f, 0x98, 0x80] = some "aé😀" := by decide +kernel
example : decode? [0xc1, 0xa1] = none := by decide +kernel
example : decode? [0xed, 0xa0, 0x80] = none := by decide +kernel

end Text

end ObjectGraph
