-- SUMMARY: The four forms of TOML strings, written and read.
import ObjectGraph.Text.Hex

/-! # Quoted strings

A string stands between single marks or, over several lines, between triple
marks; quotation marks allow for escapes, apostrophes do not. A string is written
in the first form that holds it as it is, and with escapes if there is none.
-/

namespace ObjectGraph

namespace Toml

/-! ## Characters -/

/-- Control characters other than the tab and the line feed. -/
def isControl (c : Char) : Bool :=
  (c.toNat < 0x20 && c != '\t' && c != '\n') || c.toNat = 0x7f

/-- Characters that stand for themselves within a line. -/
def isText (c : Char) : Bool := !isControl c && c != '\n'

/-- The length of the longest run of a character, with `run` of them just before. -/
def longestRun (mark : Char) : (run : Nat) → List Char → Nat
  | run, [] => run
  | run, c :: rest => if c = mark then longestRun mark (run + 1) rest else max run (longestRun mark 0 rest)

example : longestRun 'a' 0 "baabaaab".toList = 3 := by decide +kernel

/-! ## Writing -/

inductive Form where
  | basic
  | literal
  | longBasic
  | longLiteral
deriving DecidableEq, Repr

/-- The form that a string is written in. -/
def formOf (s : List Char) : Form :=
  let isLong := s.contains '\n'
  let hasControl := s.any isControl
  let hasSlash := s.contains '\\'
  let quotes := longestRun '"' 0 s
  let apostrophes := longestRun '\'' 0 s
  if !hasControl && !hasSlash && quotes = 0 && !isLong then .basic
  else if !hasControl && apostrophes = 0 && !isLong then .literal
  else if !hasControl && !hasSlash && quotes ≤ 2 then .longBasic
  else if !hasControl && apostrophes ≤ 2 then .longLiteral
  else if isLong then .longBasic
  else .basic

/-- One character between quotation marks. Line feeds stay only in long strings. -/
def escapeChar (isLong : Bool) (c : Char) : List Char :=
  if c = '\x08' then ['\\', 'b'] else if c = '\t' then ['\\', 't']
  else if c = '\n' then (if isLong then ['\n'] else ['\\', 'n'])
  else if c = '\x0c' then ['\\', 'f'] else if c = '\r' then ['\\', 'r']
  else if c = '\\' then ['\\', '\\']
  else if isControl c then '\\' :: 'u' :: (Text.hexUpper 4 c.toNat).toList
  else [c]

/-- Text between quotation marks. In long strings `quotes` counts the quotation
marks just before, of which no three may follow each other. -/
def escape (isLong : Bool) : (quotes : Nat) → List Char → List Char
  | _, [] => []
  | quotes, c :: rest =>
    if c = '"' then
      if isLong ∧ quotes < 2 then '"' :: escape isLong (quotes + 1) rest
      else '\\' :: '"' :: escape isLong 0 rest
    else escapeChar isLong c ++ escape isLong 0 rest

/-- A string in a form. Long strings with several lines start on a line of their own. -/
def writeAs (form : Form) (s : List Char) : List Char :=
  let start := if s.contains '\n' then ['\n'] else []
  match form with
  | .basic => ['"'] ++ escape false 0 s ++ ['"']
  | .literal => ['\''] ++ s ++ ['\'']
  | .longBasic => ['"', '"', '"'] ++ start ++ escape true 0 s ++ ['"', '"', '"']
  | .longLiteral => ['\'', '\'', '\''] ++ start ++ s ++ ['\'', '\'', '\'']

def writeString (s : List Char) : List Char := writeAs (formOf s) s

example : writeString "a\"b".toList = "'a\"b'".toList := by decide +kernel

/-! ## Reading

The readers start after the opening marks and pass the closing ones.
-/

/-- A reader takes what it reads from the front of a text. -/
abbrev Reader (α : Type) := List Char → Option (α × List Char)

/-- Escapes of one character. -/
def shortEscapes : List (Char × Char) :=
  [('b', '\x08'), ('t', '\t'), ('n', '\n'), ('f', '\x0c'), ('r', '\r'), ('"', '"'), ('\\', '\\')]

/-- Put a character in front of what is read. -/
def push (c : Char) : Option (List Char × List Char) → Option (List Char × List Char)
  | some (cs, rest) => some (c :: cs, rest)
  | none => none

/-- Text up to a quotation mark. -/
def readBasic : Reader (List Char)
  | [] => none
  | '"' :: rest => some ([], rest)
  | '\\' :: 'u' :: a :: b :: c :: d :: rest => do push (← Text.hexChar? [a, b, c, d]) (readBasic rest)
  | '\\' :: 'U' :: a :: b :: c :: d :: e :: f :: g :: h :: rest => do
    push (← Text.hexChar? [a, b, c, d, e, f, g, h]) (readBasic rest)
  | '\\' :: e :: rest => do push (← shortEscapes.lookup e) (readBasic rest)
  | c :: rest => if isText c ∧ c ≠ '\\' then push c (readBasic rest) else none

/-- Text up to an apostrophe. -/
def readLiteral : Reader (List Char)
  | [] => none
  | '\'' :: rest => some ([], rest)
  | c :: rest => if isText c then push c (readLiteral rest) else none

def isSpace (c : Char) : Bool := c = ' ' || c = '\t'

/-- Does a line end here, maybe after white space? -/
def endsLine (cs : List Char) : Bool :=
  match cs.dropWhile isSpace with
  | '\n' :: _ => true
  | '\r' :: '\n' :: _ => true
  | _ => false

/-- Text up to three quotation marks, which one or two more may precede. After a
backslash at the end of a line, `trim` leaves out white space and line ends. -/
def readLongBasic : (trim : Bool) → Reader (List Char)
  | _, [] => none
  | _, '"' :: '"' :: '"' :: '"' :: '"' :: rest => some (['"', '"'], rest)
  | _, '"' :: '"' :: '"' :: '"' :: rest => some (['"'], rest)
  | _, '"' :: '"' :: '"' :: rest => some ([], rest)
  | trim, '\r' :: '\n' :: rest =>
    if trim then readLongBasic true rest else push '\n' (readLongBasic false rest)
  | _, '\\' :: 'u' :: a :: b :: c :: d :: rest => do
    push (← Text.hexChar? [a, b, c, d]) (readLongBasic false rest)
  | _, '\\' :: 'U' :: a :: b :: c :: d :: e :: f :: g :: h :: rest => do
    push (← Text.hexChar? [a, b, c, d, e, f, g, h]) (readLongBasic false rest)
  | _, '\\' :: e :: rest =>
    if endsLine (e :: rest) then readLongBasic true (e :: rest)
    else do push (← shortEscapes.lookup e) (readLongBasic false rest)
  | trim, c :: rest =>
    if trim && (isSpace c || c = '\n') then readLongBasic true rest
    else if (isText c && c != '\\') || c = '\n' then push c (readLongBasic false rest)
    else none

/-- Text up to three apostrophes, which one or two more may precede. -/
def readLongLiteral : Reader (List Char)
  | [] => none
  | '\'' :: '\'' :: '\'' :: '\'' :: '\'' :: rest => some (['\'', '\''], rest)
  | '\'' :: '\'' :: '\'' :: '\'' :: rest => some (['\''], rest)
  | '\'' :: '\'' :: '\'' :: rest => some ([], rest)
  | '\r' :: '\n' :: rest => push '\n' (readLongLiteral rest)
  | c :: rest => if isText c || c = '\n' then push c (readLongLiteral rest) else none

/-- Pass a line end. -/
def dropLineEnd : List Char → List Char
  | '\n' :: rest => rest
  | '\r' :: '\n' :: rest => rest
  | rest => rest

/-- A string in any form. A line end right after three marks does not count. -/
def readString : Reader (List Char)
  | '"' :: '"' :: '"' :: rest => readLongBasic false (dropLineEnd rest)
  | '"' :: rest => readBasic rest
  | '\'' :: '\'' :: '\'' :: rest => readLongLiteral (dropLineEnd rest)
  | '\'' :: rest => readLiteral rest
  | _ => none

end Toml

end ObjectGraph
