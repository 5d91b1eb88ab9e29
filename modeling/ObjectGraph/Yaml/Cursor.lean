-- SUMMARY: A place in a YAML text, and the classes of characters that the grammar tells apart.
import ObjectGraph.Yaml.Block

/-! # Cursors

A cursor is what is left of a text, with its position. Line ends count as one
step of the cursor whatever characters they consist of.
-/

namespace ObjectGraph

namespace Yaml

/-! ## Characters -/

/-- The characters that a text may hold. -/
def isAllowed (c : Char) : Bool :=
  let n := c.toNat
  n == 0x9 || n == 0xa || n == 0xd || (0x20 ≤ n && n ≤ 0x7e) || n == 0x85
    || (0xa0 ≤ n && n ≤ 0xfffd) || 0x10000 ≤ n

def isBlank (c : Char) : Bool := c = ' ' || c = '\t'

/-- Characters of anchors and tag handles. -/
def isWord (c : Char) : Bool := c.isAlphanum || c = '_' || c = '-'

/-- Characters of tags. -/
def isTagChar (c : Char) : Bool := isWord c || ";/?:@&=+$.%!~*'()".toList.contains c

/-- Indicators that end a plain scalar between brackets. -/
def isFlowIndicator (c : Char) : Bool := c = ',' || c = '[' || c = ']' || c = '\x7b' || c = '\x7d'

/-- White space, a line end, or the end of the text. -/
def isGap : Option Char → Bool
  | none => true
  | some c => isBlank c || isLineBreak c

/-- A line end, or the end of the text. -/
def isLineEnd : Option Char → Bool
  | none => true
  | some c => isLineBreak c

/-! ## Cursors -/

structure Cursor where
  rest : List Char
  index : Nat
  line : Nat
  column : Nat

namespace Cursor

def start (text : List Char) : Cursor := ⟨text, 0, 0, 0⟩

/-- The next character. -/
def peek (c : Cursor) : Option Char := c.rest.head?

/-- The character `n` places ahead. -/
def ahead (c : Cursor) (n : Nat) : Option Char := c.rest[n]?

/-- Pass `n` characters of a line. -/
def skip (c : Cursor) (n : Nat) : Cursor := ⟨c.rest.drop n, c.index + n, c.line, c.column + n⟩

/-- Pass a line end. -/
def skipLine (c : Cursor) : Cursor :=
  match c.rest with
  | '\r' :: '\n' :: rest => ⟨rest, c.index + 2, c.line + 1, 0⟩
  | b :: rest => if isLineBreak b then ⟨rest, c.index + 1, c.line + 1, 0⟩ else c
  | [] => c

/-- Pass a line end and say what it reads as: the separators of lines and
paragraphs stand for themselves, all others for a line feed. -/
def readLine (c : Cursor) : List Char × Cursor :=
  match c.peek with
  | some b =>
    if b.toNat = 0x2028 ∨ b.toNat = 0x2029 then ([b], c.skipLine)
    else if isLineBreak b then (['\n'], c.skipLine)
    else ([], c)
  | none => ([], c)

/-- Pass the characters of a class and return them. -/
def takeWhile (c : Cursor) (p : Char → Bool) : List Char × Cursor :=
  let taken := c.rest.takeWhile p
  (taken, c.skip taken.length)

def skipBlanks (c : Cursor) : Cursor := (c.takeWhile isBlank).2

/-- Pass a comment, if one starts here. -/
def skipComment (c : Cursor) : Cursor :=
  if c.peek = some '#' then (c.takeWhile (!isLineBreak ·)).2 else c

/-- Does a line start here with three such characters and a gap? -/
def atDocumentMark (c : Cursor) (mark : Char) : Bool :=
  c.column == 0 && [mark, mark, mark].isPrefixOf c.rest && isGap (c.ahead 3)

def atDocumentIndicator (c : Cursor) : Bool := c.atDocumentMark '-' || c.atDocumentMark '.'

end Cursor

end Yaml

end ObjectGraph
