-- SUMMARY: YAML tokens: indicators, scalars, and the block structure that indentation implies.
import ObjectGraph.Yaml.ScalarText

/-! # Tokens

Indentation opens and closes blocks, so the lexer keeps the columns of the open
ones. Whether a scalar is a key shows only at the colon after it: the lexer
remembers where a key may have started and puts the tokens in front of it in
later. Such a key lies on one line and is at most 1024 characters long.
-/

namespace ObjectGraph

namespace Yaml

inductive Token where
  | version (major minor : Nat)
  | tagDirective (handle start : String)
  | documentStart
  | documentEnd
  | blockSequenceStart
  | blockMappingStart
  | blockEnd
  | flowSequenceStart
  | flowSequenceEnd
  | flowMappingStart
  | flowMappingEnd
  | blockEntry
  | flowEntry
  | key
  | value
  | alias (name : String)
  | anchor (name : String)
  | tag (handle suffix : String)
  | scalar (isPlain : Bool) (text : String)
deriving DecidableEq, Repr

/-! ## State -/

/-- A place where a key may have started. -/
structure SimpleKey where
  /-- Nothing but a key can stand there. -/
  required : Bool
  /-- The number of tokens before it. -/
  token : Nat
  index : Nat
  line : Nat
  column : Nat

structure Lexer where
  cursor : Cursor
  tokens : Array Token
  /-- The column of the innermost block, -1 outside of all. -/
  indent : Int
  /-- The columns of the blocks around it. -/
  indents : List Int
  keyAllowed : Bool
  /-- A possible key for the block level and for every open bracket, innermost first. -/
  keys : List (Option SimpleKey)

namespace Lexer

def start (text : List Char) : Lexer := ⟨.start text, #[], -1, [], true, [none]⟩

def inFlow (l : Lexer) : Bool := 1 < l.keys.length

def emit (l : Lexer) (t : Token) : Lexer := { l with tokens := l.tokens.push t }

def skip (l : Lexer) (n : Nat) : Lexer := { l with cursor := l.cursor.skip n }

def allowKey (l : Lexer) (allowed : Bool) : Lexer := { l with keyAllowed := allowed }

/-! ## Keys that may have started -/

/-- Give up the innermost possible key. -/
def dropKey (l : Lexer) : Option Lexer :=
  match l.keys with
  | some k :: rest => if k.required then none else some { l with keys := none :: rest }
  | _ => some l

/-- Note that a key may start here. -/
def noteKey (l : Lexer) : Option Lexer :=
  if l.keyAllowed then do
    let l ← l.dropKey
    let c := l.cursor
    let required := !l.inFlow && l.indent == c.column
    return { l with keys := some ⟨required, l.tokens.size, c.index, c.line, c.column⟩ :: l.keys.tail }
  else some l

/-- Give up the keys that are too far back. -/
def expireKeys (l : Lexer) : Option Lexer := do
  let keys ← l.keys.mapM fun k? =>
    match k? with
    | none => some none
    | some k =>
      if k.line < l.cursor.line || k.index + 1024 < l.cursor.index then
        if k.required then none else some none
      else some (some k)
  return { l with keys }

/-! ## Indentation -/

/-- Open a block at a column deeper than the innermost one, its token at place `at?`. -/
def openBlock (l : Lexer) (column : Nat) (at? : Option Nat) (t : Token) : Lexer :=
  if l.inFlow || (column : Int) ≤ l.indent then l
  else
    let tokens := match at? with
      | none => l.tokens.push t
      | some n => l.tokens.insertIdxIfInBounds n t
    { l with tokens, indent := column, indents := l.indent :: l.indents }

/-- Close the blocks deeper than a column. -/
def closeBlocks (l : Lexer) (column : Int) : Lexer :=
  if l.inFlow then l
  else
    let closed := (l.indent :: l.indents).takeWhile (column < ·)
    let kept := (l.indent :: l.indents).dropWhile (column < ·)
    match kept with
    | indent :: indents =>
      { l with indent, indents, tokens := l.tokens ++ closed.map fun _ => Token.blockEnd }
    | [] => l

/-! ## White space between tokens -/

def toNextToken : (fuel : Nat) → Lexer → Lexer
  | 0, l => l
  | fuel + 1, l =>
    let c := l.cursor
    let c := if c.index == 0 && c.peek == some '\ufeff' then c.skip 1 else c
    let tabs := l.inFlow || !l.keyAllowed
    let (_, c) := c.takeWhile fun ch => ch = ' ' || (tabs && ch = '\t')
    let c := c.skipComment
    if c.peek.any isLineBreak then
      toNextToken fuel { l with cursor := c.skipLine, keyAllowed := l.keyAllowed || !l.inFlow }
    else { l with cursor := c }

/-! ## Directives -/

def directiveNumber (c : Cursor) : Option (Nat × Cursor) :=
  let (digits, c) := c.takeWhile Char.isDigit
  if digits.isEmpty || 9 < digits.length then none
  else (readDigits? 10 digits).map (·, c)

/-- A handle: `!`, or word characters between two of them. A lone `!` before
words is a handle cut short, as a directive refuses it. -/
def tagHandle (isDirective : Bool) (c : Cursor) : Option (String × Cursor) :=
  if c.peek != some '!' then none
  else
    let (word, c) := (c.skip 1).takeWhile isWord
    if c.peek = some '!' then some (String.ofList ('!' :: word ++ ['!']), c.skip 1)
    else if isDirective && !word.isEmpty then none
    else some (String.ofList ('!' :: word), c)

/-- The number of bytes of a character in UTF-8, by its first byte. -/
def utf8Width? (byte : Nat) : Option Nat :=
  if byte < 0x80 then some 1
  else if 0xc0 ≤ byte && byte < 0xe0 then some 2
  else if 0xe0 ≤ byte && byte < 0xf0 then some 3
  else if 0xf0 ≤ byte && byte < 0xf8 then some 4
  else none

def escapedByte? (c : Cursor) : Option (Nat × Cursor) :=
  match c.rest with
  | '%' :: a :: b :: _ => (readDigits? 16 [a, b]).map (·, c.skip 3)
  | _ => none

/-- A character written as its bytes in hexadecimal. -/
def escapedChar? (c : Cursor) : Option (Char × Cursor) := do
  let (first, c) ← escapedByte? c
  let width ← utf8Width? first
  let (second, c) ← if 1 < width then escapedByte? c else some (0x80, c)
  let (third, c) ← if 2 < width then escapedByte? c else some (0x80, c)
  let (fourth, c) ← if 3 < width then escapedByte? c else some (0x80, c)
  let tail := [second, third, fourth]
  if tail.any fun b => b / 0x40 != 2 then none
  let leading := if width = 1 then first else first % (1 <<< (7 - width))
  let code := (tail.take (width - 1)).foldl (fun n b => n * 0x40 + b % 0x40) leading
  let ch ← Text.charOf? code
  if ch.utf8Size = width then some (ch, c) else none

/-- Characters of a tag, escapes resolved. -/
def tagChars (verbatim : Bool) : (fuel : Nat) → String → Cursor → Option (String × Cursor)
  | 0, _, _ => none
  | fuel + 1, text, c =>
    match c.peek with
    | some ch =>
      if ch = '%' then do
        let (e, c) ← escapedChar? c
        tagChars verbatim fuel (text.push e) c
      else if isTagChar ch || (verbatim && (ch = ',' || ch = '[' || ch = ']')) then
        tagChars verbatim fuel (text.push ch) (c.skip 1)
      else some (text, c)
    | none => some (text, c)

def directiveValue (fuel : Nat) (name : String) (c : Cursor) : Option (Token × Cursor) :=
  let c := c.skipBlanks
  if name = "YAML" then do
    let (major, c) ← directiveNumber c
    if c.peek != some '.' then none
    let (minor, c) ← directiveNumber (c.skip 1)
    return (.version major minor, c)
  else if name = "TAG" then do
    let (handle, c) ← tagHandle true c
    if !c.peek.any isBlank then none
    let (start, c) ← tagChars true fuel "" c.skipBlanks
    if start.isEmpty || !isGap c.peek then none
    return (.tagDirective handle start, c)
  else none

def directive (fuel : Nat) (l : Lexer) : Option Lexer := do
  let l ← (l.closeBlocks (-1)).dropKey
  let (name, c) := (l.cursor.skip 1).takeWhile isWord
  if name.isEmpty || !isGap c.peek then none
  let (t, c) ← directiveValue fuel (String.ofList name) c
  let c := c.skipBlanks.skipComment
  if !isLineEnd c.peek then none
  return { (l.emit t).allowKey false with cursor := c.skipLine }

/-! ## One token -/

def documentIndicator (l : Lexer) (t : Token) : Option Lexer := do
  let l ← (l.closeBlocks (-1)).dropKey
  return ((l.allowKey false).skip 3).emit t

def openFlow (l : Lexer) (t : Token) : Option Lexer := do
  let l ← l.noteKey
  return (({ l with keys := none :: l.keys }.allowKey true).skip 1).emit t

def closeFlow (l : Lexer) (t : Token) : Option Lexer := do
  let l ← l.dropKey
  let keys := if l.inFlow then l.keys.tail else l.keys
  return (({ l with keys }.allowKey false).skip 1).emit t

def flowEntry (l : Lexer) : Option Lexer := do
  return (((← l.dropKey).allowKey true).skip 1).emit .flowEntry

def blockEntry (l : Lexer) : Option Lexer := do
  if !l.inFlow && !l.keyAllowed then none
  let l ← (l.openBlock l.cursor.column none .blockSequenceStart).dropKey
  return ((l.allowKey true).skip 1).emit .blockEntry

def explicitKey (l : Lexer) : Option Lexer := do
  if !l.inFlow && !l.keyAllowed then none
  let l ← (l.openBlock l.cursor.column none .blockMappingStart).dropKey
  return ((l.allowKey (!l.inFlow)).skip 1).emit .key

/-- A colon: the key before it, if there may be one, gets its token now. -/
def valueIndicator (l : Lexer) : Option Lexer := do
  match l.keys with
  | some k :: rest =>
    let l := { l with tokens := l.tokens.insertIdxIfInBounds k.token .key, keys := none :: rest }
    let l := l.openBlock k.column (some k.token) .blockMappingStart
    return ((l.allowKey false).skip 1).emit .value
  | _ =>
    if !l.inFlow && !l.keyAllowed then none
    let l := l.openBlock l.cursor.column none .blockMappingStart
    return ((l.allowKey (!l.inFlow)).skip 1).emit .value

/-- The name of an anchor or alias. -/
def anchorName (l : Lexer) (make : String → Token) : Option Lexer := do
  let l ← l.noteKey
  let (name, c) := (l.cursor.skip 1).takeWhile isWord
  let ends := isGap c.peek || c.peek.any fun ch => "?:,]\x7d%@`".toList.contains ch
  if name.isEmpty || !ends then none
  return { (l.allowKey false).emit (make (String.ofList name)) with cursor := c }

/-- A tag: verbatim between `!<` and `>`, or a handle and a suffix. The lone `!`
has an empty handle. -/
def readTag (fuel : Nat) (c : Cursor) : Option (Token × Cursor) :=
  if c.ahead 1 = some '<' then do
    let (suffix, c) ← tagChars true fuel "" (c.skip 2)
    if suffix.isEmpty || c.peek != some '>' then none
    return (.tag "" suffix, c.skip 1)
  else do
    let (handle, c) ← tagHandle false c
    if 1 < handle.length && handle.endsWith "!" then
      let (suffix, c) ← tagChars false fuel "" c
      if suffix.isEmpty then none
      return (.tag handle suffix, c)
    else
      let (suffix, c) ← tagChars false fuel (String.ofList (handle.toList.drop 1)) c
      return (if suffix.isEmpty then .tag "" "!" else .tag "!" suffix, c)

def tag (fuel : Nat) (l : Lexer) : Option Lexer := do
  let l ← l.noteKey
  let (t, c) ← readTag fuel l.cursor
  if !isGap c.peek && !(l.inFlow && c.peek = some ',') then none
  return { (l.allowKey false).emit t with cursor := c }

def blockScalar (fuel : Nat) (literal : Bool) (l : Lexer) : Option Lexer := do
  let l ← l.dropKey
  let (text, c) ← readBlockScalar literal l.indent fuel (l.cursor.skip 1)
  return { (l.allowKey true).emit (.scalar false text) with cursor := c }

def quotedScalar (fuel : Nat) (quote : Char) (l : Lexer) : Option Lexer := do
  let l ← l.noteKey
  let (text, c) ← readQuoted quote fuel "" (l.cursor.skip 1)
  return { (l.allowKey false).emit (.scalar false text) with cursor := c }

def plainScalar (fuel : Nat) (l : Lexer) : Option Lexer := do
  let l ← l.noteKey
  let (text, newLine, c) ←
    readPlainScalar l.inFlow (l.indent + 1).toNat fuel "" (.within []) l.cursor
  return { (l.allowKey newLine).emit (.scalar true text) with cursor := c }

/-- Can a plain scalar start with these characters? -/
def startsPlain (inFlow : Bool) (ch : Char) (next : Option Char) : Bool :=
  !(isBlank ch || isLineBreak ch || "-?:,[]\x7b\x7d#&*!|>'\"%@`".toList.contains ch)
    || (ch = '-' && !next.any isBlank)
    || (!inFlow && (ch = '?' || ch = ':') && !isGap next)

/-- The next token, at a cursor that stands on its first character. -/
def token (fuel : Nat) (l : Lexer) (ch : Char) : Option Lexer :=
  let c := l.cursor
  let next := c.ahead 1
  if c.column = 0 ∧ ch = '%' then l.directive fuel
  else if c.atDocumentMark '-' then l.documentIndicator .documentStart
  else if c.atDocumentMark '.' then l.documentIndicator .documentEnd
  else if ch = '[' then l.openFlow .flowSequenceStart
  else if ch = '\x7b' then l.openFlow .flowMappingStart
  else if ch = ']' then l.closeFlow .flowSequenceEnd
  else if ch = '\x7d' then l.closeFlow .flowMappingEnd
  else if ch = ',' then l.flowEntry
  else if ch = '-' ∧ isGap next then l.blockEntry
  else if ch = '?' ∧ (l.inFlow ∨ isGap next) then l.explicitKey
  else if ch = ':' ∧ (l.inFlow ∨ isGap next) then l.valueIndicator
  else if ch = '*' then l.anchorName .alias
  else if ch = '&' then l.anchorName .anchor
  else if ch = '!' then l.tag fuel
  else if ch = '|' ∧ !l.inFlow then l.blockScalar fuel true
  else if ch = '>' ∧ !l.inFlow then l.blockScalar fuel false
  else if ch = '\'' ∨ ch = '"' then l.quotedScalar fuel ch
  else if startsPlain l.inFlow ch next then l.plainScalar fuel
  else none

/-- All tokens up to the end of the text. -/
def run : (fuel : Nat) → Lexer → Option (Array Token)
  | 0, _ => none
  | fuel + 1, l => do
    let l ← (l.toNextToken (fuel + 1)).expireKeys
    let l := l.closeBlocks l.cursor.column
    match l.cursor.peek with
    | none => return (← (l.closeBlocks (-1)).dropKey).tokens
    | some ch => run fuel (← l.token (fuel + 1) ch)

end Lexer

/-- The tokens of a text, if it is well formed so far. -/
def tokens? (text : List Char) : Option (List Token) :=
  if text.all isAllowed then
    (Lexer.run (text.length + 2) (.start text)).map (·.toList)
  else none

end Yaml

end ObjectGraph
