-- SUMMARY: YAML values as block-style text.
import ObjectGraph.Text.Hex
import ObjectGraph.Yaml.Basic

/-! # Block style

A value is written with one item or entry to a line, two blanks deeper at every
level. The pen keeps what the layout depends on: the column, whether the last
thing written was a separator, and whether the line holds nothing but
indentation so far.
-/

namespace ObjectGraph

namespace Yaml

/-! ## The pen -/

structure Pen where
  text : String
  column : Nat
  /-- A separator was written last. -/
  spaced : Bool
  /-- The line holds only indentation and indicators. -/
  fresh : Bool

namespace Pen

def start : Pen := ⟨"", 0, true, true⟩

def put (p : Pen) (s : String) : Pen := { p with text := p.text ++ s, column := p.column + s.length }

def newline (p : Pen) : Pen := { p with text := p.text ++ "\n", column := 0 }

/-- Go to an indentation, on a new line unless this one is still unused. -/
def indentTo (p : Pen) (indent : Nat) : Pen :=
  let p := if !p.fresh || indent < p.column || (p.column == indent && !p.spaced) then p.newline else p
  let p := p.put (String.ofList (List.replicate (indent - p.column) ' '))
  { p with spaced := true, fresh := true }

/-- Write an indicator, after a blank where it needs one. -/
def indicator (p : Pen) (s : String) (needsSpace isIndentation : Bool) : Pen :=
  let p := if needsSpace && !p.spaced then p.put " " else p
  { p.put s with spaced := false, fresh := p.fresh && isIndentation }

end Pen

/-! ## Characters -/

def isLineBreak (c : Char) : Bool :=
  c = '\n' || c = '\r' || c.toNat == 0x85 || c.toNat == 0x2028 || c.toNat == 0x2029

/-- Characters that need no escape. -/
def isPrintable (c : Char) : Bool :=
  let n := c.toNat
  n == 0xa || (0x20 ≤ n && n ≤ 0x7e) || (0xa0 ≤ n && n ≤ 0xfffd && n != 0xfeff) || 0x10000 ≤ n

/-- One character between double quotes. -/
def escapeChar (c : Char) : String :=
  let n := c.toNat
  if c = '"' then "\\\"" else if c = '\\' then "\\\\"
  else if isPrintable c && !isLineBreak c then c.toString
  else if n = 0 then "\\0" else if n = 7 then "\\a" else if n = 8 then "\\b"
  else if n = 9 then "\\t" else if n = 10 then "\\n" else if n = 11 then "\\v"
  else if n = 12 then "\\f" else if n = 13 then "\\r" else if n = 0x1b then "\\e"
  else if n = 0x85 then "\\N" else if n = 0x2028 then "\\L" else if n = 0x2029 then "\\P"
  else if n ≤ 0xff then "\\x" ++ Text.hexUpper 2 n
  else if n ≤ 0xffff then "\\u" ++ Text.hexUpper 4 n
  else "\\U" ++ Text.hexUpper 8 n

/-! ## Styles of scalars -/

inductive Style where
  | plain
  | singleQuoted
  | doubleQuoted
  | literal
deriving DecidableEq, Repr

/-- What a text allows. -/
structure Traits where
  multiline : Bool
  plain : Bool
  singleQuoted : Bool
  block : Bool

/-- Adjacent pairs with their two properties. -/
def hasPair (p q : Char → Bool) : List Char → Bool
  | a :: b :: rest => (p a && q b) || hasPair p q (b :: rest)
  | _ => false

def isSpaceOrBreak (c : Char) : Bool := c = ' ' || c = '\t' || isLineBreak c

/-- A colon before white space or the end, or a number sign after white space. -/
def hasInnerIndicator : List Char → Bool
  | a :: b :: rest =>
    (b = ':' && rest.head?.all isSpaceOrBreak) || (b = '#' && isSpaceOrBreak a)
      || hasInnerIndicator (b :: rest)
  | _ => false

/-- Does the start of the text, or a mark inside it, mean something in block style? -/
def hasBlockIndicator (text : List Char) : Bool :=
  match text with
  | [] => false
  | c :: rest =>
    ['-', '-', '-'].isPrefixOf text || ['.', '.', '.'].isPrefixOf text
      || "#,[]\x7b\x7d&*!|>'\"%@`".toList.contains c
      || ("?:-".toList.contains c && rest.head?.all isSpaceOrBreak)
      || hasInnerIndicator text

def traits (text : List Char) : Traits :=
  if text.isEmpty then ⟨false, true, true, false⟩
  else
    let isSpace (c : Char) : Bool := c = ' '
    let edge (o : Option Char) : Bool := o.any fun c => isSpace c || isLineBreak c
    let multiline := text.any isLineBreak
    let special := text.any (!isPrintable ·) || hasPair isSpace isLineBreak text
    let breakSpace := hasPair isLineBreak isSpace text
    { multiline
      plain := !(edge text.head? || edge text.getLast? || breakSpace || special || multiline
        || hasBlockIndicator text)
      singleQuoted := !(breakSpace || special)
      block := !(text.getLast?.any isSpace || special) }

/-- The style that a string asks for: quotes where it would read as something else. -/
def wantedStyle (s : String) : Style :=
  if s.toList.contains '\n' then .literal
  else if isZeroPadded s.toList then .singleQuoted
  else match readPlain s.toList with
    | .value (.string _) => .plain
    | _ => .singleQuoted

/-- The style that a text gets where it stands. -/
def chosenStyle (wanted : Style) (t : Traits) (isEmpty isKey : Bool) : Style :=
  let style := if isKey && t.multiline then .doubleQuoted else wanted
  let style := if style = .plain && (!t.plain || (isEmpty && isKey)) then .singleQuoted else style
  let style := if style = .singleQuoted && !t.singleQuoted then .doubleQuoted else style
  if style = .literal && (!t.block || isKey) then .doubleQuoted else style

/-! ## Writing scalars -/

/-- The marks after the bar of a literal text: an indentation where the text
starts with white space, and what to do with the line ends at its end. -/
def literalHints (text : List Char) : String :=
  let indent := if text.head?.any fun c => c = ' ' || isLineBreak c then "2" else ""
  let chomp := match text.reverse with
    | [] => "-"
    | c :: rest =>
      if !isLineBreak c then "-" else if rest.head?.all isLineBreak then "+" else ""
  indent ++ chomp

/-- The lines of a literal text, each at the indentation. -/
def Pen.literalLines (indent : Nat) : (lineStart : Bool) → List Char → Pen → Pen
  | _, [], p => p
  | lineStart, c :: rest, p =>
    if isLineBreak c then
      let p := if c = '\n' then p.newline else { p with text := p.text.push c, column := 0 }
      literalLines indent true rest { p with fresh := true }
    else
      let p := if lineStart then p.indentTo indent else p
      literalLines indent false rest { p.put c.toString with fresh := false }

def Pen.scalar (p : Pen) (style : Style) (indent : Nat) (s : String) : Pen :=
  match style with
  | .plain =>
    let p := if !p.spaced && !s.isEmpty then p.put " " else p
    { p.put s with spaced := false, fresh := false }
  | .singleQuoted =>
    let inner := String.ofList (s.toList.flatMap fun c => if c = '\'' then ['\'', '\''] else [c])
    { (p.indicator "'" true false).put (inner ++ "'") with spaced := false, fresh := false }
  | .doubleQuoted =>
    let inner := String.join (s.toList.map escapeChar)
    { (p.indicator "\"" true false).put (inner ++ "\"") with spaced := false, fresh := false }
  | .literal =>
    let p := p.indicator ("|" ++ literalHints s.toList) true false
    Pen.literalLines (indent + 2) true s.toList { p.newline with spaced := true, fresh := true }

/-! ## Tags -/

/-- A character of a tag: what is not allowed is written byte by byte in hexadecimal. -/
def tagChar (c : Char) : String :=
  if c.isAlphanum || "-_;/?:@&=+$,.~*'()[]".toList.contains c then c.toString
  else String.join (c.toString.toUTF8.toList.map fun b => "%" ++ Text.hexUpper 2 b.toNat)

def tagText (name : String) : String := "!" ++ String.join (name.toList.map tagChar)

def Pen.tag (p : Pen) : Option String → Pen
  | none => p
  | some name => p.indicator (tagText name) true false

/-! ## Writing values -/

/-- The text of a scalar and the style that it asks for. -/
def scalarForm : Yaml → String × Style
  | .null => ("null", .plain)
  | .boolean b => (if b then "true" else "false", .plain)
  | .integer n => (toString n, .plain)
  | .float x => (floatText x, .plain)
  | .string s => (s, wantedStyle s)
  | _ => ("", .plain)

/-- The longest key, in bytes with its tag, that stands before its colon. -/
def simpleKeyLimit : Nat := 128

/-- Can the key stand before its colon? -/
def isSimpleKey (tagBytes : Nat) : Yaml → Bool
  | .sequence items => items.isEmpty && tagBytes ≤ simpleKeyLimit
  | .mapping entries => entries.isEmpty && tagBytes ≤ simpleKeyLimit
  | .tagged name v => isSimpleKey (1 + name.utf8ByteSize) v
  | v =>
    let text := (scalarForm v).1
    !(traits text.toList).multiline && tagBytes + text.utf8ByteSize ≤ simpleKeyLimit

/-- Where a value is written. -/
structure Place where
  /-- The indentation of the enclosing block; none at the top. -/
  indent : Option Nat
  inMapping : Bool
  isKey : Bool
  tag : Option String

/-- The indentation one level deeper. -/
def Place.deeper (c : Place) : Nat :=
  match c.indent with
  | none => 0
  | some n => n + 2

mutual

def writeNode (c : Place) : Yaml → Pen → Pen
  | .tagged name v, p => writeNode { c with tag := some name } v p
  | .sequence items, p =>
    let p := p.tag c.tag
    if items.isEmpty then (p.indicator "[" true false).indicator "]" false false
    else
      let indent := if c.inMapping && !p.fresh then c.indent.getD 0 else c.deeper
      writeItems indent items p
  | .mapping entries, p =>
    let p := p.tag c.tag
    if entries.isEmpty then (p.indicator "\x7b" true false).indicator "\x7d" false false
    else writeEntries c.deeper entries p
  | v, p =>
    let (text, wanted) := scalarForm v
    let style := chosenStyle wanted (traits text.toList) text.isEmpty c.isKey
    (p.tag c.tag).scalar style (c.indent.getD 0) text

def writeItems (indent : Nat) : List Yaml → Pen → Pen
  | [], p => p
  | item :: rest, p =>
    let p := (p.indentTo indent).indicator "-" true true
    writeItems indent rest (writeNode ⟨some indent, false, false, none⟩ item p)

def writeEntries (indent : Nat) : List (Yaml × Yaml) → Pen → Pen
  | [], p => p
  | (key, value) :: rest, p =>
    let p := p.indentTo indent
    let p :=
      if isSimpleKey 0 key then
        (writeNode ⟨some indent, true, true, none⟩ key p).indicator ":" false false
      else
        let p := writeNode ⟨some indent, true, false, none⟩ key (p.indicator "?" true true)
        (p.indentTo indent).indicator ":" true true
    writeEntries indent rest (writeNode ⟨some indent, true, false, none⟩ value p)

end

mutual

/-- Is a tag put directly on a tagged value somewhere? There is no text for that. -/
def hasStackedTag : Yaml → Bool
  | .tagged _ (.tagged _ _) => true
  | .tagged _ v => hasStackedTag v
  | .sequence items => itemsHaveStackedTag items
  | .mapping entries => entriesHaveStackedTag entries
  | _ => false

def itemsHaveStackedTag : List Yaml → Bool
  | [] => false
  | item :: rest => hasStackedTag item || itemsHaveStackedTag rest

def entriesHaveStackedTag : List (Yaml × Yaml) → Bool
  | [] => false
  | (k, v) :: rest => hasStackedTag k || hasStackedTag v || entriesHaveStackedTag rest

end

/-- The block-style text, if there is one. -/
def blockText? (v : Yaml) : Option String :=
  if hasStackedTag v then none
  else some ((writeNode ⟨none, false, false, none⟩ v .start).text ++ "\n")

end Yaml

end ObjectGraph
