-- SUMMARY: Reading the text of quoted, plain and block scalars.
import ObjectGraph.Yaml.Cursor

/-! # Scalar texts

Between lines of a flowing scalar one line end reads as a blank, and more of
them as the further line ends. Block scalars keep their lines, or fold them.
-/

namespace ObjectGraph

namespace Yaml

/-! ## Line folding -/

/-- White space between two parts of a flowing scalar. -/
inductive Spacing where
  /-- Within a line. -/
  | within (blanks : List Char)
  /-- Across line ends: what the first of them reads as, and the others. -/
  | across (first others : List Char)

/-- What the white space contributes to the text. -/
def Spacing.text : Spacing → List Char
  | .within blanks => blanks
  | .across first others =>
    if first = ['\n'] then (if others.isEmpty then [' '] else others) else first ++ others

/-- Was a line end passed? -/
def Spacing.isAcross : Spacing → Bool
  | .within _ => false
  | .across _ _ => true

/-- Pass white space. Inside plain scalars a tab may not stand where the
indentation of a further line is due. -/
def readSpacing (tabColumn : Nat) : (fuel : Nat) → Spacing → Cursor → Option (Spacing × Cursor)
  | 0, _, _ => none
  | fuel + 1, s, c =>
    match c.peek with
    | none => some (s, c)
    | some ch =>
      if isBlank ch then
        match s with
        | .within blanks => readSpacing tabColumn fuel (.within (blanks ++ [ch])) (c.skip 1)
        | .across _ _ =>
          if ch = '\t' ∧ c.column < tabColumn then none else readSpacing tabColumn fuel s (c.skip 1)
      else if isLineBreak ch then
        let (b, next) := c.readLine
        match s with
        | .within _ => readSpacing tabColumn fuel (.across b []) next
        | .across first others => readSpacing tabColumn fuel (.across first (others ++ b)) next
      else some (s, c)

/-! ## Quoted scalars -/

/-- Escapes of one character. -/
def shortEscapes : List (Char × Char) :=
  [('0', '\x00'), ('a', '\x07'), ('b', '\x08'), ('t', '\t'), ('\t', '\t'), ('n', '\n'),
   ('v', '\x0b'), ('f', '\x0c'), ('r', '\r'), ('e', '\x1b'), (' ', ' '), ('"', '"'), ('/', '/'),
   ('\\', '\\'), ('N', '\u0085'), ('_', '\u00a0'), ('L', '\u2028'), ('P', '\u2029')]

/-- Escapes by code point, and their numbers of hexadecimal digits. -/
def codedEscapes : List (Char × Nat) := [('x', 2), ('u', 4), ('U', 8)]

/-- The character that an escape denotes, and its length after the backslash. -/
def readEscape? (c : Cursor) : Option (Char × Nat) := do
  let e ← c.ahead 1
  match shortEscapes.lookup e with
  | some ch => return (ch, 1)
  | none =>
    let width ← codedEscapes.lookup e
    let digits := (c.rest.drop 2).take width
    if digits.length != width then none
    let ch ← Text.hexChar? digits
    return (ch, width + 1)

/-- The rest of a quoted scalar after its opening quote. -/
def readQuoted (quote : Char) : (fuel : Nat) → String → Cursor → Option (String × Cursor)
  | 0, _, _ => none
  | fuel + 1, text, c =>
    if c.atDocumentIndicator then none
    else match c.peek with
    | none => none
    | some ch =>
      if ch = quote then
        if quote = '\'' ∧ c.ahead 1 = some quote then
          readQuoted quote fuel (text.push quote) (c.skip 2)
        else some (text, c.skip 1)
      else if quote = '"' ∧ ch = '\\' then
        if (c.ahead 1).any isLineBreak then do
          let (s, c) ← readSpacing 0 fuel (.across [] []) (c.skip 1).skipLine
          readQuoted quote fuel (text ++ String.ofList s.text) c
        else do
          let (e, n) ← readEscape? c
          readQuoted quote fuel (text.push e) (c.skip (n + 1))
      else if isBlank ch || isLineBreak ch then do
        let (s, c) ← readSpacing 0 (fuel + 1) (.within []) c
        readQuoted quote fuel (text ++ String.ofList s.text) c
      else readQuoted quote fuel (text.push ch) (c.skip 1)

/-! ## Plain scalars -/

/-- Does the plain scalar end before this character? Between brackets a colon
before another indicator is refused. -/
def plainStop (inFlow : Bool) (c : Cursor) (ch : Char) : Option Bool :=
  if inFlow ∧ ch = ':' ∧ (c.ahead 1).any (fun n => isFlowIndicator n || n = '?') then none
  else some ((ch = ':' && isGap (c.ahead 1)) || (inFlow && isFlowIndicator ch))

/-- The characters of a plain scalar up to white space or its end. -/
def readPlainRun (inFlow : Bool) : (fuel : Nat) → String → Cursor → Option (String × Cursor)
  | 0, _, _ => none
  | fuel + 1, run, c =>
    match c.peek with
    | none => some (run, c)
    | some ch =>
      if isBlank ch || isLineBreak ch then some (run, c)
      else do
        if ← plainStop inFlow c ch then return (run, c)
        readPlainRun inFlow fuel (run.push ch) (c.skip 1)

/-- A plain scalar: its text, whether a line end was passed after it, and where
it ends. Further lines have to be indented at least to `indent`. -/
def readPlainScalar (inFlow : Bool) (indent : Nat) :
    (fuel : Nat) → String → Spacing → Cursor → Option (String × Bool × Cursor)
  | 0, _, _, _ => none
  | fuel + 1, text, s, c =>
    if c.atDocumentIndicator || c.peek = some '#' then some (text, s.isAcross, c)
    else do
      let (run, c) ← readPlainRun inFlow (fuel + 1) "" c
      let (text, s) :=
        if run.isEmpty then (text, s)
        else (text ++ String.ofList s.text ++ run, Spacing.within [])
      if c.peek.any fun ch => isBlank ch || isLineBreak ch then
        let (s, c) ← readSpacing indent (fuel + 1) s c
        if !inFlow && c.column < indent then return (text, s.isAcross, c)
        readPlainScalar inFlow indent fuel text s c
      else return (text, s.isAcross, c)

/-! ## Block scalars -/

/-- What becomes of the line ends at the end of a block scalar. -/
inductive Chomp where
  | strip
  | clip
  | keep
deriving DecidableEq

/-- The marks after the indicator of a block scalar, in either order. -/
def readBlockHeader (c : Cursor) : Option (Chomp × Nat × Cursor) :=
  let chomp? (c : Cursor) : Option Chomp :=
    if c.peek = some '+' then some .keep else if c.peek = some '-' then some .strip else none
  let digit? (c : Cursor) : Option Nat := (c.peek.filter Char.isDigit).map fun d => d.toNat - '0'.toNat
  let checked (chomp : Chomp) (digit : Nat) (c : Cursor) : Option (Chomp × Nat × Cursor) :=
    if digit = 0 then none else some (chomp, digit, c.skip 1)
  match chomp? c with
  | some chomp =>
    let c := c.skip 1
    match digit? c with
    | some d => checked chomp d c
    | none => some (chomp, 0, c)
  | none =>
    match digit? c with
    | some d => do
      let (_, d, c) ← checked .clip d c
      match chomp? c with
      | some chomp => some (chomp, d, c.skip 1)
      | none => some (.clip, d, c)
    | none => some (.clip, 0, c)

/-- Pass indentation and empty lines. The answer holds the line ends and the
deepest column met; without a known indentation every blank is passed. -/
def readBlockGap (indent : Nat) :
    (fuel : Nat) → (deepest : Nat) → List Char → Cursor → Option (List Char × Nat × Cursor)
  | 0, _, _, _ => none
  | fuel + 1, deepest, breaks, c =>
    let width := (c.rest.takeWhile (· = ' ')).length
    let width := if indent = 0 then width else min width (indent - c.column)
    let c := c.skip width
    let deepest := max deepest c.column
    if (indent = 0 ∨ c.column < indent) ∧ c.peek = some '\t' then none
    else if c.peek.any isLineBreak then
      let (b, c) := c.readLine
      readBlockGap indent fuel deepest (breaks ++ b) c
    else some (breaks, deepest, c)

/-- The lines of a block scalar. `first` is the line end before this line, `more`
those of the empty lines after it; `wasBlank` tells whether the line before
started with white space. -/
def readBlockLines (literal : Bool) (chomp : Chomp) (indent : Nat) :
    (fuel : Nat) → (text : String) → (first more : List Char) → (wasBlank : Bool) → Cursor →
    Option (String × Cursor)
  | 0, _, _, _, _, _ => none
  | fuel + 1, text, first, more, wasBlank, c =>
    if c.column = indent ∧ c.peek.isSome then do
      let startsBlank := c.peek.any isBlank
      let fold := !literal && first == ['\n'] && !wasBlank && !startsBlank
      let joint := if fold then (if more.isEmpty then [' '] else []) else first
      let (line, c) := c.takeWhile (!isLineBreak ·)
      let (lineEnd, c) := c.readLine
      let (breaks, _, c) ← readBlockGap indent (fuel + 1) 0 [] c
      let text := text ++ String.ofList (joint ++ more ++ line)
      readBlockLines literal chomp indent fuel text lineEnd breaks startsBlank c
    else
      let text := if chomp = .strip then text else text ++ String.ofList first
      some (if chomp = .keep then text ++ String.ofList more else text, c)

/-- A block scalar after its indicator, in a block of the given indentation. -/
def readBlockScalar (literal : Bool) (parent : Int) (fuel : Nat) (c : Cursor) :
    Option (String × Cursor) := do
  let (chomp, increment, c) ← readBlockHeader c
  let c := c.skipBlanks.skipComment
  if !isLineEnd c.peek then none
  let c := c.skipLine
  let given : Nat := if increment = 0 then 0 else (max parent 0).toNat + increment
  let (breaks, deepest, c) ← readBlockGap given fuel 0 [] c
  let indent := if given = 0 then max deepest (max (parent + 1).toNat 1) else given
  readBlockLines literal chomp indent fuel "" [] breaks false c

end Yaml

end ObjectGraph
