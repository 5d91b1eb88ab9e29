-- SUMMARY: Patterns as written: groups, alternatives and repetition.
import ObjectGraph.Pattern.Bracket
import ObjectGraph.Search.Criterion

/-! # Reading patterns

What a pattern captures does not matter here, so groups leave no trace but their
flags; still, names of groups have to be well formed and distinct.
-/

namespace ObjectGraph

namespace Pattern

/-! ## Pieces -/

/-- A part of a sequence. -/
structure Piece where
  regex : Regex
  /-- The number of groups, repetitions, sequences, alternatives and sets in each other. -/
  depth : Nat
  /-- Flags alone cannot be repeated. -/
  isRepeatable : Bool

/-- The parts one after the other. Several of them are one level deeper. -/
def Piece.sequence (pieces : List Piece) : Piece :=
  match pieces with
  | [] => ⟨.empty, 0, false⟩
  | [p] => ⟨p.regex, p.depth, true⟩
  | ps =>
    ⟨ps.foldr (fun p r => p.regex.followedBy r) .empty, 1 + (ps.map (·.depth)).foldl max 0, true⟩

/-- One of the parts. -/
def Piece.choice : List Piece → Piece
  | [] => ⟨.empty, 0, false⟩
  | [p] => p
  | p :: ps =>
    ⟨ps.foldl (fun r q => .alt r q.regex) p.regex,
      1 + (ps.map (·.depth)).foldl max p.depth, true⟩

/-! ## Repetition -/

/-- A number between blanks, up to 32 bits. -/
def readCount (f : Flags) (cs : List Char) : Option (Option Nat × List Char) :=
  let cs := cs.dropWhile Text.isBlank
  let rec digits : (fuel : Nat) → List Char → List Char × List Char
    | fuel + 1, c :: cs =>
      if c.isDigit then
        let (ds, rest) := digits fuel (f.pass cs)
        (c :: ds, rest)
      else ([], c :: cs)
    | _, cs => ([], cs)
  let (ds, rest) := digits cs.length cs
  let rest := f.pass (rest.dropWhile Text.isBlank)
  if ds.isEmpty then some (none, rest)
  else
    match readDigits? 10 ds with
    | some n => if n < UInt32.size then some (some n, rest) else none
    | none => none

/-- Counts of copies after an opening brace. -/
def readCounts (f : Flags) (cs : List Char) : Option (Nat × Option Nat × List Char) := do
  let (least, rest) ← readCount f (f.pass cs)
  let least ← least
  match rest with
  | '\x7d' :: rest => return (least, some least, rest)
  | ',' :: rest =>
    match f.pass rest with
    | '\x7d' :: rest => return (least, none, rest)
    | rest =>
      let (most, rest) ← readCount f rest
      let most ← most
      match rest with
      | '\x7d' :: rest => if least ≤ most then return (least, some most, rest) else none
      | _ => none
  | _ => none

/-- A question mark after a repetition asks for few copies, which changes no match. -/
def dropLazy (cs : List Char) : List Char := if cs.head? = some '?' then cs.drop 1 else cs

/-- Repeat the last piece. -/
def repeatLast (pieces : List Piece) (least : Nat) (most : Option Nat) : Option (List Piece) :=
  match pieces with
  | p :: others =>
    if p.isRepeatable then some (⟨.repeated p.regex least most, 1 + p.depth, true⟩ :: others) else none
  | [] => none

/-- A sign of repetition: its counts and what follows it. -/
def readRepetition (f : Flags) : List Char → Option (Nat × Option Nat × List Char)
  | '?' :: rest => some (0, some 1, dropLazy rest)
  | '*' :: rest => some (0, none, dropLazy rest)
  | '+' :: rest => some (1, none, dropLazy rest)
  | '\x7b' :: rest => do
    let (least, most, rest) ← readCounts f rest
    return (least, most, dropLazy (f.pass rest))
  | _ => none

def isRepetitionSign (c : Char) : Bool := c = '?' || c = '*' || c = '+' || c = '\x7b'

/-! ## Groups -/

/-- What an opening parenthesis starts: a group under flags, or flags for the rest of
the group around it. -/
inductive Opening where
  | group (f : Flags) (names : List String)
  | flags (f : Flags)

def isNameChar (isFirst : Bool) (c : Char) : Bool :=
  c = '_' || Text.isAlphabetic c
    || (!isFirst && (c = '.' || c = '[' || c = ']' || Text.isNumber c))

/-- A name up to its closing bracket. -/
def readName (cs : List Char) : Option (String × List Char) :=
  let name := cs.takeWhile (· != '>')
  match cs.dropWhile (· != '>') with
  | '>' :: rest =>
    if name.head?.any (isNameChar true) && (name.drop 1).all (isNameChar false) then
      some (String.ofList name, rest)
    else none
  | _ => none

/-- A named group. Names are distinct. -/
def readNamed (f : Flags) (names : List String) (cs : List Char) : Option (Opening × List Char) := do
  let (name, rest) ← readName cs
  if names.contains name then none
  return (.group f (name :: names), rest)

/-- After an opening parenthesis. There is no way to look ahead or back. -/
def readOpening (f : Flags) (names : List String) (cs : List Char) : Option (Opening × List Char) :=
  match f.pass cs with
  | '?' :: '=' :: _ | '?' :: '!' :: _ | '?' :: '<' :: '=' :: _ | '?' :: '<' :: '!' :: _ => none
  | '?' :: 'P' :: '<' :: rest | '?' :: '<' :: rest => readNamed f names rest
  | '?' :: rest => do
    let isEnd (c : Char) : Bool := c = ':' || c = ')'
    let spelled := rest.takeWhile (!isEnd ·)
    let flags ← f.read? spelled
    match rest.dropWhile (!isEnd ·) with
    | ':' :: rest => return (.group flags names, rest)
    | ')' :: rest => if spelled.isEmpty then none else return (.flags flags, rest)
    | _ => none
  | rest => some (.group f names, rest)

/-! ## Single characters -/

def dotSet? (f : Flags) : Option CharSet :=
  if !f.unicode then none
  else if f.dotAll then some .any
  else if f.crlf then some (.compl (.ofChars ['\r', '\n']))
  else some (.compl (.single '\n'))

/-- A character by itself. Without Unicode, a byte that is no character is refused. -/
def charSet? (f : Flags) (c : Char) (isByte : Bool) : Option CharSet :=
  if f.unicode then some (f.fold (.single c))
  else if 0x80 ≤ c.toNat then (if isByte then none else some (.single c))
  else some (f.fold (.single c))

def Atom.regex? (f : Flags) : Atom → Option Regex
  | .char c isByte => (charSet? f c isByte).map .char
  | .set s => some (.char s)
  | .look l => some (.look l)

/-- An escape or a character outside of brackets. -/
def readAtom (f : Flags) : List Char → Option (Regex × List Char)
  | [] => none
  | '\\' :: rest => do
    let (a, rest) ← readEscape f rest
    return (← a.regex? f, rest)
  | '.' :: rest => do return (.char (← dotSet? f), rest)
  | '^' :: rest => some (.look (if f.multiLine then .lineStart f.crlf else .textStart), rest)
  | '$' :: rest => some (.look (if f.multiLine then .lineEnd f.crlf else .textEnd), rest)
  | c :: rest => do return (.char (← charSet? f c false), rest)

/-! ## Patterns -/

/-- A group body in the making: names taken, alternatives and pieces so far, last first. -/
structure Body where
  flags : Flags
  names : List String
  choices : List Piece
  pieces : List Piece

def Body.start (f : Flags) (names : List String) : Body := ⟨f, names, [], []⟩

def Body.add (b : Body) (p : Piece) : Body := { b with pieces := p :: b.pieces }

/-- Start another alternative. -/
def Body.split (b : Body) : Body :=
  { b with choices := .sequence b.pieces.reverse :: b.choices, pieces := [] }

def Body.finish (b : Body) : Piece := .choice b.split.choices.reverse

/-- The body of a group, up to its closing parenthesis or the end of the pattern:
the piece, the names taken, and the rest. -/
def readBody : (fuel : Nat) → Body → List Char → Option (Piece × List String × List Char)
  | 0, _, _ => none
  | fuel + 1, b, cs =>
    let f := b.flags
    match f.pass cs with
    | [] => some (b.finish, b.names, [])
    | ')' :: rest => some (b.finish, b.names, ')' :: rest)
    | '|' :: rest => readBody fuel b.split rest
    | '(' :: rest => do
      match ← readOpening f b.names rest with
      | (.flags flags, rest) =>
        readBody fuel ({ b with flags }.add ⟨.empty, 0, false⟩) rest
      | (.group flags names, rest) =>
        let (inner, names, rest) ← readBody fuel (.start flags names) rest
        if rest.head? != some ')' then none
        let piece : Piece := ⟨inner.regex, 1 + inner.depth, true⟩
        readBody fuel ({ b with names }.add piece) (rest.drop 1)
    | '[' :: rest => do
      let (item, rest) ← readSet f rest
      readBody fuel (b.add ⟨.char item.set, item.depth, true⟩) rest
    | c :: rest => do
      if isRepetitionSign c then
        let (least, most, rest) ← readRepetition f (c :: rest)
        readBody fuel { b with pieces := ← repeatLast b.pieces least most } rest
      else
        let (r, rest) ← readAtom f (c :: rest)
        readBody fuel (b.add ⟨r, 0, true⟩) rest

/-- Patterns nested deeper are refused. -/
def maxDepth : Nat := 250

/-- The expression that a pattern denotes, if it is well formed. -/
def parse? (text : String) : Option Regex := do
  let cs := text.toList
  let (piece, _, rest) ← readBody (cs.length + 2) (.start .default []) cs
  if !rest.isEmpty || maxDepth < piece.depth || Regex.maxWeight < piece.regex.weight then none
  return piece.regex

end Pattern

/-- The criterion of a pattern: a value whose text holds a match. -/
def Criterion.ofPattern? (text : String) : Option Criterion :=
  (Pattern.parse? text).map fun r => .pattern r.isMatch

end ObjectGraph
