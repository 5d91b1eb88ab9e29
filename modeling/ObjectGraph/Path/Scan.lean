-- SUMMARY: Reading paths from text: one pass over the characters, repairs reported with positions.
import ObjectGraph.Path.Step

/-! # Reading paths

A path is read character by character (`Scan.feed`), so that reading a text and
then another is reading the two in a row. Nothing makes the reading fail: what
is malformed is repaired, and every repair is an issue with the position of its
culprit.

- `.` ends a bare name; one may stand in front.
- `[Symbol(text)]` is a symbol step, `[123]` an index, any other bracket a field.
- `get(key)` and `get(Symbol(text))` are look-ups in a map.
- A body or a description may be quoted; inside quotes a backslash escapes.
- Blanks outside bodies are ignored.
-/

namespace ObjectGraph

/-! ## Issues -/

/-- What is missing where the text ends too early. -/
inductive Closer where
  | bracket
  | lookup
  | symbol
deriving DecidableEq, Repr

def Closer.describe : Closer → String
  | .bracket => "']'"
  | .lookup => "')' closing get("
  | .symbol => "')' closing Symbol("

inductive PathIssue where
  | unexpectedToken (position : Nat) (found : Char)
  | unexpectedEnd (position : Nat) (expected : Closer)
  | emptySegment (position : Nat)
deriving DecidableEq, Repr

namespace PathIssue

def position : PathIssue → Nat
  | .unexpectedToken p _ => p
  | .unexpectedEnd p _ => p
  | .emptySegment p => p

def message : PathIssue → String
  | .unexpectedToken p found =>
    "Unexpected token '" ++ found.toString ++ "' at position " ++ toString p
  | .unexpectedEnd p expected =>
    "Unexpected end of input, expected " ++ expected.describe ++ " (opened at position "
      ++ toString p ++ ")"
  | .emptySegment p => "Empty path segment at position " ++ toString p

end PathIssue

/-! ## Bodies -/

inductive BodyKind where
  | bracket
  | lookup
deriving DecidableEq, Repr

def BodyKind.opener : BodyKind → Char
  | .bracket => '['
  | .lookup => '('

def BodyKind.closer : BodyKind → Char
  | .bracket => ']'
  | .lookup => ')'

/-- A bracket or look-up that is being read. -/
structure Body where
  kind : BodyKind
  /-- Position of the bracket, or of the `g` of `get`. -/
  start : Nat
  content : List Char
  /-- Openers not yet balanced, the first included. -/
  depth : Nat
  /-- The open quote, if any. -/
  quote : Option Char
  /-- The last character was an escaping backslash. -/
  escaped : Bool
deriving Repr

namespace Body

def opened (kind : BodyKind) (start : Nat) : Body := ⟨kind, start, [], 1, none, false⟩

def symbolOpen : List Char := "Symbol(".toList

/-- A quote opens a literal section at the start of a body, or of a description. -/
def quoteMayOpen (content : List Char) : Bool :=
  (Text.trim content).isEmpty || symbolOpen.isSuffixOf content

/-- Take one character; the flag says that it closed the body. -/
def feed (b : Body) (c : Char) : Body × Bool :=
  let kept := { b with content := b.content ++ [c] }
  match b.quote with
  | some q =>
    if b.escaped then ({ kept with escaped := false }, false)
    else if c = '\\' then ({ kept with escaped := true }, false)
    else if c = q then ({ kept with quote := none }, false)
    else (kept, false)
  | none =>
    if (c = '"' ∨ c = '\'') ∧ quoteMayOpen b.content then ({ kept with quote := some c }, false)
    else if c = b.kind.opener then ({ kept with depth := b.depth + 1 }, false)
    else if c = b.kind.closer then
      if b.depth ≤ 1 then (b, true) else ({ kept with depth := b.depth - 1 }, false)
    else (kept, false)

/-- A text without quotes around it stands for itself. -/
def literal (text : List Char) : String := String.ofList ((Path.unquote text).getD text)

/-- The description after `Symbol(`, and whether its `)` is there. -/
def description (rest : List Char) : String × Bool :=
  if rest.getLast? = some ')' then (literal rest.dropLast, true) else (literal rest, false)

/-- The number that a text of ASCII digits denotes. -/
def digitsValue (text : List Char) : Nat := text.foldl (fun n c => 10 * n + (c.toNat - 48)) 0

/-- The step that a non-empty bracket body denotes, and the repair it needs. -/
def bracketStep (start : Nat) (content : List Char) : Step × List PathIssue :=
  if symbolOpen.isPrefixOf content then
    let (text, closed) := description (content.drop symbolOpen.length)
    (.symbol text, if closed then [] else [.unexpectedEnd (start + 1) .symbol])
  else if content.all Char.isDigit then
    let n := digitsValue content
    (if n < Step.indexLimit then .index n else .field (String.ofList content), [])
  else (.field (literal content), [])

/-- The step that a non-empty trimmed look-up body denotes, and the repair it needs. -/
def lookupStep (start : Nat) (content : List Char) : Step × List PathIssue :=
  if symbolOpen.isPrefixOf content then
    let (text, closed) := description (content.drop symbolOpen.length)
    (.entry text true, if closed then [] else [.unexpectedEnd start .symbol])
  else (.entry (literal content) false, [])

/-- The step of a complete body, if it holds one, and the repairs. -/
def finish (b : Body) (closed : Bool) : Option Step × List PathIssue :=
  match b.kind with
  | .bracket =>
    let unclosed := if closed then [] else [PathIssue.unexpectedEnd b.start .bracket]
    if b.content.isEmpty then (none, unclosed ++ [.emptySegment b.start])
    else
      let (step, issues) := bracketStep b.start b.content
      (some step, unclosed ++ issues)
  | .lookup =>
    let unclosed := if closed then [] else [PathIssue.unexpectedEnd b.start .lookup]
    let content := Text.trim b.content
    if content.isEmpty then (none, unclosed ++ [.emptySegment b.start])
    else
      let (step, issues) := lookupStep b.start content
      (some step, unclosed ++ issues)

end Body

/-! ## The scan -/

structure Scan where
  position : Nat
  steps : Path
  issues : List PathIssue
  /-- The bare name being read, and where it starts. -/
  bare : List Char
  bareStart : Nat
  /-- The last dot that no step has followed yet. -/
  dot : Option Nat
  /-- The bracket or look-up being read. -/
  body : Option Body
deriving Repr

namespace Scan

def start : Scan := ⟨0, [], [], [], 0, none, none⟩

def push (s : Scan) (step : Step) : Scan := { s with steps := s.steps ++ [step], dot := none }

def report (s : Scan) (issues : List PathIssue) : Scan := { s with issues := s.issues ++ issues }

/-- End the bare name, if one is being read. -/
def flush (s : Scan) : Scan :=
  if s.bare.isEmpty then s else { s.push (.field (String.ofList s.bare)) with bare := [] }

/-- Leave a body that is complete, or that the text cut off. -/
def closeBody (s : Scan) (b : Body) (closed : Bool) : Scan :=
  let (step, issues) := b.finish closed
  let s := { s.report issues with body := none }
  match step with
  | some step => s.push step
  | none => s

def lookupName : List Char := "get".toList

/-- Take one character outside bodies, without counting it. -/
def feedPlain (s : Scan) (c : Char) : Scan :=
  if c = '.' then
    let s := s.flush
    let s := if s.dot.isSome then s.report [.emptySegment s.position] else s
    { s with dot := some s.position }
  else if c = '[' then { s.flush with body := some (.opened .bracket s.position) }
  else if c = '(' ∧ s.bare = lookupName then
    { s with bare := [], body := some (.opened .lookup s.bareStart) }
  else if c = ']' then s.report [.unexpectedToken s.position c]
  else if Text.isBlank c then s
  else
    { s with bare := s.bare ++ [c], bareStart := if s.bare.isEmpty then s.position else s.bareStart }

/-- Take one character. -/
def feed (s : Scan) (c : Char) : Scan :=
  let next := match s.body with
    | none => s.feedPlain c
    | some b =>
      let (b, closed) := b.feed c
      if closed then s.closeBody b true else { s with body := some b }
  { next with position := s.position + 1 }

/-- The end of the text: an open body is cut off, a dot is left over. -/
def finish (s : Scan) : Scan :=
  let s := match s.body with
    | none => s
    | some b => s.closeBody b false
  let s := s.flush
  match s.dot with
  | some p => s.report [.emptySegment p]
  | none => s

def run (s : Scan) (text : List Char) : Scan := text.foldl feed s

theorem run_append (s : Scan) (u v : List Char) : s.run (u ++ v) = (s.run u).run v :=
  List.foldl_append

end Scan

/-! ## Reading -/

namespace Path

/-- The steps of a text, and the repairs that it needed. -/
def readWithIssues (text : String) : Path × List PathIssue :=
  let s := (Scan.start.run text.toList).finish
  (s.steps, s.issues)

/-- The steps of a text, repaired where needed. -/
def read (text : String) : Path := (readWithIssues text).1

/-- The steps of a well-formed text, or its first issue. -/
def readStrict (text : String) : Except PathIssue Path :=
  match readWithIssues text with
  | (_, issue :: _) => .error issue
  | (path, []) => .ok path

end Path

end ObjectGraph
