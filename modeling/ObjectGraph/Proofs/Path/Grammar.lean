-- SUMMARY: The grammar of paths: which texts are well formed, and the steps that they denote.
import ObjectGraph.Path.Scan
import Mathlib.Data.List.Chain
import Mathlib.Data.List.Forall2

/-! # The grammar of paths

A text is a row of pieces: single characters, and bodies between delimiters.
Without the blanks among the pieces it is a row of segments, with dots between
them (`Path.Spells`). A segment is a bare name, a bracket or a look-up; a body
goes up to the closer that balances its opener (`Balanced`), and what it denotes
is said by `BodyKind.Denotes`. Nothing here scans a text: that is compared with
the grammar elsewhere.
-/

namespace ObjectGraph

/-! ## Quotes and delimiters -/

def IsQuote (c : Char) : Prop := c = '"' ∨ c = '\''

/-- What may stand between two quotes: a backslash takes the next character with it. -/
inductive QuotedText (q : Char) : List Char → Prop
  | nil : QuotedText q []
  | plain {c : Char} {rest : List Char} : c ≠ q → c ≠ '\\' → QuotedText q rest →
    QuotedText q (c :: rest)
  | escaped {c : Char} {rest : List Char} : QuotedText q rest → QuotedText q ('\\' :: c :: rest)

/-- After this text, a quote opens a section: nothing but blanks stands before it, or `Symbol(`. -/
def OpensQuote (before : List Char) (c : Char) : Prop :=
  IsQuote c ∧ ((∀ b ∈ before, Text.isBlank b = true) ∨ Body.symbolOpen <:+ before)

/-- Delimiters balance in a text that stands in a body after `before`: those in a
quoted section do not count. -/
inductive Balanced (kind : BodyKind) : List Char → List Char → Prop
  | nil {before : List Char} : Balanced kind before []
  | plain {before rest : List Char} {c : Char} : c ≠ kind.opener → c ≠ kind.closer →
    ¬ OpensQuote before c → Balanced kind (before ++ [c]) rest →
    Balanced kind before (c :: rest)
  | quoted {before text rest : List Char} {q : Char} : OpensQuote before q → QuotedText q text →
    Balanced kind (before ++ (q :: text ++ [q])) rest →
    Balanced kind before (q :: text ++ [q] ++ rest)
  | nested {before inner rest : List Char} : Balanced kind (before ++ [kind.opener]) inner →
    Balanced kind (before ++ (kind.opener :: inner ++ [kind.closer])) rest →
    Balanced kind before (kind.opener :: inner ++ [kind.closer] ++ rest)

/-! ## What a body denotes -/

/-- A text in quotes stands for what is between them, any other for itself. -/
inductive Unquoted : List Char → List Char → Prop
  | quoted {q : Char} (text : List Char) : IsQuote q →
    Unquoted (q :: text ++ [q]) (Path.unescape text)
  | plain {text : List Char} : (∀ q inner, IsQuote q → text ≠ q :: inner ++ [q]) →
    Unquoted text text

/-- The step that a body denotes. -/
inductive BodyKind.Denotes : BodyKind → List Char → Step → Prop
  | symbol {text description : List Char} : Unquoted text description →
    Denotes .bracket (Body.symbolOpen ++ text ++ [')']) (.symbol (String.ofList description))
  | index {digits : List Char} : digits ≠ [] → (∀ c ∈ digits, c.isDigit = true) →
    Body.digitsValue digits < Step.indexLimit →
    Denotes .bracket digits (.index (Body.digitsValue digits))
  | field {body name : List Char} : body ≠ [] → ¬ Body.symbolOpen <+: body →
    ((∀ c ∈ body, c.isDigit = true) → Step.indexLimit ≤ Body.digitsValue body) →
    Unquoted body name → Denotes .bracket body (.field (String.ofList name))
  | symbolEntry {body text description : List Char} :
    Text.trim body = Body.symbolOpen ++ text ++ [')'] → Unquoted text description →
    Denotes .lookup body (.entry (String.ofList description) true)
  | entry {body key : List Char} : Text.trim body ≠ [] →
    ¬ Body.symbolOpen <+: Text.trim body → Unquoted (Text.trim body) key →
    Denotes .lookup body (.entry (String.ofList key) false)

/-! ## Segments -/

/-- Characters of a bare name. -/
def IsNameChar (c : Char) : Prop := Text.isBlank c = false ∧ c ≠ '.' ∧ c ≠ '[' ∧ c ≠ ']'

/-- A bare name, which does not begin like a look-up. -/
structure IsName (name : List Char) : Prop where
  nonempty : name ≠ []
  chars : ∀ c ∈ name, IsNameChar c
  noCall : ¬ Scan.lookupName ++ ['('] <+: name

/-- A character outside bodies, or a body with its delimiters. -/
inductive Piece where
  | mark (c : Char)
  | body (kind : BodyKind) (text : List Char)

namespace Piece

def chars : Piece → List Char
  | .mark c => [c]
  | .body kind text => kind.opener :: text ++ [kind.closer]

def isBlank : Piece → Bool
  | .mark c => Text.isBlank c
  | .body _ _ => false

@[simp] theorem isBlank_mark (c : Char) : (mark c).isBlank = Text.isBlank c := rfl

@[simp] theorem isBlank_body (kind : BodyKind) (text : List Char) :
    (body kind text).isBlank = false := rfl

end Piece

inductive Segment where
  | bare (name : List Char)
  | bracket (body : List Char)
  | lookup (body : List Char)

namespace Segment

def pieces : Segment → List Piece
  | .bare name => name.map .mark
  | .bracket body => [.body .bracket body]
  | .lookup body => Scan.lookupName.map .mark ++ [.body .lookup body]

inductive Denotes : Segment → Step → Prop
  | bare {name : List Char} : IsName name → Denotes (.bare name) (.field (String.ofList name))
  | bracket {body : List Char} {step : Step} : Balanced .bracket [] body →
    BodyKind.bracket.Denotes body step → Denotes (.bracket body) step
  | lookup {body : List Char} {step : Step} : Balanced .lookup [] body →
    BodyKind.lookup.Denotes body step → Denotes (.lookup body) step

def isBare : Segment → Bool
  | .bare _ => true
  | _ => false

def isBracket : Segment → Bool
  | .bracket _ => true
  | _ => false

end Segment

/-! ## Rows of segments -/

/-- Segments, each with whether a dot stands before it. -/
abbrev Row := List (Bool × Segment)

namespace Row

def dotPieces (dot : Bool) : List Piece := if dot then [.mark '.'] else []

def pieces (row : Row) : List Piece :=
  row.flatMap fun (dot, segment) => dotPieces dot ++ segment.pieces

/-- Without a dot, a bare name would run on into a name or a look-up. -/
def Separated (row : Row) : Prop :=
  row.IsChain fun a b => a.2.isBare = true → b.2.isBracket = false → b.1 = true

end Row

/-- The text is a path: without blanks outside bodies it is a row of segments that
are separated where they have to be, and these denote the steps. -/
def Path.Spells (text : List Char) (p : Path) : Prop :=
  ∃ (pieces : List Piece) (row : Row), text = pieces.flatMap Piece.chars ∧
    pieces.filter (!·.isBlank) = row.pieces ∧ row.Separated ∧
    List.Forall₂ (fun segment step => segment.2.Denotes step) row p

end ObjectGraph
