-- SUMMARY: Paths as lists of steps, and how they are written.
import ObjectGraph.Text.Blank

/-! # Paths

A path is the list of steps from a value to a place below it. Its written form
is read back by `Path.read`: names stand bare where they can, between brackets
and quotes where they must.
-/

namespace ObjectGraph

inductive Step where
  /-- Named field of a record: `name` or `["name"]`. -/
  | field (name : String)
  /-- Place in a sequence: `[0]`. -/
  | index (n : Nat)
  /-- Slot whose key is a symbol with this description: `[Symbol(text)]`. -/
  | symbol (description : String)
  /-- Look-up in a map: `get("key")`, or `get(Symbol(text))` for a symbol. -/
  | entry (key : String) (isSymbol : Bool)
deriving DecidableEq, Repr, Inhabited

abbrev Path := List Step

namespace Step

/-- Indices read from text lie below this number. -/
def indexLimit : Nat := UInt64.size

/-- Can the step be read from text? Every step can, but for an index beyond the limit. -/
def Addressable : Step → Prop
  | .index n => n < indexLimit
  | _ => True

instance : DecidablePred Addressable := fun s =>
  match s with
  | .index n => inferInstanceAs (Decidable (n < indexLimit))
  | .field _ | .symbol _ | .entry _ _ => isTrue trivial

def isLookup : Step → Bool
  | .entry _ _ => true
  | _ => false

end Step

/-! ## Quoting -/

namespace Path

def quoteChar (c : Char) : List Char :=
  if c = '"' ∨ c = '\\' then ['\\', c] else [c]

/-- The text in double quotes, with `"` and `\` escaped. -/
def quoted (text : List Char) : List Char := '"' :: text.flatMap quoteChar ++ ['"']

/-- Drop one backslash from every escape. A backslash at the very end stays. -/
def unescape : List Char → List Char
  | [] => []
  | ['\\'] => ['\\']
  | '\\' :: c :: rest => c :: unescape rest
  | c :: rest => c :: unescape rest

/-- The text inside a pair of equal quotes, with its escapes resolved. -/
def unquote (text : List Char) : Option (List Char) :=
  match text with
  | q :: rest =>
    if (q = '"' ∨ q = '\'') ∧ rest.getLast? = some q then some (unescape rest.dropLast) else none
  | [] => none

/-! ## Writing -/

/-- Characters that end or confuse a bare name. -/
def isNameBreak (c : Char) : Bool :=
  Text.isBlank c || ".[]()\"'".toList.contains c

/-- Can the name stand without brackets? -/
def isBareName (name : List Char) : Bool :=
  !name.isEmpty && !name.all Char.isDigit && !name.any isNameBreak

/-- Can the description stand inside `Symbol(...)` without quotes? -/
def isBareDescription (text : List Char) : Bool :=
  !text.any fun c => "[]()\"'\\".toList.contains c

def writeSymbol (description : List Char) : List Char :=
  "Symbol(".toList ++ (if isBareDescription description then description else quoted description)
    ++ [')']

/-- One step, after a separator where the step needs one. -/
def writeStep (separator : List Char) : Step → List Char
  | .field name =>
    if isBareName name.toList then separator ++ name.toList else '[' :: quoted name.toList ++ [']']
  | .index n => '[' :: Nat.toDigits 10 n ++ [']']
  | .symbol description => '[' :: writeSymbol description.toList ++ [']']
  | .entry key false => separator ++ "get(".toList ++ quoted key.toList ++ [')']
  | .entry key true => separator ++ "get(".toList ++ writeSymbol key.toList ++ [')']

/-- The written form as characters: a dot separates steps, but none stands in front. -/
def writeChars : Path → List Char
  | [] => []
  | s :: rest => writeStep [] s ++ rest.flatMap (writeStep ['.'])

def write (p : Path) : String := String.ofList p.writeChars

/-- Without look-ups in maps. -/
def isPlain (p : Path) : Bool := !p.any Step.isLookup

end Path

end ObjectGraph
