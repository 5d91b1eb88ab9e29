-- SUMMARY: TOML values: numbers, dates and times, arrays and inline tables.
import ObjectGraph.Toml.Quoted

/-! # Values

The readers of numbers and dates take the longest text that they can; what may
follow a value is for the line around it to say.
-/

namespace ObjectGraph

/-- How a table came about, which decides how it may be added to. -/
inductive TableKind where
  /-- In braces. It is complete. -/
  | inline
  /-- By a header of its own. -/
  | headed
  /-- By the header of a table in it. -/
  | implied
  /-- By a dotted key. -/
  | dotted
deriving DecidableEq, Repr

inductive Toml where
  | boolean (b : Bool)
  | integer (n : Int)
  | float (x : Binary64)
  | string (s : String)
  /-- A date, a time of day, or both. -/
  | moment (text : String)
  | array (items : List Toml)
  | table (kind : TableKind) (entries : List (String × Toml))
  /-- The tables under a header in double brackets. -/
  | tables (ts : List Toml)
deriving Repr, Inhabited

namespace Toml

/-! ## Digits -/

/-- Digits with single underscores between them, after the first one. -/
def digitTail (isDigit : Char → Bool) : List Char → List Char × List Char
  | '_' :: c :: rest =>
    if isDigit c then
      let (ds, rest) := digitTail isDigit rest
      (c :: ds, rest)
    else ([], '_' :: c :: rest)
  | c :: rest =>
    if isDigit c then
      let (ds, rest) := digitTail isDigit rest
      (c :: ds, rest)
    else ([], c :: rest)
  | [] => ([], [])

/-- At least one digit. -/
def readRun (isDigit : Char → Bool) : Reader (List Char)
  | c :: rest =>
    if isDigit c then
      let (ds, rest) := digitTail isDigit rest
      some (c :: ds, rest)
    else none
  | [] => none

/-- A sign, if there is one. -/
def readSign : List Char → List Char × List Char
  | '+' :: rest => (['+'], rest)
  | '-' :: rest => (['-'], rest)
  | rest => ([], rest)

/-- Decimal digits of which the first is not zero, or zero alone. -/
def readWhole : Reader (List Char)
  | '0' :: rest => some (['0'], rest)
  | rest => readRun Char.isDigit rest

/-! ## Integers -/

/-- Integers have 64 bits. -/
def integer? (n : Int) : Option Toml :=
  if Int64.minValue.toInt ≤ n ∧ n ≤ Int64.maxValue.toInt then some (.integer n) else none

def readRadix (radix : Nat) : Reader Toml := fun cs => do
  let (ds, rest) ← readRun (fun c => (digitValue? radix c).isSome) cs
  return (← integer? (← readDigits? radix ds), rest)

def readInteger : Reader Toml
  | '0' :: 'x' :: rest => readRadix 16 rest
  | '0' :: 'o' :: rest => readRadix 8 rest
  | '0' :: 'b' :: rest => readRadix 2 rest
  | cs => do
    let (sign, rest) := readSign cs
    let (ds, rest) ← readWhole rest
    let n : Int := ← readDigits? 10 ds
    return (← integer? (if sign = ['-'] then -n else n), rest)

/-! ## Floating-point numbers -/

/-- A mark and digits after it, or nothing where the mark is missing. -/
def readPart (isMark : Char → Bool) (signed : Bool) : Reader (List Char)
  | c :: rest =>
    if isMark c then do
      let (sign, rest) := if signed then readSign rest else ([], rest)
      let (ds, rest) ← readRun Char.isDigit rest
      return (c :: sign ++ ds, rest)
    else some ([], c :: rest)
  | [] => some ([], [])

/-- A number with a fraction or an exponent. Infinity only has its name. -/
def readDecimal : Reader Toml := fun cs => do
  let (sign, rest) := readSign cs
  let (whole, rest) ← readWhole rest
  let (fraction, rest) ← readPart (· = '.') false rest
  let (exponent, rest) ← readPart (fun c => c = 'e' || c = 'E') true rest
  if fraction.isEmpty && exponent.isEmpty then none
  let x ← Binary64.read? (sign ++ whole ++ fraction ++ exponent)
  if x = .infinity false then none
  return (.float x, rest)

def readSpecial : Reader Toml := fun cs =>
  match readSign cs with
  | (sign, 'i' :: 'n' :: 'f' :: rest) => some (.float (.infinity (sign = ['-'])), rest)
  | (_, 'n' :: 'a' :: 'n' :: rest) => some (.float .nan, rest)
  | _ => none

/-! ## Dates and times -/

/-- A number of so many digits within bounds. -/
def readField (width low high : Nat) : Reader Nat := fun cs => do
  let ds := cs.take width
  if ds.length ≠ width || !ds.all Char.isDigit then none
  let n ← readDigits? 10 ds
  if low ≤ n ∧ n ≤ high then some (n, cs.drop width) else none

def readMark (mark : Char) : List Char → Option (List Char)
  | c :: rest => if c = mark then some rest else none
  | [] => none

def daysIn (year month : Nat) : Nat :=
  if month = 2 then
    if year % 4 = 0 ∧ (year % 100 ≠ 0 ∨ year % 400 = 0) then 29 else 28
  else if [4, 6, 9, 11].contains month then 30 else 31

/-- Pass a date. -/
def skipDate (cs : List Char) : Option (List Char) := do
  let (year, rest) ← readField 4 0 9999 cs
  let (month, rest) ← readField 2 1 12 (← readMark '-' rest)
  let (_, rest) ← readField 2 1 (daysIn year month) (← readMark '-' rest)
  return rest

/-- Pass a time of day. A minute may have a leap second. -/
def skipTime (cs : List Char) : Option (List Char) := do
  let (_, rest) ← readField 2 0 23 cs
  let (_, rest) ← readField 2 0 59 (← readMark ':' rest)
  let (_, rest) ← readField 2 0 60 (← readMark ':' rest)
  match rest with
  | '.' :: c :: rest => if c.isDigit then some (rest.dropWhile Char.isDigit) else none
  | rest => some rest

/-- Pass a time zone, if there is one. -/
def skipZone : List Char → Option (List Char)
  | 'Z' :: rest => some rest
  | 'z' :: rest => some rest
  | c :: rest =>
    if c = '+' ∨ c = '-' then do
      let (_, rest) ← readField 2 0 23 rest
      let (_, rest) ← readField 2 0 59 (← readMark ':' rest)
      return rest
    else some (c :: rest)
  | [] => some []

/-- Pass the time after a date, if there is one. -/
def skipTimeOfDate : List Char → Option (List Char)
  | c :: rest =>
    if c = 'T' ∨ c = 't' ∨ c = ' ' then
      match skipTime rest with
      | some rest => skipZone rest
      | none => some (c :: rest)
    else some (c :: rest)
  | [] => some []

def readMoment : Reader Toml := fun cs => do
  let rest ← match skipDate cs with
    | some rest => skipTimeOfDate rest
    | none => skipTime cs
  return (.moment (String.ofList (cs.take (cs.length - rest.length))), rest)

/-! ## Scalars -/

def readNumber : Reader Toml := fun cs =>
  (readMoment cs).orElse fun _ =>
    (readDecimal cs).orElse fun _ => (readSpecial cs).orElse fun _ => readInteger cs

/-- A value that holds no others. -/
def readScalar : Reader Toml
  | '"' :: rest => (readString ('"' :: rest)).map fun (s, rest) => (.string (String.ofList s), rest)
  | '\'' :: rest => (readString ('\'' :: rest)).map fun (s, rest) => (.string (String.ofList s), rest)
  | 't' :: 'r' :: 'u' :: 'e' :: rest => some (.boolean true, rest)
  | 'f' :: 'a' :: 'l' :: 's' :: 'e' :: rest => some (.boolean false, rest)
  | cs => readNumber cs

/-! ## Keys -/

def isKeyChar (c : Char) : Bool := c.isAlphanum || c = '-' || c = '_'

/-- One part of a key. -/
def readKey : Reader String
  | '"' :: rest => (readBasic rest).map fun (s, rest) => (String.ofList s, rest)
  | '\'' :: rest => (readLiteral rest).map fun (s, rest) => (String.ofList s, rest)
  | cs =>
    let name := cs.takeWhile isKeyChar
    if name.isEmpty then none else some (String.ofList name, cs.dropWhile isKeyChar)

/-- The parts of a dotted key, with white space around them. -/
def readKeys : (fuel : Nat) → Reader (List String)
  | 0, _ => none
  | fuel + 1, cs => do
    let (key, rest) ← readKey (cs.dropWhile isSpace)
    match rest.dropWhile isSpace with
    | '.' :: rest =>
      let (keys, rest) ← readKeys fuel rest
      return (key :: keys, rest)
    | rest => return ([key], rest)

/-- Keys have at most so many parts, and arrays and inline tables this depth. -/
def maxDepth : Nat := 80

/-- A key in front of a value or inside a header. -/
def readPath : Reader (List String) := fun cs => do
  let (keys, rest) ← readKeys (cs.length + 1) cs
  if maxDepth < keys.length then none
  return (keys, rest)

/-! ## Tables -/

/-- Put a value in place of the one of a key, or after all others. -/
def put (key : String) (v : Toml) : List (String × Toml) → List (String × Toml)
  | [] => [(key, v)]
  | (k, old) :: rest => if k = key then (k, v) :: rest else (k, old) :: put key v rest

/-- Change the table at a path below a table. Missing tables on the way are made;
below a header they are implied, below a dotted key they are dotted, and such a key
passes through no table that has a header. -/
def changeAt (byKey : Bool) (change : TableKind → List (String × Toml) → Option Toml) :
    (path : List String) → Toml → Option Toml
  | [], .table kind entries => change kind entries
  | key :: path, .table kind entries => do
    let changed ← match entries.lookup key with
      | none => changeAt byKey change path (.table (if byKey then .dotted else .implied) [])
      | some (.table .inline _) => none
      | some (.table k es) =>
        if byKey && k == .headed then none else changeAt byKey change path (.table k es)
      | some (.tables ts) => do
        let last ← changeAt byKey change path (← ts.getLast?)
        some (.tables (ts.dropLast ++ [last]))
      | some _ => none
    return .table kind (put key changed entries)
  | _, _ => none

/-- Add a value under a dotted key. All tables on the way are dotted. -/
def assign (t : Toml) (path : List String) (v : Toml) : Option Toml := do
  let key ← path.getLast?
  let isLocal := path.dropLast.isEmpty
  changeAt true (fun kind entries =>
    if (isLocal || kind == .dotted) && (entries.lookup key).isNone then
      some (.table kind (entries ++ [(key, v)]))
    else none) path.dropLast t

/-! ## Arrays and inline tables -/

/-- Pass white space, line ends and comments. -/
def skipFiller : (inComment : Bool) → List Char → Option (List Char)
  | _, [] => some []
  | _, '\n' :: rest => skipFiller false rest
  | _, '\r' :: '\n' :: rest => skipFiller false rest
  | true, c :: rest => if isText c then skipFiller true rest else none
  | false, c :: rest =>
    if isSpace c then skipFiller false rest
    else if c = '#' then skipFiller true rest
    else some (c :: rest)

/-- The items of an array. A comma may follow the last one. -/
def readItems (value : Reader Toml) : (fuel : Nat) → Reader (List Toml)
  | 0, _ => none
  | fuel + 1, cs => do
    let cs ← skipFiller false cs
    if cs.head? = some ']' then return ([], cs.tail)
    let (item, rest) ← value cs
    match ← skipFiller false rest with
    | ',' :: rest =>
      let (items, rest) ← readItems value fuel rest
      return (item :: items, rest)
    | ']' :: rest => return ([item], rest)
    | _ => none

/-- A key, an equals sign and a value. -/
def readAssignment (value : Reader Toml) : Reader (List String × Toml) := fun cs => do
  let (path, rest) ← readPath cs
  let (v, rest) ← value ((← readMark '=' rest).dropWhile isSpace)
  return ((path, v), rest)

/-- The entries of an inline table. -/
def readEntries (value : Reader Toml) : (fuel : Nat) → Reader (List (List String × Toml))
  | 0, _ => none
  | fuel + 1, cs => do
    let (entry, rest) ← readAssignment value cs
    match rest.dropWhile isSpace with
    | ',' :: rest =>
      let (entries, rest) ← readEntries value fuel rest
      return (entry :: entries, rest)
    | '\x7d' :: rest => return ([entry], rest)
    | _ => none

/-- An inline table after its brace. -/
def readInline (value : Reader Toml) : Reader Toml := fun cs => do
  match cs.dropWhile isSpace with
  | '\x7d' :: rest => return (.table .inline [], rest)
  | cs =>
    let (entries, rest) ← readEntries value (cs.length + 1) cs
    let t ← entries.foldlM (fun t (path, v) => assign t path v) (.table .inline [])
    return (t, rest)

/-- A value with at most `depth` arrays and inline tables in each other. -/
def readValue : (depth : Nat) → Reader Toml
  | 0, cs => readScalar cs
  | depth + 1, cs =>
    match cs with
    | '[' :: rest => do
      let (items, rest) ← readItems (readValue depth) (rest.length + 1) rest
      return (.array items, rest)
    | '\x7b' :: rest => readInline (readValue depth) rest
    | cs => readScalar cs

end Toml

end ObjectGraph
