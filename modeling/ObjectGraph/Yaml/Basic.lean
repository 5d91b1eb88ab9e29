-- SUMMARY: YAML values, when two of them are the same, and the reading of plain scalars.
import ObjectGraph.Number.Read
import ObjectGraph.Number.Shortest

/-! # YAML values

The values that a YAML document denotes. The entries of a mapping are in order;
its keys are distinct in the sense of `Yaml.same`.
-/

namespace ObjectGraph

inductive Yaml where
  | null
  | boolean (b : Bool)
  | integer (n : Int)
  | float (x : Binary64)
  | string (s : String)
  | sequence (items : List Yaml)
  | mapping (entries : List (Yaml × Yaml))
  /-- A value under a tag, whose name is without the exclamation mark. -/
  | tagged (name : String) (v : Yaml)
deriving Repr, Inhabited

namespace Yaml

/-! ## Sameness -/

/-- Floats as mapping keys: the zeros are the same, and so are all NaNs. -/
def sameFloat (x y : Binary64) : Bool := x.isNaN && y.isNaN || x.equals y

mutual

/-- Are the values the same as mapping keys? An integer is never a float, and the
order of mapping entries does not count. -/
def same : Yaml → Yaml → Bool
  | .null, .null => true
  | .boolean a, .boolean b => a == b
  | .integer a, .integer b => a == b
  | .float a, .float b => sameFloat a b
  | .string a, .string b => a == b
  | .sequence as, .sequence bs => sameItems as bs
  | .mapping as, .mapping bs => as.length == bs.length && entriesIn as bs
  | .tagged m a, .tagged n b => m == n && same a b
  | _, _ => false

def sameItems : List Yaml → List Yaml → Bool
  | [], [] => true
  | a :: as, b :: bs => same a b && sameItems as bs
  | _, _ => false

/-- Does every entry have its equal among the others? -/
def entriesIn : List (Yaml × Yaml) → List (Yaml × Yaml) → Bool
  | [], _ => true
  | (k, v) :: rest, bs => bs.any (fun (k', v') => same k k' && same v v') && entriesIn rest bs

end

/-- Put an entry into a mapping: the same key keeps its place. -/
def insertEntry (key value : Yaml) : List (Yaml × Yaml) → List (Yaml × Yaml)
  | [] => [(key, value)]
  | (k, v) :: rest => if same k key then (k, value) :: rest else (k, v) :: insertEntry key value rest

/-- The name of a written tag: one leading `!` is not part of it, unless it is all there is. -/
def tagName (text : String) : String :=
  match text.toList with
  | '!' :: c :: rest => String.ofList (c :: rest)
  | _ => text

/-! ## Plain scalars -/

/-- How a text without quotes reads. -/
inductive Plain where
  | value (v : Yaml)
  /-- An integer beyond 64 bits that fits 128 bits. -/
  | tooWide
deriving Repr

/-- Several digits of which the first is zero, after an optional sign. -/
def isZeroPadded (text : List Char) : Bool :=
  let digits := match text with
    | '-' :: rest => rest
    | '+' :: rest => rest
    | rest => rest
  1 < digits.length && digits.head? == some '0' && digits.all Char.isDigit

def readNull (text : List Char) : Bool :=
  ["null", "Null", "NULL", "~"].contains (String.ofList text)

def readBoolean? (text : List Char) : Option Bool :=
  let s := String.ofList text
  if ["true", "True", "TRUE"].contains s then some true
  else if ["false", "False", "FALSE"].contains s then some false
  else none

/-- The magnitude of an integer after its sign: decimal, `0x`, `0o` or `0b`. -/
def readMagnitude? (padded : Bool) : List Char → Option Nat
  | '0' :: 'x' :: digits => readDigits? 16 digits
  | '0' :: 'o' :: digits => readDigits? 8 digits
  | '0' :: 'b' :: digits => readDigits? 2 digits
  | digits => if padded then none else readDigits? 10 digits

/-- An integer. What exceeds 128 bits is none. -/
def readInteger? (text : List Char) : Option Plain :=
  let padded := isZeroPadded text
  match text with
  | '-' :: rest =>
    (readMagnitude? padded rest).bind fun n =>
      if n ≤ 1 <<< 63 then some (.value (.integer (-(n : Int))))
      else if n ≤ 1 <<< 127 then some .tooWide else none
  | _ =>
    let rest := match text with
      | '+' :: rest => rest
      | rest => rest
    (readMagnitude? padded rest).bind fun n =>
      if n < 1 <<< 64 then some (.value (.integer n))
      else if n < 1 <<< 128 then some .tooWide else none

/-- A finite decimal, or one of the names of infinity and of what is no number. -/
def readFloat? (text : List Char) : Option Binary64 :=
  let s := String.ofList text
  if [".inf", ".Inf", ".INF", "+.inf", "+.Inf", "+.INF"].contains s then some (.infinity false)
  else if ["-.inf", "-.Inf", "-.INF"].contains s then some (.infinity true)
  else if [".nan", ".NaN", ".NAN"].contains s then some .nan
  else (Binary64.read? text).filter Binary64.isFinite

/-- The value of a plain scalar. -/
def readPlain (text : List Char) : Plain :=
  if text.isEmpty || readNull text then .value .null
  else match readBoolean? text with
    | some b => .value (.boolean b)
    | none => match readInteger? text with
      | some r => r
      | none =>
        let float? := if isZeroPadded text then none else readFloat? text
        match float? with
        | some x => .value (.float x)
        | none => .value (.string (String.ofList text))

/-! ## Text of scalars -/

/-- A floating-point number as YAML writes it. -/
def floatText (x : Binary64) : String := NumberLayout.yaml.write x

end Yaml

end ObjectGraph
