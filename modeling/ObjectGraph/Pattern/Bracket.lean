-- SUMMARY: Character sets in brackets: ranges, nested sets, and the operators between them.
import ObjectGraph.Pattern.Escape

/-! # Sets in brackets

Operators have no precedence and are taken from left to right. Every set comes
with its depth, the number of brackets, operators and unions in each other.
-/

namespace ObjectGraph

namespace Pattern

/-- A set and its depth. -/
structure SetItem where
  set : CharSet
  depth : Nat

/-- A union of several items is one level deeper than they are. -/
def SetItem.unionOf : List SetItem → SetItem
  | [] => ⟨.empty, 0⟩
  | [item] => item
  | items => ⟨.unionOf (items.map (·.set)), 1 + (items.map (·.depth)).foldl max 0⟩

inductive SetOperator where
  | inter
  | diff
  | symmDiff

def SetOperator.apply : SetOperator → CharSet → CharSet → CharSet
  | .inter => .inter
  | .diff => .diff
  | .symmDiff => .symmDiff

/-- An operator that waits for what is on its right. -/
structure Pending where
  operator : SetOperator
  left : SetItem

/-- Apply the operator that waits, if there is one. -/
def applyPending (f : Flags) (p : Option Pending) (right : SetItem) : SetItem :=
  match p with
  | none => right
  | some p =>
    ⟨p.operator.apply (f.fold p.left.set) (f.fold right.set), 1 + max p.left.depth right.depth⟩

/-! ## Items -/

/-- A character as an item. Without Unicode it has to be ASCII. -/
def charItem? (f : Flags) (c : Char) : Option Char :=
  if f.unicode || c.toNat < 0x80 then some c else none

def Atom.item? (f : Flags) : Atom → Option SetItem
  | .char c _ => (charItem? f c).map fun c => ⟨.single c, 0⟩
  | .set s => some ⟨s, 0⟩
  | .look _ => none

def Atom.rangeEnd? (f : Flags) : Atom → Option Char
  | .char c _ => charItem? f c
  | _ => none

def readSetAtom : AtomReader := fun f cs =>
  match cs with
  | [] => none
  | '\\' :: rest => readEscape f rest
  | c :: rest => some (.char c false, rest)

/-- The character that counts next after a hyphen. A comment there hides its sign only. -/
def afterHyphen (f : Flags) (cs : List Char) : Option Char :=
  if f.verbose then
    let cs := cs.dropWhile Text.isBlank
    let cs := if cs.head? = some '#' then (cs.drop 1).dropWhile Text.isBlank else cs
    cs.head?
  else cs.head?

/-- An item or a range. A hyphen before the closing bracket or another hyphen is none. -/
def readRange (f : Flags) (cs : List Char) : Option (SetItem × List Char) := do
  let (first, rest) ← readSetAtom f cs
  match f.pass rest with
  | [] => none
  | '-' :: after =>
    let next := afterHyphen f after
    if next = some ']' ∨ next = some '-' then return (← first.item? f, '-' :: after)
    let (last, rest) ← readSetAtom f (f.pass after)
    let low ← first.rangeEnd? f
    let high ← last.rangeEnd? f
    if high < low then none
    return (⟨.range low high, 0⟩, rest)
  | rest => return (← first.item? f, rest)

/-- A class such as `[:alpha:]` after its first bracket: its name and whether a caret
is before it. -/
def readAsciiClass? : List Char → Option (CharSet × Bool × List Char)
  | ':' :: cs => do
    let negated := cs.head? = some '^'
    let cs := if negated then cs.drop 1 else cs
    let (name, rest) ← splitAt? [':'] cs
    if rest.head? != some ']' then none
    return (← asciiClass? name, negated, rest.drop 1)
  | _ => none

/-! ## Sets -/

/-- Hyphens at the start of a set stand for themselves. -/
def leadingHyphens (f : Flags) : (fuel : Nat) → List Char → List SetItem × List Char
  | fuel + 1, '-' :: cs =>
    let (items, rest) := leadingHyphens f fuel (f.pass cs)
    (⟨.single '-', 0⟩ :: items, rest)
  | _, cs => ([], cs)

/-- The start of a set after its bracket: a caret, hyphens, or a closing bracket that
stands for itself. -/
def openSet (f : Flags) (cs : List Char) : Option (Bool × List SetItem × List Char) :=
  let cs := f.pass cs
  let negated := cs.head? = some '^'
  let cs := if negated then f.next cs else cs
  let (items, cs) := leadingHyphens f cs.length cs
  let (items, cs) :=
    if items.isEmpty ∧ cs.head? = some ']' then ([⟨.single ']', 0⟩], f.next cs) else (items, cs)
  if cs.isEmpty then none else some (negated, items, cs)

/-- The rest of a set up to its closing bracket, with the items so far. -/
def readSetBody (f : Flags) :
    (fuel : Nat) → Option Pending → List SetItem → List Char → Option (SetItem × List Char)
  | 0, _, _, _ => none
  | fuel + 1, pending, items, cs =>
    let done := applyPending f pending (.unionOf items)
    match f.pass cs with
    | [] => none
    | ']' :: rest => some (done, rest)
    | '&' :: '&' :: rest => readSetBody f fuel (some ⟨.inter, done⟩) [] rest
    | '-' :: '-' :: rest => readSetBody f fuel (some ⟨.diff, done⟩) [] rest
    | '~' :: '~' :: rest => readSetBody f fuel (some ⟨.symmDiff, done⟩) [] rest
    | '[' :: rest =>
      match readAsciiClass? rest with
      | some (s, negated, rest) => do
        readSetBody f fuel pending (items ++ [⟨← f.close negated s, 0⟩]) rest
      | none => do
        let (negated, first, rest) ← openSet f rest
        let (inner, rest) ← readSetBody f fuel none first rest
        let item : SetItem := ⟨← f.close negated inner.set, 1 + inner.depth⟩
        readSetBody f fuel pending (items ++ [item]) rest
    | cs => do
      let (item, rest) ← readRange f cs
      readSetBody f fuel pending (items ++ [item]) rest

/-- A set after its opening bracket. -/
def readSet (f : Flags) (cs : List Char) : Option (SetItem × List Char) := do
  let (negated, first, rest) ← openSet f cs
  let (inner, rest) ← readSetBody f (rest.length + 2) none first rest
  return (⟨← f.close negated inner.set, 1 + inner.depth⟩, rest)

end Pattern

end ObjectGraph
