-- SUMMARY: Flags of patterns, and what a backslash and the characters after it denote.
import ObjectGraph.Pattern.ClassName
import ObjectGraph.Pattern.Regex
import ObjectGraph.Text.Hex

/-! # Flags and escapes

A backslash before a letter names a character, a class or an assertion; before
most other characters it makes them stand for themselves. In verbose patterns
blanks and comments are passed over, also inside an escape.
-/

namespace ObjectGraph

namespace Pattern

/-! ## Flags -/

structure Flags where
  ignoreCase : Bool
  multiLine : Bool
  /-- The dot stands for line ends too. -/
  dotAll : Bool
  /-- Classes and case are those of Unicode, not only of ASCII. -/
  unicode : Bool
  /-- A carriage return ends a line too. -/
  crlf : Bool
  /-- Blanks and comments do not count. -/
  verbose : Bool
deriving DecidableEq, Repr

namespace Flags

def default : Flags := ⟨false, false, false, true, false, false⟩

/-- Set the flag of a letter. That for lazy copies does not change what matches. -/
def set (f : Flags) (on : Bool) : Char → Option Flags
  | 'i' => some { f with ignoreCase := on }
  | 'm' => some { f with multiLine := on }
  | 's' => some { f with dotAll := on }
  | 'u' => some { f with unicode := on }
  | 'R' => some { f with crlf := on }
  | 'x' => some { f with verbose := on }
  | 'U' => some f
  | _ => none

/-- Letters to set, and after a hyphen letters to clear. None is repeated, and the
hyphen is not the last. -/
def read? (f : Flags) (spelled : List Char) : Option Flags :=
  let on := spelled.takeWhile (· != '-')
  let off := (spelled.dropWhile (· != '-')).drop 1
  if spelled.eraseDups.length != spelled.length || spelled.getLast? = some '-' then none
  else do (← on.foldlM (·.set true ·) f) |> off.foldlM (·.set false ·)

end Flags

/-- Pass blanks and comments. A comment starts with a number sign and ends with its line. -/
def skipComments (inComment : Bool) : List Char → List Char
  | [] => []
  | c :: rest =>
    if inComment then skipComments (c != '\n') rest
    else if Text.isBlank c then skipComments false rest
    else if c = '#' then skipComments true rest
    else c :: rest

/-- Pass what does not count. -/
def Flags.pass (f : Flags) (cs : List Char) : List Char :=
  if f.verbose then skipComments false cs else cs

/-- Pass one character and what does not count after it. -/
def Flags.next (f : Flags) (cs : List Char) : List Char := f.pass (cs.drop 1)

/-! ## Sets under flags -/

/-- The set with both cases where case is ignored. -/
def Flags.fold (f : Flags) (s : CharSet) : CharSet :=
  if !f.ignoreCase then s else if f.unicode then .folded s else .inter (.folded s) .ascii

/-- The set or its complement. Without Unicode, sets stay within ASCII, so that none
of them splits a character. -/
def Flags.close (f : Flags) (negated : Bool) (s : CharSet) : Option CharSet :=
  if negated then (if f.unicode then some (.compl (f.fold s)) else none) else some (f.fold s)

/-! ## Atoms -/

/-- What an escape or a character denotes. -/
inductive Atom where
  /-- A character; `isByte` if it was given as two hexadecimal digits. -/
  | char (c : Char) (isByte : Bool)
  | set (s : CharSet)
  | look (l : Look)

abbrev AtomReader := Flags → List Char → Option (Atom × List Char)

/-- Characters with a meaning of their own. -/
def isMeta (c : Char) : Bool := "\\.+*?()|[]\x7b\x7d^$#&-~".toList.contains c

/-- Characters that stand for themselves after a backslash. -/
def isEscapable (c : Char) : Bool :=
  isMeta c || (c.toNat < 0x80 && !c.isAlphanum && c != '<' && c != '>')

/-! ## Characters by number -/

def isHexDigit (c : Char) : Bool := (digitValue? 16 c).isSome

/-- So many hexadecimal digits, passing what does not count after each. -/
def hexDigits (f : Flags) : Nat → List Char → Option (List Char × List Char)
  | 0, cs => some ([], cs)
  | n + 1, c :: cs => do
    if !isHexDigit c then none
    let (digits, rest) ← hexDigits f n (f.pass cs)
    return (c :: digits, rest)
  | _ + 1, [] => none

/-- Characters up to a closing brace, without those that do not count. -/
def untilBrace (f : Flags) : (fuel : Nat) → List Char → Option (List Char × List Char)
  | 0, _ => none
  | _, [] => none
  | fuel + 1, c :: cs =>
    if c = '\x7d' then some ([], cs)
    else do
      let (taken, rest) ← untilBrace f fuel (f.pass cs)
      return (c :: taken, rest)

/-- A character by number, at the letter of its form. -/
def hexEscape (width : Nat) : AtomReader := fun f cs => do
  match f.next cs with
  | '\x7b' :: rest =>
    let (digits, rest) ← untilBrace f (rest.length + 2) (f.pass rest)
    if digits.isEmpty || !digits.all isHexDigit then none
    return (.char (← Text.hexChar? digits) false, f.pass rest)
  | cs =>
    let (digits, rest) ← hexDigits f width cs
    return (.char (← Text.hexChar? digits) (width = 2), rest)

/-! ## Classes -/

/-- Split a text at the first occurrence of another one. -/
def splitAt? (mark : List Char) : List Char → Option (List Char × List Char)
  | [] => none
  | c :: cs =>
    if mark.isPrefixOf (c :: cs) then some ([], (c :: cs).drop mark.length)
    else (splitAt? mark cs).map fun (a, b) => (c :: a, b)

/-- The class that is named in braces, and whether its complement is meant. -/
def namedClass? (name : List Char) : Option (CharSet × Bool) :=
  match splitAt? ['!', '='] name with
  | some (p, v) => (classOfValue? p v).map (·, true)
  | none =>
    match (splitAt? [':'] name).orElse fun _ => splitAt? ['='] name with
    | some (p, v) => (classOfValue? p v).map (·, false)
    | none => (classOfName? name).map (·, false)

/-- The class after the letter of its form: a name in braces or of one letter. -/
def unicodeClass? (f : Flags) (cs : List Char) : Option (CharSet × Bool × List Char) := do
  match f.next cs with
  | [] => none
  | '\x7b' :: rest =>
    let (name, rest) ← untilBrace f (rest.length + 2) (f.pass rest)
    let (s, inverse) ← namedClass? name
    return (s, inverse, rest)
  | c :: rest =>
    if c = '\\' then none
    return (← classOfName? [c], false, f.pass rest)

/-- A Unicode class, at the letter of its form. -/
def classEscape (negated : Bool) : AtomReader := fun f cs => do
  if !f.unicode then none
  let (s, inverse, rest) ← unicodeClass? f cs
  return (.set (← f.close (negated != inverse) s), rest)

/-- A class of one letter. Case does not matter to it. -/
def letterClass (f : Flags) (negated : Bool) (s : Bool → CharSet) : Option Atom :=
  if negated then (if f.unicode then some (.set (.compl (s false))) else none)
  else some (.set (s !f.unicode))

/-! ## Word boundaries -/

/-- Names of word boundaries that look to one side only. -/
def wordEdges : List (String × WordEdge) :=
  [("start", .start), ("end", .finish), ("start-half", .startHalf), ("end-half", .finishHalf)]

def isEdgeNameChar (c : Char) : Bool := c.isAlpha || c = '-'

/-- Characters of a name, without those that do not count. -/
def edgeName (f : Flags) : (fuel : Nat) → List Char → List Char × List Char
  | 0, cs => ([], cs)
  | _, [] => ([], [])
  | fuel + 1, c :: cs =>
    if isEdgeNameChar c then
      let (name, rest) := edgeName f fuel (f.pass cs)
      (c :: name, rest)
    else ([], c :: cs)

/-- After `\b`: the name of an edge in braces, unless the braces count copies. -/
def boundaryEscape : AtomReader := fun f cs => do
  match cs with
  | '\x7b' :: rest =>
    let inner := f.pass rest
    let first ← inner.head?
    if !isEdgeNameChar first then return (.look (.word .boundary !f.unicode), cs)
    match edgeName f inner.length inner with
    | (name, '\x7d' :: rest) =>
      return (.look (.word (← wordEdges.lookup (String.ofList name)) !f.unicode), rest)
    | _ => none
  | _ => return (.look (.word .boundary !f.unicode), cs)

/-! ## Escapes -/

/-- Characters named by a letter. -/
def letterEscapes : List (Char × Char) :=
  [('a', '\x07'), ('f', '\x0c'), ('t', '\t'), ('n', '\n'), ('r', '\r'), ('v', '\x0b')]

/-- Assertions named by a letter. -/
def lookEscape? (ascii : Bool) : Char → Option Look
  | 'A' => some .textStart
  | 'z' => some .textEnd
  | 'B' => some (.word .inside ascii)
  | '<' => some (.word .start ascii)
  | '>' => some (.word .finish ascii)
  | _ => none

/-- What an escape denotes, after its backslash. -/
def readEscape : AtomReader := fun f cs => do
  let c ← cs.head?
  let rest := cs.drop 1
  let plain (a : Option Atom) : Option (Atom × List Char) := a.map (·, rest)
  match c with
  | 'x' => hexEscape 2 f cs
  | 'u' => hexEscape 4 f cs
  | 'U' => hexEscape 8 f cs
  | 'p' => classEscape false f cs
  | 'P' => classEscape true f cs
  | 'd' => plain (letterClass f false .digit)
  | 'D' => plain (letterClass f true .digit)
  | 's' => plain (letterClass f false .blank)
  | 'S' => plain (letterClass f true .blank)
  | 'w' => plain (letterClass f false .wordChar)
  | 'W' => plain (letterClass f true .wordChar)
  | 'b' => boundaryEscape f rest
  | _ =>
    if isEscapable c then plain (some (.char c false))
    else match letterEscapes.lookup c with
      | some named => plain (some (.char named false))
      | none => plain ((lookEscape? (!f.unicode) c).map .look)

end Pattern

end ObjectGraph
