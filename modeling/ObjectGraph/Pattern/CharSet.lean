-- SUMMARY: Sets of characters, built from ranges and Unicode classes by set operations.
import ObjectGraph.Text.CaseFold
import ObjectGraph.Text.Property
import ObjectGraph.Text.Script

/-! # Character sets -/

namespace ObjectGraph

namespace Pattern

inductive CharSet where
  | empty
  | range (low high : Char)
  | category (c : Text.Category)
  | script (s : Text.Script)
  /-- The characters that a script is used with. -/
  | usedWith (s : Text.Script)
  | property (p : Text.Property)
  /-- The characters of words. -/
  | word
  | union (a b : CharSet)
  | inter (a b : CharSet)
  | diff (a b : CharSet)
  | symmDiff (a b : CharSet)
  | compl (a : CharSet)
  /-- The set and what differs from its members only in case. -/
  | folded (a : CharSet)
deriving DecidableEq, Repr

namespace CharSet

def contains : CharSet → Char → Bool
  | .empty, _ => false
  | .range low high, c => low ≤ c && c ≤ high
  | .category k, c => Text.category c == k
  | .script s, c => Text.script c == s
  | .usedWith s, c => (Text.scriptsOf c).contains s
  | .property p, c => p.holds c
  | .word, c => Text.isWordChar c
  | .union a b, c => a.contains c || b.contains c
  | .inter a b, c => a.contains c && b.contains c
  | .diff a b, c => a.contains c && !b.contains c
  | .symmDiff a b, c => a.contains c != b.contains c
  | .compl a, c => !a.contains c
  | .folded a, c => (Text.caseVariants c).any a.contains

def single (c : Char) : CharSet := .range c c

def any : CharSet := .compl .empty

def unionOf (sets : List CharSet) : CharSet := sets.foldr .union .empty

def ofChars (cs : List Char) : CharSet := unionOf (cs.map single)

def ofRanges (rs : List (Char × Char)) : CharSet := unionOf (rs.map fun (a, b) => .range a b)

def ofCategories (cs : List Text.Category) : CharSet := unionOf (cs.map .category)

def ascii : CharSet := .range '\x00' '\x7f'

@[simp] theorem contains_any (c : Char) : any.contains c = true := rfl

@[simp] theorem contains_unionOf (sets : List CharSet) (c : Char) :
    (unionOf sets).contains c = sets.any (·.contains c) := by
  induction sets with
  | nil => rfl
  | cons s rest ih =>
    show (s.contains c || (unionOf rest).contains c) = _
    rw [ih]; rfl

/-! ## The classes of one letter -/

def digit (ascii : Bool) : CharSet :=
  if ascii then .range '0' '9' else .category .decimalNumber

def blank (ascii : Bool) : CharSet :=
  if ascii then ofRanges [('\t', '\r'), (' ', ' ')] else .property .whiteSpace

def wordChar (ascii : Bool) : CharSet :=
  if ascii then ofRanges [('0', '9'), ('A', 'Z'), ('_', '_'), ('a', 'z')] else .word

/-! ## Weight -/

/-- An estimate of the bytes that an automaton takes for the set. -/
def weight : CharSet → Nat
  | .empty => 32
  | .range low high =>
    if low = high then 32 * low.utf8Size else if high.toNat < 0x80 then 72 else 160
  | .category _ => 1400
  | .script _ => 600
  | .usedWith _ => 600
  | .property _ => 8000
  | .word => 20000
  | .union a b => weight a + weight b
  | .inter a b => weight a + weight b
  | .diff a b => weight a + weight b
  | .symmDiff a b => weight a + weight b
  | .compl a => max 400 (weight a)
  | .folded a => 64 + weight a

end CharSet

end Pattern

end ObjectGraph
