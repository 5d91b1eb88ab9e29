-- SUMMARY: Regular expressions with assertions, and whether a text holds a match.
import ObjectGraph.Pattern.CharSet

/-! # Regular expressions

A match is looked for by derivatives: the expressions that are left after every
character read so far. An assertion sees the characters on both sides of the
place where it stands, so the derivative takes them as its context. A counted
repetition keeps its counts, and stays as small as it is written.
-/

namespace ObjectGraph

namespace Pattern

/-! ## Assertions -/

/-- What stands on the two sides of a word boundary. -/
inductive WordEdge where
  | boundary
  | inside
  | start
  | finish
  | startHalf
  | finishHalf
deriving DecidableEq, Repr

inductive Look where
  | textStart
  | textEnd
  /-- With `crlf`, the two characters together end a line, and so does each of them alone. -/
  | lineStart (crlf : Bool)
  | lineEnd (crlf : Bool)
  | word (edge : WordEdge) (ascii : Bool)
deriving DecidableEq, Repr

/-- A place between two characters of a text. -/
structure Place where
  before : Option Char
  after : Option Char

def WordEdge.holds (before after : Bool) : WordEdge → Bool
  | .boundary => before != after
  | .inside => before == after
  | .start => !before && after
  | .finish => before && !after
  | .startHalf => !before
  | .finishHalf => !after

def Look.holds (p : Place) : Look → Bool
  | .textStart => p.before.isNone
  | .textEnd => p.after.isNone
  | .lineStart false => p.before.all (· = '\n')
  | .lineEnd false => p.after.all (· = '\n')
  | .lineStart true => p.before.all fun c => c = '\n' || (c = '\r' && p.after != some '\n')
  | .lineEnd true => p.after.all fun c => c = '\r' || (c = '\n' && p.before != some '\r')
  | .word edge ascii =>
    let isWord := (CharSet.wordChar ascii).contains
    edge.holds (p.before.any isWord) (p.after.any isWord)

/-! ## Expressions -/

inductive Regex where
  | empty
  | char (s : CharSet)
  | look (l : Look)
  | seq (a b : Regex)
  | alt (a b : Regex)
  /-- At least `least` copies, and no more than `most` of them if it is given. -/
  | repeated (r : Regex) (least : Nat) (most : Option Nat)
deriving DecidableEq, Repr

namespace Regex

/-- Does the expression match at a place without reading a character? -/
def matchesHere (p : Place) : Regex → Bool
  | .empty => true
  | .char _ => false
  | .look l => l.holds p
  | .seq a b => a.matchesHere p && b.matchesHere p
  | .alt a b => a.matchesHere p || b.matchesHere p
  | .repeated r least _ => least == 0 || r.matchesHere p

/-- One expression after the other. -/
def followedBy (a b : Regex) : Regex := if a = .empty then b else .seq a b

/-- What is left of the expression after reading a character. Copies that read
nothing at this place may all come first, so that none has to follow. -/
def derivatives (p : Place) (c : Char) : Regex → List Regex
  | .empty => []
  | .char s => if s.contains c then [.empty] else []
  | .look _ => []
  | .seq a b =>
    (a.derivatives p c).map (·.followedBy b) ++ if a.matchesHere p then b.derivatives p c else []
  | .alt a b => a.derivatives p c ++ b.derivatives p c
  | .repeated r least most =>
    if most = some 0 then []
    else
      let least := if r.matchesHere p then 0 else least - 1
      (r.derivatives p c).map (·.followedBy (.repeated r least (most.map (· - 1))))

/-- Is there a match of `r` in the text, or one of the expressions left over? -/
def matchesFrom (r : Regex) (before : Option Char) (left : List Regex) : List Char → Bool
  | [] => (r :: left).any (·.matchesHere ⟨before, none⟩)
  | c :: rest =>
    let p : Place := ⟨before, some c⟩
    let all := r :: left
    all.any (·.matchesHere p)
      || matchesFrom r (some c) (all.flatMap (·.derivatives p c)).eraseDups rest

/-- Does the text hold a match? -/
def isMatch (r : Regex) (text : String) : Bool := r.matchesFrom none [] text.toList

example : isMatch (.seq (.char (.single 'b')) (.look .textEnd)) "ab" = true := by decide +kernel

/-! ## Weight -/

/-- Can the expression match the empty text only? -/
def readsNothing : Regex → Bool
  | .empty => true
  | .char _ => false
  | .look _ => true
  | .seq a b => a.readsNothing && b.readsNothing
  | .alt a b => a.readsNothing && b.readsNothing
  | .repeated r _ most => most == some 0 || r.readsNothing

/-- An estimate of the bytes that the expression takes as an automaton, in which
every copy of a counted repetition is written out. -/
def weight : Regex → Nat
  | .empty => 32
  | .char s => s.weight
  | .look _ => 32
  | .seq a b => a.weight + b.weight
  | .alt a b => 40 + a.weight + b.weight
  | .repeated r least most =>
    if most == some 0 || r.readsNothing then 40 + r.weight
    else match most with
      | none => least * r.weight + r.weight + 40
      | some most => least * r.weight + (most - least) * (r.weight + 40)

/-- Heavier expressions are refused. -/
def maxWeight : Nat := 10 * 1024 * 1024

end Regex

end Pattern

end ObjectGraph
