-- SUMMARY: Search modes, and what a criterion says of values, keys and types.
import ObjectGraph.Graph.Basic

/-! # Modes and criteria

A mode says which tests a search makes. A criterion is read in three ways: as a
test of values, of keys and of types.
-/

namespace ObjectGraph

/-! ## Modes -/

/-- What a hit was found by. -/
inductive HitKind where
  | value
  | key
  | type
deriving DecidableEq, Repr

def HitKind.name : HitKind → String
  | .value => "value"
  | .key => "key"
  | .type => "type"

inductive Mode where
  | value
  | key
  | type
  | all
deriving DecidableEq, Repr

namespace Mode

def name : Mode → String
  | .value => "value"
  | .key => "key"
  | .type => "type"
  | .all => "all"

/-- Does the mode make this kind of test? -/
def checks : Mode → HitKind → Bool
  | .all, _ => true
  | .value, .value => true
  | .key, .key => true
  | .type, .type => true
  | _, _ => false

/-- The mode of a name; the empty name is that of all tests. -/
def ofName? (name : String) : Option Mode :=
  if name = "value" then some .value
  else if name = "key" then some .key
  else if name = "type" then some .type
  else if name = "all" ∨ name = "" then some .all
  else none

theorem ofName?_name (m : Mode) : ofName? m.name = some m := by cases m <;> decide

/-- What is said of a name that is no mode. -/
def invalidMessage (name : String) : String :=
  "Invalid search mode '" ++ name ++ "'. Must be one of: value, key, type, all"

end Mode

/-! ## Criteria -/

inductive Criterion where
  /-- Equality with a value. -/
  | exact (v : Value)
  /-- A test of strings. -/
  | pattern (holds : String → Bool)
  /-- Membership in a type. -/
  | type (tag : TypeTag)

namespace Criterion

/-- A class name or built-in constructor name as a criterion. -/
def instanceOf (name : String) : Criterion := .type (.ofName name)

def matchesValue : Criterion → Value → Bool
  | .exact expected, v => v == expected
  | .pattern holds, .string s => holds s
  | .pattern _, _ => false
  | .type _, _ => false

/-- A symbol is met by its description, by its canonical form or by itself. -/
def matchesSymbol : Criterion → Symbol → Bool
  | .exact (.string expected), s => s.label == expected || s.display == expected
  | .exact (.symbol expected), s => s == expected
  | .exact _, _ => false
  | .pattern holds, s => holds s.label || holds s.display
  | .type _, _ => false

/-- The test of a record key. -/
def matchesKey : Criterion → Key → Bool
  | c, .symbol s => c.matchesSymbol s
  | .exact (.string expected), .name name => name == expected
  | .exact _, .name _ => false
  | .pattern holds, .name name => holds name
  | .type _, .name _ => false

/-- The test of a map key. -/
def matchesEntryKey : Criterion → Value → Bool
  | c, .symbol s => c.matchesSymbol s
  | .exact expected, key => key == expected
  | .pattern holds, .string s => holds s
  | .pattern _, _ => false
  | .type _, _ => false

/-- The test of the key of a slot; the places of a sequence are no keys. -/
def matchesSlotKey (c : Criterion) : SlotKey → Bool
  | .field key => c.matchesKey key
  | .index _ => false
  | .entry key => c.matchesEntryKey key

/-- A string names a runtime category, a tag is a membership test. -/
def matchesType (c : Criterion) (g : Graph) (v : Value) : Bool :=
  match c with
  | .exact (.string name) => v.typeName == name
  | .exact _ => false
  | .pattern _ => false
  | .type tag => g.isInstance v tag

end Criterion

end ObjectGraph
