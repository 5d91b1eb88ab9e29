-- SUMMARY: Values of a graph: scalars, symbols, callables and references to containers.
import ObjectGraph.Number.Shortest

/-! # Values

A value is a scalar, stored inline, or a reference to a container of a graph.
Symbols and callables have identity: two of them are equal when they carry the
same number, whatever they are called.
-/

namespace ObjectGraph

/-- The place of a container in its graph. -/
structure NodeId where
  index : Nat
deriving DecidableEq, Repr, Inhabited

/-! ## Symbols and callables -/

/-- A unique key with an optional description. -/
structure Symbol where
  id : Nat
  description : Option String
deriving DecidableEq, Repr, Inhabited

namespace Symbol

instance : BEq Symbol := ⟨fun a b => a.id == b.id⟩

/-- The description, empty for an anonymous symbol. -/
def label (s : Symbol) : String := s.description.getD ""

/-- The canonical form `Symbol(description)`. -/
def display (s : Symbol) : String := "Symbol(" ++ s.label ++ ")"

theorem beq_iff {a b : Symbol} : (a == b) = true ↔ a.id = b.id := by
  simp [BEq.beq]

end Symbol

/-- A function value: only its name shows. -/
structure Callable where
  id : Nat
  name : String
deriving DecidableEq, Repr, Inhabited

namespace Callable

instance : BEq Callable := ⟨fun a b => a.id == b.id⟩

theorem beq_iff {a b : Callable} : (a == b) = true ↔ a.id = b.id := by
  simp [BEq.beq]

end Callable

/-- The numbers of the next fresh symbol, callable and accessor. -/
structure Supply where
  symbols : Nat
  callables : Nat
  accessors : Nat
deriving DecidableEq, Repr

namespace Supply

def initial : Supply := ⟨0, 0, 0⟩

instance : Inhabited Supply := ⟨initial⟩

def newSymbol (s : Supply) (description : Option String) : Symbol × Supply :=
  (⟨s.symbols, description⟩, { s with symbols := s.symbols + 1 })

def newCallable (s : Supply) (name : String) : Callable × Supply :=
  (⟨s.callables, name⟩, { s with callables := s.callables + 1 })

end Supply

/-! ## Numbers -/

inductive Number where
  | integer (n : Int64)
  | float (x : Binary64)
deriving DecidableEq, Repr

namespace Number

def toBinary64 : Number → Binary64
  | .integer n => .ofInt n.toInt
  | .float x => x

/-- Two integers compare exactly; as soon as one side is floating-point, both
sides compare as doubles. -/
def equals : Number → Number → Bool
  | .integer a, .integer b => a.toInt == b.toInt
  | a, b => a.toBinary64.equals b.toBinary64

instance : BEq Number := ⟨equals⟩

def display : Number → String
  | .integer n => toString n.toInt
  | .float x => NumberLayout.plain.write x

def isNaN : Number → Bool
  | .integer _ => false
  | .float x => x.isNaN

end Number

/-! ## Values -/

inductive Value where
  | undefined
  | null
  | boolean (b : Bool)
  | number (n : Number)
  | string (s : String)
  | symbol (s : Symbol)
  | callable (c : Callable)
  /-- A reference to a container, which need not exist. -/
  | node (id : NodeId)
deriving DecidableEq, Repr, Inhabited

namespace Value

/-- References compare by identity, all else by content. -/
def equals : Value → Value → Bool
  | .undefined, .undefined => true
  | .null, .null => true
  | .boolean a, .boolean b => a == b
  | .number a, .number b => a == b
  | .string a, .string b => a == b
  | .symbol a, .symbol b => a == b
  | .callable a, .callable b => a == b
  | .node a, .node b => a == b
  | _, _ => false

instance : BEq Value := ⟨equals⟩

/-- The runtime category. Null and every container are objects. -/
def typeName : Value → String
  | .undefined => "undefined"
  | .null => "object"
  | .boolean _ => "boolean"
  | .number _ => "number"
  | .string _ => "string"
  | .symbol _ => "symbol"
  | .callable _ => "function"
  | .node _ => "object"

def display : Value → String
  | .undefined => "undefined"
  | .null => "null"
  | .boolean b => if b then "true" else "false"
  | .number n => n.display
  | .string s => s
  | .symbol s => s.display
  | .callable c => "[function " ++ c.name ++ "]"
  | .node id => "[object #" ++ toString id.index ++ "]"

def isNullish : Value → Bool
  | .undefined | .null => true
  | _ => false

def isScalar : Value → Bool
  | .node _ => false
  | _ => true

def node? : Value → Option NodeId
  | .node id => some id
  | _ => none

def symbol? : Value → Option Symbol
  | .symbol s => some s
  | _ => none

def string? : Value → Option String
  | .string s => some s
  | _ => none

end Value

/-! ## Field keys -/

/-- The key of a record field. -/
inductive Key where
  | name (s : String)
  | symbol (s : Symbol)
deriving DecidableEq, Repr, Inhabited

namespace Key

def equals : Key → Key → Bool
  | .name a, .name b => a == b
  | .symbol a, .symbol b => a == b
  | _, _ => false

instance : BEq Key := ⟨equals⟩

def display : Key → String
  | .name s => s
  | .symbol s => s.display

def symbol? : Key → Option Symbol
  | .symbol s => some s
  | .name _ => none

/-- The value that a map would hold in place of this key. -/
def toValue : Key → Value
  | .name s => .string s
  | .symbol s => .symbol s

end Key

end ObjectGraph
