-- SUMMARY: Class names, their parents, and the tags of type tests.

/-! # Classes

A registry knows class names and the parent of each. Inheritance is the closure
of the parent links; a registry may hold a cycle, so the walk along the links
takes at most as many steps as there are classes.
-/

namespace ObjectGraph

structure Registry where
  parents : List (String × Option String)
deriving DecidableEq, Repr

namespace Registry

/-- The registry with the built-in root classes. -/
def initial : Registry := ⟨[("Date", none), ("RegExp", none), ("Error", none)]⟩

instance : Inhabited Registry := ⟨initial⟩

def size (r : Registry) : Nat := r.parents.length

def contains (r : Registry) (name : String) : Bool := r.parents.any (·.1 == name)

def parent? (r : Registry) (name : String) : Option String :=
  ((r.parents.find? (·.1 == name)).map (·.2)).join

/-- Add a root class; a known class is left as it is. -/
def register (r : Registry) (name : String) : Registry :=
  if r.contains name then r else ⟨r.parents ++ [(name, none)]⟩

/-- Make `name` a subclass of `parent`, whether or not it was known before. -/
def setParent (r : Registry) (name parent : String) : Registry :=
  if r.contains name then
    ⟨r.parents.map fun (c, p) => if c == name then (c, some parent) else (c, p)⟩
  else ⟨r.parents ++ [(name, some parent)]⟩

/-- Is `ancestor` met within `steps` classes from `start` upwards? -/
def meets (r : Registry) (ancestor : String) : (steps : Nat) → (start : Option String) → Bool
  | 0, _ => false
  | _ + 1, none => false
  | n + 1, some name => name == ancestor || r.meets ancestor n (r.parent? name)

/-- Is `name` the class `ancestor`, or does it inherit from it? -/
def isSubclass (r : Registry) (name ancestor : String) : Bool :=
  r.meets ancestor (r.size + 1) (some name)

theorem isSubclass_self (r : Registry) (name : String) : r.isSubclass name name = true := by
  simp [isSubclass, meets]

end Registry

/-! ## Tags -/

/-- What a type test asks for. -/
inductive TypeTag where
  /-- Every container and every callable. -/
  | object
  | sequence
  | map
  | function
  /-- Instances of a class and of its subclasses. -/
  | ofClass (name : String)
deriving DecidableEq, Repr

namespace TypeTag

/-- Built-in constructor names denote the structural tags, all others a class. -/
def ofName (name : String) : TypeTag :=
  if name = "Object" then .object
  else if name = "Array" ∨ name = "Sequence" then .sequence
  else if name = "Map" then .map
  else if name = "Function" then .function
  else .ofClass name

def display : TypeTag → String
  | .object => "Object"
  | .sequence => "Array"
  | .map => "Map"
  | .function => "Function"
  | .ofClass name => name

end TypeTag

end ObjectGraph
