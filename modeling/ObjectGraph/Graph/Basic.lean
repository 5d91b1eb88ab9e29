-- SUMMARY: Object graphs: an arena of containers, a class registry and shared symbols.
import ObjectGraph.Graph.Container
import ObjectGraph.Graph.Registry

/-! # Graphs

A graph owns its containers in an arena. Values refer to them by place, so
sharing and cycles are plain data, and a reference may also lead nowhere. An
operation that cannot be done names the cause and leaves no trace.
-/

namespace ObjectGraph

inductive GraphError where
  | nodeNotFound (id : NodeId)
  | kindMismatch (id : NodeId) (expected : Kind)
  | unknownClass (name : String)
deriving DecidableEq, Repr

def GraphError.message : GraphError → String
  | .nodeNotFound id => "node #" ++ toString id.index ++ " does not exist"
  | .kindMismatch id kind => "node #" ++ toString id.index ++ " is not a " ++ kind.name
  | .unknownClass name => "class '" ++ name ++ "' is not registered"

structure Graph where
  nodes : Array Container
  classes : Registry
  /-- The symbols interned under a description. -/
  shared : List (String × Symbol)

namespace Graph

def empty : Graph := ⟨#[], .initial, []⟩

instance : Inhabited Graph := ⟨empty⟩

def size (g : Graph) : Nat := g.nodes.size

def isEmpty (g : Graph) : Bool := g.size == 0

/-! ## Looking up -/

def node? (g : Graph) (id : NodeId) : Option Container := g.nodes[id.index]?

def record? (g : Graph) (id : NodeId) : Option Record := (g.node? id).bind Container.record?

def sequence? (g : Graph) (id : NodeId) : Option (List Value) :=
  (g.node? id).bind Container.sequence?

def map? (g : Graph) (id : NodeId) : Option (List (Value × Value)) :=
  (g.node? id).bind Container.map?

theorem node?_eq_some_iff {g : Graph} {id : NodeId} {c : Container} :
    g.node? id = some c ↔ ∃ h : id.index < g.size, g.nodes[id.index] = c := by
  simp [node?, size, Array.getElem?_eq_some_iff]

theorem index_lt_of_node? {g : Graph} {id : NodeId} {c : Container} (h : g.node? id = some c) :
    id.index < g.size :=
  (node?_eq_some_iff.1 h).1

/-! ## Adding containers -/

/-- Append a container; the new place is the old size. -/
def add (g : Graph) (c : Container) : NodeId × Graph :=
  (⟨g.size⟩, { g with nodes := g.nodes.push c })

def addRecord (g : Graph) : NodeId × Graph := g.add (.record .empty)

def addSequence (g : Graph) (items : List Value) : NodeId × Graph := g.add (.sequence items)

def addMap (g : Graph) : NodeId × Graph := g.add (.map [])

/-- Add an empty instance of a registered class. -/
def addInstance (g : Graph) (className : String) : Except GraphError (NodeId × Graph) :=
  if g.classes.contains className then .ok (g.add (.record (.instanceOf className)))
  else .error (.unknownClass className)

/-! ## Changing containers -/

/-- Replace the container at a place that exists. -/
def put (g : Graph) (id : NodeId) (c : Container) : Graph :=
  { g with nodes := g.nodes.setIfInBounds id.index c }

/-- Change the record at a place. -/
def updateRecord (g : Graph) (id : NodeId) (f : Record → Record) : Except GraphError Graph :=
  match g.node? id with
  | some (.record r) => .ok (g.put id (.record (f r)))
  | some _ => .error (.kindMismatch id .record)
  | none => .error (.nodeNotFound id)

def setProperty (g : Graph) (id : NodeId) (key : Key) (p : Property) : Except GraphError Graph :=
  g.updateRecord id (·.insert key p)

/-- Set a visible stored field. -/
def set (g : Graph) (id : NodeId) (key : Key) (value : Value) : Except GraphError Graph :=
  g.setProperty id key ⟨.stored value, true⟩

def setHidden (g : Graph) (id : NodeId) (key : Key) (value : Value) : Except GraphError Graph :=
  g.setProperty id key ⟨.stored value, false⟩

/-- Set a visible computed field. -/
def setAccessor (g : Graph) (id : NodeId) (key : Key) (a : Accessor) : Except GraphError Graph :=
  g.setProperty id key ⟨.computed a, true⟩

/-- Append an item to a sequence. -/
def push (g : Graph) (id : NodeId) (item : Value) : Except GraphError Graph :=
  match g.node? id with
  | some (.sequence items) => .ok (g.put id (.sequence (items ++ [item])))
  | some _ => .error (.kindMismatch id .sequence)
  | none => .error (.nodeNotFound id)

/-- Put a value under a key of a map. -/
def insertEntry (g : Graph) (id : NodeId) (key value : Value) : Except GraphError Graph :=
  match g.node? id with
  | some (.map entries) => .ok (g.put id (.map (Container.insertEntry key value entries)))
  | some _ => .error (.kindMismatch id .map)
  | none => .error (.nodeNotFound id)

/-! ## Classes and shared symbols -/

def register (g : Graph) (name : String) : Graph :=
  { g with classes := g.classes.register name }

def registerSubclass (g : Graph) (name parent : String) : Except GraphError Graph :=
  if g.classes.contains parent then .ok { g with classes := g.classes.setParent name parent }
  else .error (.unknownClass parent)

/-- The symbol interned under a description, made on first use. -/
def sharedSymbol (g : Graph) (s : Supply) (description : String) : Symbol × Graph × Supply :=
  match g.shared.lookup description with
  | some symbol => (symbol, g, s)
  | none =>
    let (symbol, s) := s.newSymbol (some description)
    (symbol, { g with shared := g.shared ++ [(description, symbol)] }, s)

/-! ## Type membership -/

/-- Does the value answer to the tag? Any reference is an object, whether or not
its container exists. -/
def isInstance (g : Graph) (value : Value) (tag : TypeTag) : Bool :=
  match tag, value with
  | .object, .node _ => true
  | .object, .callable _ => true
  | .function, .callable _ => true
  | .sequence, .node id => (g.sequence? id).isSome
  | .map, .node id => (g.map? id).isSome
  | .ofClass name, .node id =>
    match (g.record? id).bind (·.className) with
    | some className => g.classes.isSubclass className name
    | none => false
  | _, _ => false

/-! ## Containers not yet seen -/

/-- The number of containers whose places are not listed. -/
def unseen (g : Graph) (seen : List NodeId) : Nat :=
  ((List.range g.size).filter fun i => !seen.contains ⟨i⟩).length

/-- Listing one more existing container leaves fewer unseen: the measure by
which walks over a graph end. -/
theorem unseen_cons_lt {g : Graph} {seen : List NodeId} {id : NodeId}
    (hnew : seen.contains id = false) (hid : id.index < g.size) :
    g.unseen (id :: seen) < g.unseen seen := by
  have hsub : ((List.range g.size).filter fun i => !(id :: seen).contains (⟨i⟩ : NodeId)) =
      ((List.range g.size).filter fun i => !seen.contains (⟨i⟩ : NodeId)).filter
        fun i => i != id.index := by
    rw [List.filter_filter]
    apply List.filter_congr
    intro i _
    rcases id with ⟨k⟩
    by_cases hk : i = k <;> simp [hk]
  have hmem : id.index ∈ (List.range g.size).filter fun i => !seen.contains (⟨i⟩ : NodeId) := by
    simp only [List.mem_filter, List.mem_range, Bool.not_eq_eq_eq_not, Bool.not_true]
    exact ⟨hid, by simpa using hnew⟩
  unfold unseen
  rw [hsub]
  exact List.length_filter_lt_length_iff_exists.2 ⟨id.index, hmem, by simp⟩

end Graph

end ObjectGraph
