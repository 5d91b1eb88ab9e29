-- SUMMARY: Documents: graphs built from YAML values.
import ObjectGraph.Graph.Basic
import ObjectGraph.Text.Blank
import ObjectGraph.Yaml.Block

/-! # Documents

A mapping whose keys are strings or symbols becomes a record, any other mapping
a map. Three kinds of tags have a meaning: `symbol` makes the symbol of a
description, `fn` a callable, and any other name makes an instance of that class,
which holds a scalar in a hidden field. Children are added before the container
that holds them.
-/

namespace ObjectGraph

structure Document where
  graph : Graph
  root : Value

/-- A graph under construction and the supply of identities. -/
structure Draft where
  graph : Graph
  supply : Supply

namespace Draft

def add (d : Draft) (c : Container) : Value × Draft :=
  let (id, graph) := d.graph.add c
  (.node id, { d with graph })

def sharedSymbol (d : Draft) (description : String) : Symbol × Draft :=
  let (symbol, graph, supply) := d.graph.sharedSymbol d.supply description
  (symbol, ⟨graph, supply⟩)

def newCallable (d : Draft) (name : String) : Callable × Draft :=
  let (callable, supply) := d.supply.newCallable name
  (callable, { d with supply })

def register (d : Draft) (className : String) : Draft :=
  { d with graph := d.graph.register className }

end Draft

namespace Yaml

def symbolTag : String := "symbol"

def callableTag : String := "fn"

/-- The field that holds the scalar of an instance. -/
def heldField : Key := .name "value"

/-- Integers beyond 64 signed bits become floating-point numbers. -/
def numberOf (n : Int) : Number :=
  if Int64.minValue.toInt ≤ n ∧ n ≤ Int64.maxValue.toInt then .integer (Int64.ofInt n) else .float (.ofInt n)

/-- The text of a description or a name: of a scalar itself, of anything else the
block-style text. -/
def labelText : Yaml → String
  | .string s => s
  | .integer n => toString n
  | .float x => floatText x
  | .boolean b => if b then "true" else "false"
  | .null => ""
  | v => String.ofList (Text.trim ((blockText? v).getD "").toList)

/-- The record key that a mapping key stands for, if it is a string or a symbol. -/
def recordKey (key : Yaml) (d : Draft) : Option Key × Draft :=
  match key with
  | .string s => (some (.name s), d)
  | .tagged name v =>
    if name = symbolTag then
      let (symbol, d) := d.sharedSymbol (labelText v)
      (some (.symbol symbol), d)
    else (none, d)
  | _ => (none, d)

/-- The record keys of a mapping, up to the first key that is none. -/
def recordKeys : List (Yaml × Yaml) → Draft → Option (List Key) × Draft
  | [], d => (some [], d)
  | (key, _) :: rest, d =>
    match recordKey key d with
    | (none, d) => (none, d)
    | (some k, d) =>
      match recordKeys rest d with
      | (none, d) => (none, d)
      | (some ks, d) => (some (k :: ks), d)

/-- The record of a mapping whose keys and values are at hand. -/
def recordOf (className : Option String) (keys : List Key) (values : List Value) : Record :=
  (keys.zip values).foldl (fun (r : Record) (key, v) => r.insert key ⟨.stored v, true⟩)
    ⟨className, [], .nil⟩

/-- Under a class, a value that is no mapping and no sequence is held by an instance. -/
def hold (className : Option String) (v : Value) (d : Draft) : Value × Draft :=
  match className with
  | none => (v, d)
  | some name =>
    d.add (.record ((Record.instanceOf name).insert heldField ⟨.stored v, false⟩))

def registerClass (className : Option String) (d : Draft) : Draft :=
  match className with
  | none => d
  | some name => d.register name

mutual

/-- Add a value to the graph, under the class of the tag that it stands under. A
sequence, and a mapping that becomes a map, do not show the class. -/
def loadAs (className : Option String) : Yaml → Draft → Value × Draft
  | .sequence items, d =>
    let (values, d) := loadItems items d
    d.add (.sequence values)
  | .mapping entries, d =>
    let (keys, d) := recordKeys entries (registerClass className d)
    match keys with
    | some keys =>
      let (values, d) := loadValues entries d
      d.add (.record (recordOf className keys values))
    | none =>
      let (entries, d) := loadEntries entries d
      d.add (.map entries)
  | .tagged name inner, d =>
    let d := registerClass className d
    let (v, d) :=
      if name = symbolTag then
        let (symbol, d) := d.sharedSymbol (labelText inner)
        (Value.symbol symbol, d)
      else if name = callableTag then
        let (callable, d) := d.newCallable (labelText inner)
        (Value.callable callable, d)
      else loadAs (some name) inner d
    hold className v d
  | .null, d => hold className .null (registerClass className d)
  | .boolean b, d => hold className (.boolean b) (registerClass className d)
  | .integer n, d => hold className (.number (numberOf n)) (registerClass className d)
  | .float x, d => hold className (.number (.float x)) (registerClass className d)
  | .string s, d => hold className (.string s) (registerClass className d)

/-- Add the items of a sequence in order. -/
def loadItems : List Yaml → Draft → List Value × Draft
  | [], d => ([], d)
  | item :: rest, d =>
    let (value, d) := loadAs none item d
    let (values, d) := loadItems rest d
    (value :: values, d)

/-- Add the values of a mapping in order. -/
def loadValues : List (Yaml × Yaml) → Draft → List Value × Draft
  | [], d => ([], d)
  | (_, v) :: rest, d =>
    let (value, d) := loadAs none v d
    let (values, d) := loadValues rest d
    (value :: values, d)

/-- Add the keys and values of a mapping in order. -/
def loadEntries : List (Yaml × Yaml) → Draft → List (Value × Value) × Draft
  | [], d => ([], d)
  | (k, v) :: rest, d =>
    let (key, d) := loadAs none k d
    let (value, d) := loadAs none v d
    let (entries, d) := loadEntries rest d
    ((key, value) :: entries, d)

end

/-- Add a value to the graph. -/
def load (v : Yaml) (d : Draft) : Value × Draft := loadAs none v d

end Yaml

/-- The document of a YAML value, in a graph of its own. -/
def Document.ofYaml (v : Yaml) (s : Supply) : Document × Supply :=
  let (root, d) := v.load ⟨.empty, s⟩
  (⟨d.graph, root⟩, d.supply)

end ObjectGraph
