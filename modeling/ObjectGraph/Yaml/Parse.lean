-- SUMMARY: From YAML text to its value: aliases, tags, distinct keys, and the limits on nesting.
import ObjectGraph.Document
import ObjectGraph.Yaml.Node

/-! # Reading YAML

An anchored node is copied wherever an alias of it stands. Copies are limited in
number by the size of the text, and collections in depth, so that every text has
a value or is refused.
-/

namespace ObjectGraph

namespace Yaml

/-! ## Anchors

An anchor gets as its number the count of names in use before it. A name that is
used again does not raise the count, so two anchors may share a number; the last
anchor with a number is what it stands for.
-/

/-- The numbers of the anchor names in use. -/
abbrev AnchorNumbers := List (String × Nat)

/-- Give a number to the anchor of a node, if it has one. -/
def numberMarks (marks : Marks String) (ns : AnchorNumbers) : Marks Nat × AnchorNumbers :=
  match marks.anchor with
  | none => (⟨none, marks.tag⟩, ns)
  | some name =>
    (⟨some ns.length, marks.tag⟩, (name, ns.length) :: ns.filter fun (other, _) => other != name)

mutual

/-- Number the anchors in order. An alias refers to an anchor before it. -/
def Node.number : Node String → AnchorNumbers → Option (Node Nat × AnchorNumbers)
  | .alias name, ns => (ns.lookup name).map (.alias ·, ns)
  | .scalar marks isPlain text, ns =>
    let (marks, ns) := numberMarks marks ns
    some (.scalar marks isPlain text, ns)
  | .sequence marks items, ns => do
    let (marks, ns) := numberMarks marks ns
    let (items, ns) ← Node.numberItems items ns
    return (.sequence marks items, ns)
  | .mapping marks entries, ns => do
    let (marks, ns) := numberMarks marks ns
    let (entries, ns) ← Node.numberEntries entries ns
    return (.mapping marks entries, ns)

def Node.numberItems : List (Node String) → AnchorNumbers → Option (List (Node Nat) × AnchorNumbers)
  | [], ns => some ([], ns)
  | item :: rest, ns => do
    let (item, ns) ← item.number ns
    let (items, ns) ← Node.numberItems rest ns
    return (item :: items, ns)

def Node.numberEntries : List (Node String × Node String) → AnchorNumbers →
    Option (List (Node Nat × Node Nat) × AnchorNumbers)
  | [], ns => some ([], ns)
  | (key, value) :: rest, ns => do
    let (key, ns) ← key.number ns
    let (value, ns) ← value.number ns
    let (entries, ns) ← Node.numberEntries rest ns
    return ((key, value) :: entries, ns)

end

/-- A node with the number of its anchor, if it has one. -/
def anchoredAs (marks : Marks Nat) (node : Node Nat) : List (Nat × Node Nat) :=
  marks.anchor.toList.map (·, node)

mutual

/-- The anchored nodes in order. -/
def Node.anchored : Node Nat → List (Nat × Node Nat)
  | .alias _ => []
  | .scalar marks isPlain text => anchoredAs marks (.scalar marks isPlain text)
  | .sequence marks items => anchoredAs marks (.sequence marks items) ++ Node.anchoredItems items
  | .mapping marks entries => anchoredAs marks (.mapping marks entries) ++ Node.anchoredEntries entries

def Node.anchoredItems : List (Node Nat) → List (Nat × Node Nat)
  | [] => []
  | item :: rest => item.anchored ++ Node.anchoredItems rest

def Node.anchoredEntries : List (Node Nat × Node Nat) → List (Nat × Node Nat)
  | [] => []
  | (key, value) :: rest => key.anchored ++ value.anchored ++ Node.anchoredEntries rest

end

mutual

/-- The number of events in a node: a collection starts and ends. -/
def Node.events : Node Nat → Nat
  | .alias _ => 1
  | .scalar _ _ _ => 1
  | .sequence _ items => 2 + Node.eventsOfItems items
  | .mapping _ entries => 2 + Node.eventsOfEntries entries

def Node.eventsOfItems : List (Node Nat) → Nat
  | [] => 0
  | item :: rest => item.events + Node.eventsOfItems rest

def Node.eventsOfEntries : List (Node Nat × Node Nat) → Nat
  | [] => 0
  | (key, value) :: rest => key.events + value.events + Node.eventsOfEntries rest

end

/-! ## Scalars and tags -/

/-- A tag that starts with an exclamation mark shows in the value. -/
def underTag (tag : Option String) (v : Yaml) : Yaml :=
  match tag with
  | none => v
  | some t => if t.startsWith "!" then .tagged (tagName (tagName t)) v else v

/-- The value of a scalar that no core tag forces. -/
def freeScalar (isPlain : Bool) (text : String) : Option Yaml :=
  if isPlain then
    match readPlain text.toList with
    | .value v => some v
    | .tooWide => none
  else some (.string text)

/-- The value of a scalar under a tag of the core schema, quoted or not. Any other
tag of that form makes a string. -/
def forcedScalar (tag text : String) : Option Yaml :=
  let chars := text.toList
  if tag = "tag:yaml.org,2002:bool" then (readBoolean? chars).map .boolean
  else if tag = "tag:yaml.org,2002:int" then
    match readInteger? chars with
    | some (.value v) => some v
    | _ => none
  else if tag = "tag:yaml.org,2002:float" then (readFloat? chars).map .float
  else if tag = "tag:yaml.org,2002:null" then if readNull chars then some .null else none
  else some (.string text)

def scalarValue (tag : Option String) (isPlain : Bool) (text : String) : Option Yaml :=
  match tag with
  | none => freeScalar isPlain text
  | some t =>
    if t.startsWith "!" then (freeScalar isPlain text).map (underTag tag)
    else forcedScalar t text

/-! ## Values -/

/-- Collections may be nested this deep. -/
def maxDepth : Nat := 128

/-- So many copies are allowed for every event. -/
def copiesPerEvent : Nat := 100

/-- The anchored nodes and the number of copies allowed of them. -/
structure Anchors where
  nodes : List (Nat × Node Nat)
  maxCopies : Nat

/-- The last anchored node with each number counts. -/
def Anchors.of (node : Node Nat) : Anchors := ⟨node.anchored.reverse, copiesPerEvent * node.events⟩

/-- Evaluation counts the copies made so far. -/
abbrev Copying := StateT Nat Option

/-- The node itself, or the one that an alias refers to. -/
def Anchors.follow (anchors : Anchors) : Node Nat → Copying (Node Nat)
  | .alias n => do
    let copies ← get
    if anchors.maxCopies ≤ copies then failure
    set (copies + 1)
    anchors.nodes.lookup n
  | node => pure node

/-- Keys of a mapping are distinct. -/
def addEntry (entries : List (Yaml × Yaml)) (key value : Yaml) : Option (List (Yaml × Yaml)) :=
  if entries.any fun (k, _) => same k key then none else some (entries ++ [(key, value)])

/-- The value of a node with at most `depth` collections in each other. -/
def Node.value (anchors : Anchors) : (depth : Nat) → Node Nat → Copying Yaml
  | 0, node => do
    match ← anchors.follow node with
    | .scalar marks isPlain text => scalarValue marks.tag isPlain text
    | _ => failure
  | depth + 1, node => do
    match ← anchors.follow node with
    | .alias _ => failure
    | .scalar marks isPlain text => scalarValue marks.tag isPlain text
    | .sequence marks items =>
      return underTag marks.tag (.sequence (← items.mapM (Node.value anchors depth)))
    | .mapping marks entries =>
      let entries ← entries.foldlM (fun done (key, value) => do
        let key ← Node.value anchors depth key
        let value ← Node.value anchors depth value
        addEntry done key value) []
      return underTag marks.tag (.mapping entries)

/-- The value that a text denotes, if it is a YAML text of one document or none. -/
def parse? (text : String) : Option Yaml := do
  let node ← Node.ofTokens? (← tokens? text.toList)
  let (node, _) ← node.number []
  (node.value (Anchors.of node) maxDepth).run' 0

end Yaml

/-- The document of a text. -/
def Document.parse? (text : String) (supply : Supply) : Option (Document × Supply) :=
  (Yaml.parse? text).map (Document.ofYaml · supply)

end ObjectGraph
