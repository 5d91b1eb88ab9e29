-- SUMMARY: Following a path through a graph.
import ObjectGraph.Graph.Basic
import ObjectGraph.Path.Scan

/-! # Resolving paths

A step leads from a container to one of its slots (`Graph.locate`); reading the
slot gives the next value. A path resolves when every step does.
-/

namespace ObjectGraph

/-! ## Finding a slot -/

namespace Container

/-- The first entry whose key is a symbol with this description. -/
def findSymbolEntry (entries : List (Value × Value)) (description : String) : Option Value :=
  (entries.find? fun (key, _) => key.symbol?.any (·.label == description)).map (·.2)

/-- The first entry with this string key, or else the first whose key is a scalar
that is displayed so: `get("42")` finds the number 42. -/
def findEntry (entries : List (Value × Value)) (text : String) : Option Value :=
  ((entries.find? fun (key, _) => key.string? == some text).or
    (entries.find? fun (key, _) => key.isScalar && key.display == text)).map (·.2)

/-- The slot that a step leads to. -/
def locate (c : Container) (step : Step) : Option Content :=
  match step, c with
  | .field name, .record r => (r.get? (.name name)).map (·.content)
  | .index n, .sequence items => items[n]?.map .stored
  | .symbol text, .record r =>
    (r.fields.find? fun (key, _) => key.symbol?.any (·.label == text)).map (·.2.content)
  | .symbol text, .map entries => (findSymbolEntry entries text).map .stored
  | .entry text true, .map entries => (findSymbolEntry entries text).map .stored
  | .entry text false, .map entries => (findEntry entries text).map .stored
  | _, _ => none

end Container

/-! ## Following steps -/

namespace Graph

/-- The slot that a step leads to from a value. -/
def locate (g : Graph) (current : Value) (step : Step) : Option Content :=
  current.node?.bind g.node? |>.bind (·.locate step)

/-- Follow a path from a value. A step that leads nowhere, or to a property that
cannot be read, leaves the path unresolved. -/
def resolve (g : Graph) (current : Value) (path : Path) (log : ReadLog) : Option Value × ReadLog :=
  match path with
  | [] => (some current, log)
  | step :: rest =>
    match g.locate current step with
    | none => (none, log)
    | some content =>
      match content.read log with
      | (.error _, log) => (none, log)
      | (.ok next, log) => g.resolve next rest log

/-- Follow a written path, repaired where needed. -/
def resolveText (g : Graph) (target : Value) (text : String) (log : ReadLog) :
    Option Value × ReadLog :=
  g.resolve target (Path.read text) log

end Graph

end ObjectGraph
