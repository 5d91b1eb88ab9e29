-- SUMMARY: Previews, aligned listings of hits, and values and hits as JSON.
import ObjectGraph.Report.Json
import ObjectGraph.Search.Basic

/-! # Reports

A preview shows a value on one line. A listing has one line per hit. As JSON a
value is written out in full; a container inside itself becomes a mark, and
computed properties are not evaluated.
-/

namespace ObjectGraph

/-! ## Previews -/

namespace Graph

/-- One line that shows a value. -/
def preview (g : Graph) (v : Value) : String :=
  match v with
  | .string s => "\"" ++ s ++ "\""
  | .node id =>
    match g.node? id with
    | some (.record r) =>
      let fields := "\x7b " ++ toString r.size ++ " fields \x7d"
      match r.className with
      | some name => name ++ " " ++ fields
      | none => fields
    | some (.sequence items) => "[ " ++ toString items.length ++ " items ]"
    | some (.map entries) => "Map(" ++ toString entries.length ++ ")"
    | none => v.display
  | v => v.display

end Graph

/-! ## Listings -/

namespace Report

def rootLabel : String := "<root>"

def label (path : Path) : String := if path.isEmpty then rootLabel else path.write

/-- Fill up with blanks at the right, counting characters. -/
def padRight (width : Nat) (s : String) : String :=
  s ++ String.ofList (List.replicate (width - s.length) ' ')

def typeColumn : Nat := 9

/-- One line of a listing, whose labels are `width` wide. -/
def line (g : Graph) (showTypes : Bool) (width : Nat) (h : Hit) : String :=
  let types := if showTypes then padRight typeColumn h.typeName ++ "  " else ""
  padRight width (label h.path) ++ "  " ++ types ++ g.preview h.value ++ "\n"

/-- One line per hit: label, type, preview, the columns aligned. -/
def listing (g : Graph) (hits : List Hit) (showTypes : Bool) : String :=
  let width := (hits.map fun h => (label h.path).length).foldl max 0
  String.join (hits.map (line g showTypes width))

end Report

/-! ## JSON -/

namespace Report

def circular : Json := .string "[Circular]"

def getter : Json := .string "[Getter]"

/-- A container as JSON, its values by `value`. Records show their visible fields. -/
def containerJson (value : Value → Json) : Container → Json
  | .record r =>
    .object (Json.sortMembers ((r.fields.filter (·.2.visible)).map fun (key, p) =>
      (key.display, match p.content with
        | .stored v => value v
        | .computed _ => getter)))
  | .sequence items => .array (items.map value)
  | .map entries => .array (entries.map fun (key, v) => .array [value key, value v])

/-- A scalar as JSON. -/
def scalarJson : Value → Json
  | .undefined | .null => .null
  | .boolean b => .boolean b
  | .number (.integer n) => .integer n.toInt
  | .number (.float x) => if x.isFinite then .float x else .null
  | .string s => .string s
  | v => .string v.display

/-- A value as JSON inside the containers `enclosing`. -/
def valueJson (g : Graph) (enclosing : List NodeId) (v : Value) : Json :=
  match v with
  | .node id =>
    if _ : enclosing.contains id = true then circular
    else match _ : g.node? id with
      | some c => containerJson (valueJson g (id :: enclosing)) c
      | none => .null
  | v => scalarJson v
termination_by g.unseen enclosing
decreasing_by
  exact Graph.unseen_cons_lt (by simp_all) (Graph.index_lt_of_node? (by assumption))

def hitJson (g : Graph) (h : Hit) : Json :=
  .object [("path", .string h.path.write), ("type", .string h.typeName),
    ("kind", .string h.kind.name), ("value", valueJson g [] h.value)]

/-- All hits as a JSON list. -/
def hitsText (g : Graph) (hits : List Hit) : String := (Json.array (hits.map (hitJson g))).pretty

/-- One value as JSON. -/
def valueText (g : Graph) (v : Value) : String := (valueJson g [] v).pretty

end Report

end ObjectGraph
