-- SUMMARY: Criteria written as text: YAML scalars, patterns and names.
import ObjectGraph.Pattern.Parse
import ObjectGraph.Yaml.Parse

/-! # Written criteria

A value to look for is written like a scalar of a document. What is no scalar, or
no YAML at all, stands for the string that it is written as.
-/

namespace ObjectGraph

/-- The value that a text denotes as a scalar, else the text itself. -/
def Value.ofScalarText (text : String) (s : Supply) : Value × Supply :=
  match Document.parse? text s with
  | none => (.string text, s)
  | some (d, s) =>
    match d.root with
    | .node _ => (.string text, s)
    | v => (v, s)

namespace Criterion

/-- Equality with the value of a text. -/
def ofScalarText (text : String) (s : Supply) : Criterion × Supply :=
  let (v, s) := Value.ofScalarText text s
  (.exact v, s)

/-- A runtime type by its name. -/
def ofTypeName (name : String) : Criterion := .exact (.string name)

end Criterion

end ObjectGraph
