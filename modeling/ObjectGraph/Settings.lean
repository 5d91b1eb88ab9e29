-- SUMMARY: Settings of searches and reports, and the file that keeps them.
import ObjectGraph.Search.Basic
import ObjectGraph.Toml.Document

/-! # Settings

A settings file holds one line for each field. A file that is not well formed, or
has a field of another type, counts for nothing at all; a field that is missing
has its default value, and other fields are ignored.
-/

namespace ObjectGraph

structure Settings where
  /-- The mode of a search that names none. -/
  defaultMode : String
  /-- Zero is for no limit. -/
  maxDepth : Nat
  maxResults : Nat
  output : String
  showTypes : Bool
deriving DecidableEq, Repr

namespace Settings

def default : Settings := ⟨Mode.all.name, 0, Query.defaultMaxResults, "text", true⟩

def wantsJson (s : Settings) : Bool := s.output.toList.map Char.toLower == "json".toList

/-! ## Reading -/

/-- A field of a table, its default value where it is missing, none for another type. -/
def field? {α : Type} (entries : List (String × Toml)) (name : String) (default : α)
    (read : Toml → Option α) : Option α :=
  match entries.lookup name with
  | none => some default
  | some v => read v

def text? : Toml → Option String
  | .string s => some s
  | _ => none

/-- Numbers are not negative. -/
def count? : Toml → Option Nat
  | .integer (.ofNat n) => some n
  | _ => none

def flag? : Toml → Option Bool
  | .boolean b => some b
  | _ => none

def ofToml? : Toml → Option Settings
  | .table _ entries => do
    let defaultMode ← field? entries "default_mode" default.defaultMode text?
    let maxDepth ← field? entries "max_depth" default.maxDepth count?
    let maxResults ← field? entries "max_results" default.maxResults count?
    let output ← field? entries "output" default.output text?
    let showTypes ← field? entries "show_types" default.showTypes flag?
    return ⟨defaultMode, maxDepth, maxResults, output, showTypes⟩
  | _ => none

/-- The settings of a file: its text, if it exists. -/
def load (file : Option String) : Settings :=
  ((file.bind Toml.parse?).bind ofToml?).getD default

/-! ## Writing -/

/-- Numbers up to this one can be written. -/
def maxNumber : Nat := Int64.maxValue.toInt.toNat

def line (name : String) (value : List Char) : List Char :=
  name.toList ++ " = ".toList ++ value ++ ['\n']

/-- The text of a settings file. Numbers beyond 63 bits have none. -/
def write? (s : Settings) : Option String :=
  if maxNumber < s.maxDepth ∨ maxNumber < s.maxResults then none
  else some <| String.ofList <|
    line "default_mode" (Toml.writeString s.defaultMode.toList)
      ++ line "max_depth" (Nat.toDigits 10 s.maxDepth)
      ++ line "max_results" (Nat.toDigits 10 s.maxResults)
      ++ line "output" (Toml.writeString s.output.toList)
      ++ line "show_types" (if s.showTypes then "true" else "false").toList

/-- What the file holds after saving: where that fails, it stays as it is. -/
def save (s : Settings) (file : Option String) : Option String := s.write?.orElse fun _ => file

/-! ## Use -/

/-- The limits of a search. -/
def limits (s : Settings) : Nat × Nat := (s.maxDepth, s.maxResults)

end Settings

end ObjectGraph
