-- SUMMARY: TOML documents: lines of assignments under headers, and the table that they make.
import ObjectGraph.Toml.Value

/-! # Documents

Assignments belong to the header before them. A table has one header at most, and
no key is assigned twice.
-/

namespace ObjectGraph

namespace Toml

/-! ## Statements -/

inductive Statement where
  | assignment (path : List String) (v : Toml)
  | header (path : List String)
  /-- A header in double brackets adds a table to a list of tables. -/
  | listHeader (path : List String)

/-- Pass the rest of a comment and its line end. -/
def skipComment : List Char → Option (List Char)
  | [] => some []
  | '\n' :: rest => some rest
  | '\r' :: '\n' :: rest => some rest
  | c :: rest => if isText c then skipComment rest else none

/-- Pass the end of a line, with nothing but white space and a comment before it. -/
def readLineEnd (cs : List Char) : Option (List Char) :=
  match cs.dropWhile isSpace with
  | [] => some []
  | '\n' :: rest => some rest
  | '\r' :: '\n' :: rest => some rest
  | '#' :: rest => skipComment rest
  | _ => none

/-- A header after its brackets. -/
def readHeader : Reader Statement
  | '[' :: rest => do
    let (path, rest) ← readPath rest
    return (.listHeader path, ← readLineEnd (← readMark ']' (← readMark ']' rest)))
  | rest => do
    let (path, rest) ← readPath rest
    return (.header path, ← readLineEnd (← readMark ']' rest))

/-- The statements of a document. -/
def readStatements : (fuel : Nat) → List Char → Option (List Statement)
  | 0, _ => none
  | fuel + 1, cs =>
    match cs.dropWhile isSpace with
    | [] => some []
    | '\n' :: rest => readStatements fuel rest
    | '\r' :: '\n' :: rest => readStatements fuel rest
    | '#' :: rest => do readStatements fuel (← skipComment rest)
    | '[' :: rest => do
      let (s, rest) ← readHeader rest
      return s :: (← readStatements fuel rest)
    | cs => do
      let ((path, v), rest) ← readAssignment (readValue maxDepth) cs
      return .assignment path v :: (← readStatements fuel (← readLineEnd rest))

/-! ## Tables under headers -/

/-- Assignments under one header; the first ones have none. -/
structure Section where
  /-- The path of the header, and whether it is that of a list. -/
  header : Option (List String × Bool)
  assignments : List (List String × Toml)

def sections : List Statement → List Section
  | [] => [⟨none, []⟩]
  | .assignment path v :: rest =>
    match sections rest with
    | ⟨none, as⟩ :: others => ⟨none, (path, v) :: as⟩ :: others
    | others => ⟨none, [(path, v)]⟩ :: others
  | .header path :: rest => under (path, false) (sections rest)
  | .listHeader path :: rest => under (path, true) (sections rest)
where
  /-- Give a header to the assignments that have none yet. -/
  under (header : List String × Bool) : List Section → List Section
    | ⟨none, as⟩ :: others => ⟨none, []⟩ :: ⟨some header, as⟩ :: others
    | others => others

def assignAll (t : Toml) (as : List (List String × Toml)) : Option Toml :=
  as.foldlM (fun t (path, v) => assign t path v) t

/-- Add the table of a section to the document. -/
def addSection (root : Toml) (s : Section) : Option Toml :=
  match s.header with
  | none => assignAll root s.assignments
  | some (path, isList) => do
    let key ← path.getLast?
    changeAt false (fun kind entries => do
      let added ← match entries.lookup key, isList with
        | none, false => assignAll (.table .headed []) s.assignments
        | some (.table .implied es), false => assignAll (.table .headed es) s.assignments
        | none, true => do
          return .tables [← assignAll (.table .headed []) s.assignments]
        | some (.tables ts), true => do
          return .tables (ts ++ [← assignAll (.table .headed []) s.assignments])
        | _, _ => none
      return .table kind (put key added entries)) path.dropLast root

/-! ## Documents -/

/-- Pass a byte order mark. -/
def dropMark : List Char → List Char
  | '\ufeff' :: rest => rest
  | rest => rest

/-- The table of a document, if it is well formed. -/
def parse? (text : String) : Option Toml := do
  let cs := dropMark text.toList
  (sections (← readStatements (cs.length + 1) cs)).foldlM addSection (.table .headed [])

end Toml

end ObjectGraph
