-- SUMMARY: What a command answers: its output, or why it fails.
import ObjectGraph.CommandLine.Command
import ObjectGraph.Report.Basic
import ObjectGraph.Search.Literal
import ObjectGraph.Settings
import ObjectGraph.Source

/-! # Running commands

A command is run over the settings and the bytes of its document, both read
beforehand. Of two failures, the mode counts first, then the pattern, then the
document, then the path.
-/

namespace ObjectGraph

namespace CommandLine

inductive Failure where
  | mode (name : String)
  | pattern (text : String)
  /-- Nothing is there to be read from the standard input. -/
  | input
  | document (e : LoadError)
  | path (text : String)
deriving DecidableEq, Repr

def Failure.message : Failure → String
  | .mode name => Mode.invalidMessage name
  | .pattern text => "Invalid pattern '" ++ text ++ "'"
  | .input => "No input on stdin"
  | .document e => e.message
  | .path text => "Path '" ++ text ++ "' does not resolve"

/-! ## Parts of a command -/

/-- The file name that stands for the standard input. -/
def standardInput : String := "-"

def readMode (name : String) : Except Failure Mode :=
  match Mode.ofName? name with
  | some m => .ok m
  | none => .error (.mode name)

def Sought.criterion (s : Supply) : Sought → Except Failure (Criterion × Supply)
  | .value text => .ok (Criterion.ofScalarText text s)
  | .pattern text =>
    match Criterion.ofPattern? text with
    | some c => .ok (c, s)
    | none => .error (.pattern text)
  | .typeName name => .ok (.ofTypeName name, s)
  | .className name => .ok (.instanceOf name, s)

/-- The document of a file name and the bytes read for it. -/
def readDocument (file : String) (bytes : Option (List UInt8)) (s : Supply) :
    Except Failure (Document × Supply) :=
  if file == standardInput then
    match bytes with
    | none => .error .input
    | some bytes => (Document.ofBytes bytes s).mapError .document
  else (Document.ofFile file bytes s).mapError .document

/-- The value at a written path. -/
def follow (d : Document) (path : String) (log : ReadLog) : Except Failure (Value × ReadLog) :=
  match d.graph.resolveText d.root path log with
  | (some v, log) => .ok (v, log)
  | (none, _) => .error (.path path)

/-! ## Commands -/

def SearchRequest.run (r : SearchRequest) (settings : Settings) (bytes : Option (List UInt8)) :
    Except Failure String := do
  let mode ← readMode (r.mode.getD settings.defaultMode)
  let (criterion, supply) ← r.sought.criterion .initial
  let (d, _) ← readDocument r.file bytes supply
  let (start, log) ← match r.start with
    | some path => follow d path []
    | none => .ok (d.root, [])
  let query : Query :=
    { Query.plain mode criterion with
      maxDepth := r.maxDepth.getD settings.maxDepth
      maxResults := r.maxResults.getD settings.maxResults }
  let hits := (d.graph.search start query log).hits
  if r.json || settings.wantsJson then return Report.hitsText d.graph hits ++ "\n"
  else return Report.listing d.graph hits settings.showTypes

def runGet (file path : String) (json : Bool) (settings : Settings) (bytes : Option (List UInt8)) :
    Except Failure String := do
  let (d, _) ← readDocument file bytes .initial
  let (v, _) ← follow d path []
  let text := if json || settings.wantsJson then Report.valueText d.graph v
    else d.graph.preview v
  return text ++ "\n"

/-- The output of a command, given the bytes of the document that it reads. -/
def Command.run (c : Command) (settings : Settings) (bytes : Option (List UInt8)) :
    Except Failure String :=
  match c with
  | .search r => r.run settings bytes
  | .get file path json => runGet file path json settings bytes

/-! ## Answers -/

/-- What the program leaves behind: its exit code and texts. -/
structure Answer where
  code : Nat
  output : String
  error : String
deriving DecidableEq, Repr

def usage : String :=
  "Search YAML/JSON object graphs by value, key or type\n\n"
    ++ "Usage: graphsift [-v] search FILE --value|--pattern|--type|--class TEXT [OPTIONS]\n"
    ++ "       graphsift [-v] get FILE PATH [--json]\n"

def versionText : String := "graphsift 0.1.0\n"

namespace Answer

def ofHalt : Halt → Answer
  | .misuse => ⟨2, "", usage⟩
  | .help => ⟨0, usage, ""⟩
  | .version => ⟨0, versionText, ""⟩

def ofResult : Except Failure String → Answer
  | .ok output => ⟨0, output, ""⟩
  | .error e => ⟨1, "", "Error: " ++ e.message ++ "\n"⟩

end Answer

/-- The answer to arguments, given how to read the settings and the bytes of a
document, of which there may be none. -/
def answer {m : Type → Type} [Monad m] (settings : m Settings)
    (document : String → m (Option (List UInt8))) (args : List String) : m Answer := do
  match Command.ofArguments args with
  | .error h => return .ofHalt h
  | .ok c => return .ofResult (c.run (← settings) (← document c.file))

end CommandLine

end ObjectGraph
