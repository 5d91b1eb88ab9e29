-- SUMMARY: The commands of the program and how arguments denote them.
import ObjectGraph.CommandLine.Options

/-! # Commands

Options that concern no command come first, then the name of a command with its
options and operands in any order. A search looks for exactly one thing.
-/

namespace ObjectGraph

namespace CommandLine

/-- What a search looks for, as it is written. -/
inductive Sought where
  | value (text : String)
  | pattern (text : String)
  | typeName (name : String)
  | className (name : String)
deriving DecidableEq, Repr

structure SearchRequest where
  file : String
  mode : Option String
  sought : Sought
  maxDepth : Option Nat
  maxResults : Option Nat
  /-- The path at which the search starts. -/
  start : Option String
  json : Bool
deriving DecidableEq, Repr

inductive Command where
  | search (r : SearchRequest)
  | get (file path : String) (json : Bool)
deriving DecidableEq, Repr

/-- The document that a command reads. -/
def Command.file : Command → String
  | .search r => r.file
  | .get file _ _ => file

/-! ## Values of options -/

/-- The greatest count that can be given. -/
def maxCount : Nat := UInt64.size - 1

/-- A count in decimal digits, perhaps after a plus sign. -/
def count? (text : String) : Option Nat :=
  let digits := match text.toList with
    | '+' :: rest => rest
    | cs => cs
  if digits.isEmpty || !digits.all Char.isDigit then none
  else
    let n := digits.foldl (fun n c => 10 * n + (c.toNat - '0'.toNat)) 0
    if n ≤ maxCount then some n else none

/-! ## Options of the commands -/

def verbose : OptionSpec := ⟨"verbose", some 'v', .flag⟩

def help : OptionSpec := ⟨"help", some 'h', .halting .help⟩

def version : OptionSpec := ⟨"version", some 'V', .halting .version⟩

def json : OptionSpec := ⟨"json", none, .flag⟩

def textOption (name : String) : OptionSpec := ⟨name, none, .valued fun _ => true⟩

def countOption (name : String) : OptionSpec := ⟨name, none, .valued fun v => (count? v).isSome⟩

def generalOptions : List OptionSpec := [verbose, help, version]

def searchOptions : List OptionSpec :=
  [{ textOption "mode" with letter := some 'm' }, textOption "value", textOption "pattern",
    textOption "type", textOption "class", countOption "max-depth", countOption "max-results",
    textOption "at", json, verbose, help]

def getOptions : List OptionSpec := [json, verbose, help]

/-! ## Reading commands -/

namespace Given

/-- Everything that a search is told to look for. -/
def sought (g : Given) : List Sought :=
  [(g.value? "value").map .value, (g.value? "pattern").map .pattern,
    (g.value? "type").map .typeName, (g.value? "class").map .className].filterMap id

def search? (g : Given) : Option SearchRequest :=
  match g.operands, g.sought with
  | [file], [sought] =>
    some ⟨file, g.value? "mode", sought, (g.value? "max-depth").bind count?,
      (g.value? "max-results").bind count?, g.value? "at", g.has "json"⟩
  | _, _ => none

def get? (g : Given) : Option Command :=
  match g.operands with
  | [file, path] => some (.get file path (g.has "json"))
  | _ => none

end Given

def orMisuse {α : Type} : Option α → Except Halt α
  | some a => .ok a
  | none => .error .misuse

/-- The commands that help can be asked for. -/
def commandNames : List String := ["search", "get", "help"]

namespace Command

/-- The command that arguments denote. -/
def ofArguments (args : List String) : Except Halt Command := do
  let (_, rest) ← readLeading generalOptions .empty args
  match rest with
  | "search" :: args =>
    let g ← readArguments searchOptions 1 false none .empty args
    orMisuse (g.search?.map .search)
  | "get" :: args =>
    let g ← readArguments getOptions 2 false none .empty args
    orMisuse g.get?
  | ["help"] => .error .help
  | ["help", name] => .error (if commandNames.contains name then .help else .misuse)
  | _ => .error .misuse

end Command

end CommandLine

end ObjectGraph
