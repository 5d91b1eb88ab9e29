-- SUMMARY: Splitting the arguments of a command into options and operands.

/-! # Options

An option is long, after two hyphens, or one of several letters after a single
hyphen. Its value follows an equals sign, or is the rest of the letters, or the
next argument; that argument must not look like an option itself. Two hyphens
alone end the options. No option is repeated.
-/

namespace ObjectGraph

namespace CommandLine

/-- Why arguments are not read to their end. -/
inductive Halt where
  | misuse
  | help
  | version
deriving DecidableEq, Repr

inductive OptionKind where
  | flag
  /-- An option with a value, and the texts that it takes. -/
  | valued (accepts : String → Bool)
  /-- An option that ends the reading at once. -/
  | halting (halt : Halt)

structure OptionSpec where
  name : String
  letter : Option Char
  kind : OptionKind

def OptionSpec.takesValue (spec : OptionSpec) : Bool :=
  match spec.kind with
  | .valued _ => true
  | _ => false

/-! ## What is given -/

/-- What arguments say: options with their values, and operands. -/
structure Given where
  options : List (String × String)
  operands : List String
deriving DecidableEq, Repr

namespace Given

def empty : Given := ⟨[], []⟩

def has (g : Given) (name : String) : Bool := g.options.any (·.1 == name)

/-- The value of an option. -/
def value? (g : Given) (name : String) : Option String := g.options.lookup name

def setNew (g : Given) (name value : String) : Except Halt Given :=
  if g.has name then .error .misuse else .ok { g with options := g.options ++ [(name, value)] }

/-- Take in an option with the value that it carries. -/
def add (g : Given) (spec : OptionSpec) (value : Option String) : Except Halt Given :=
  match spec.kind, value with
  | .halting h, none => .error h
  | .flag, none => g.setNew spec.name ""
  | .valued accepts, some v => if accepts v then g.setNew spec.name v else .error .misuse
  | _, _ => .error .misuse

end Given

/-! ## Single arguments -/

/-- An argument that starts with a hyphen and holds more than that. -/
def isOptionLike (arg : String) : Bool := arg.toList.head? = some '-' && 1 < arg.length

/-- What was given, and the option that waits for its value. -/
abbrev Progress := Given × Option OptionSpec

/-- A long option after its hyphens. -/
def readLong (specs : List OptionSpec) (g : Given) (arg : List Char) : Except Halt Progress := do
  let name := String.ofList (arg.takeWhile (· != '='))
  let value := match arg.dropWhile (· != '=') with
    | [] => none
    | _ :: v => some (String.ofList v)
  match specs.find? (·.name == name) with
  | none => .error .misuse
  | some spec =>
    if spec.takesValue && value.isNone then return (g, some spec)
    else return (← g.add spec value, none)

/-- Options by their letters, after a hyphen. -/
def readLetters (specs : List OptionSpec) (g : Given) : List Char → Except Halt Progress
  | [] => .ok (g, none)
  | c :: rest =>
    match specs.find? (·.letter == some c) with
    | none => .error .misuse
    | some spec =>
      if spec.takesValue then
        match rest with
        | [] => .ok (g, some spec)
        | '=' :: v => do return (← g.add spec (some (String.ofList v)), none)
        | v => do return (← g.add spec (some (String.ofList v)), none)
      else
        match g.add spec none with
        | .error h => .error h
        | .ok g => readLetters specs g rest

/-- An argument that looks like an option. -/
def readOption (specs : List OptionSpec) (g : Given) (arg : String) : Except Halt Progress :=
  match arg.toList with
  | '-' :: '-' :: rest => readLong specs g rest
  | '-' :: rest => readLetters specs g rest
  | _ => .error .misuse

/-! ## Lists of arguments -/

/-- Read the options before the first operand, none of which takes a value. What
is left starts with that operand. -/
def readLeading (specs : List OptionSpec) (g : Given) :
    List String → Except Halt (Given × List String)
  | [] => .ok (g, [])
  | arg :: rest =>
    if isOptionLike arg then
      match readOption specs g arg with
      | .error h => .error h
      | .ok (_, some _) => .error .misuse
      | .ok (g, none) => readLeading specs g rest
    else .ok (g, arg :: rest)

/-- Read all arguments onto what was given before them. `pending` is the option
that waits for its value; once `ended`, all arguments are operands. -/
def readArguments (specs : List OptionSpec) (maxOperands : Nat) :
    (ended : Bool) → (pending : Option OptionSpec) → Given → List String → Except Halt Given
  | _, some _, _, [] => .error .misuse
  | _, none, g, [] => .ok g
  | ended, some spec, g, arg :: rest => do
    if isOptionLike arg then .error .misuse
    else readArguments specs maxOperands ended none (← g.add spec (some arg)) rest
  | ended, none, g, arg :: rest =>
    if !ended && arg == "--" then readArguments specs maxOperands true none g rest
    else if !ended && isOptionLike arg then do
      let (g, pending) ← readOption specs g arg
      readArguments specs maxOperands false pending g rest
    else if g.operands.length < maxOperands then
      readArguments specs maxOperands ended none { g with operands := g.operands ++ [arg] } rest
    else .error .misuse

end CommandLine

end ObjectGraph
