-- SUMMARY: YAML nodes: the grammar of block and flow collections over tokens.
import ObjectGraph.Yaml.Token

/-! # Nodes

A node is a scalar, a sequence or a mapping under an optional anchor and an
optional tag, or an alias of an anchored node. The readers of collections take
the reader of their items as an argument, so that only `readNode` is recursive
in the depth.
-/

namespace ObjectGraph

namespace Yaml

/-- What stands in front of a node. -/
structure Marks (α : Type) where
  anchor : Option α
  /-- The tag in full, its handle resolved. -/
  tag : Option String
deriving DecidableEq, Repr

def Marks.none {α : Type} : Marks α := ⟨.none, .none⟩

/-- A node whose anchors are named by `α`. -/
inductive Node (α : Type) where
  | alias (anchor : α)
  | scalar (marks : Marks α) (isPlain : Bool) (text : String)
  | sequence (marks : Marks α) (items : List (Node α))
  | mapping (marks : Marks α) (entries : List (Node α × Node α))

/-- A node that is not written. -/
def Node.empty {α : Type} : Node α := .scalar .none true ""

/-- A reader takes what it reads from the front of the tokens. -/
abbrev Reader (α : Type) := List Token → Option (α × List Token)

/-! ## Marks -/

/-- What tag handles stand for. -/
abbrev Handles := List (String × String)

def Handles.default : Handles := [("!", "!"), ("!!", "tag:yaml.org,2002:")]

/-- The tag in full. A tag without a handle stands for itself. -/
def Handles.resolve (handles : Handles) (handle suffix : String) : Option String :=
  if handle.isEmpty then some suffix else (handles.lookup handle).map (· ++ suffix)

/-- An anchor and a tag in either order. -/
def readMarks (handles : Handles) : Reader (Marks String)
  | .anchor a :: .tag h s :: rest => do return (⟨some a, ← handles.resolve h s⟩, rest)
  | .tag h s :: .anchor a :: rest => do return (⟨some a, ← handles.resolve h s⟩, rest)
  | .anchor a :: rest => some (⟨some a, none⟩, rest)
  | .tag h s :: rest => do return (⟨none, ← handles.resolve h s⟩, rest)
  | rest => some (.none, rest)

/-! ## Collections -/

/-- A node, or the empty node in front of one of the given tokens. -/
def readUnless (stops : List Token) (node : Reader (Node String)) : Reader (Node String) := fun tokens =>
  if tokens.head?.any stops.contains then some (.empty, tokens) else node tokens

/-- A colon with a node after it, or the empty node. -/
def readValue (stops : List Token) (node : Reader (Node String)) : Reader (Node String)
  | .value :: rest => readUnless stops node rest
  | rest => some (.empty, rest)

/-- The items of a block sequence. -/
def readBlockItems (node : Reader (Node String)) : (fuel : Nat) → Reader (List (Node String))
  | 0, _ => none
  | fuel + 1, .blockEntry :: rest => do
    let (item, rest) ← readUnless [.blockEntry, .blockEnd] node rest
    let (items, rest) ← readBlockItems node fuel rest
    return (item :: items, rest)
  | _, .blockEnd :: rest => some ([], rest)
  | _, _ => none

/-- The items of a block sequence at the column of the mapping around it. -/
def readFlatItems (node : Reader (Node String)) : (fuel : Nat) → Reader (List (Node String))
  | 0, _ => none
  | fuel + 1, .blockEntry :: rest => do
    let (item, rest) ← readUnless [.blockEntry, .key, .value, .blockEnd] node rest
    let (items, rest) ← readFlatItems node fuel rest
    return (item :: items, rest)
  | _, rest => some ([], rest)

/-- The entries of a block mapping. -/
def readBlockEntries (node : Reader (Node String)) : (fuel : Nat) → Reader (List (Node String × Node String))
  | 0, _ => none
  | fuel + 1, .key :: rest => do
    let (key, rest) ← readUnless [.key, .value, .blockEnd] node rest
    let (value, rest) ← readValue [.key, .value, .blockEnd] node rest
    let (entries, rest) ← readBlockEntries node fuel rest
    return ((key, value) :: entries, rest)
  | _, .blockEnd :: rest => some ([], rest)
  | _, _ => none

/-- The key of a single pair in a flow sequence. Where it is not written, the
token in its place is passed over. -/
def readPairKey (node : Reader (Node String)) : Reader (Node String)
  | .value :: rest | .flowEntry :: rest | .flowSequenceEnd :: rest => some (.empty, rest)
  | tokens => node tokens

/-- An item of a flow sequence: a node, or a mapping of a single pair. -/
def readFlowItem (node : Reader (Node String)) : Reader (Node String)
  | .key :: rest => do
    let (key, rest) ← readPairKey node rest
    let (value, rest) ← readValue [.flowEntry, .flowSequenceEnd] node rest
    return (.mapping .none [(key, value)], rest)
  | tokens => node tokens

/-- An entry of a flow mapping: without a question mark or colon it is a key. -/
def readFlowEntry (node : Reader (Node String)) : Reader (Node String × Node String)
  | .key :: rest => do
    let (key, rest) ← readUnless [.value, .flowEntry, .flowMappingEnd] node rest
    let (value, rest) ← readValue [.flowEntry, .flowMappingEnd] node rest
    return ((key, value), rest)
  | tokens => do
    let (key, rest) ← node tokens
    return ((key, .empty), rest)

/-- Entries between commas up to a closing bracket. -/
def readFlow {α : Type} (entry : Reader α) (close : Token) : (fuel : Nat) → Reader (List α)
  | 0, _ => none
  | fuel + 1, tokens =>
    if tokens.head? = some close then some ([], tokens.tail)
    else do
      let (first, rest) ← entry tokens
      match rest with
      | .flowEntry :: rest =>
        let (others, rest) ← readFlow entry close fuel rest
        return (first :: others, rest)
      | t :: rest => if t = close then some ([first], rest) else none
      | [] => none

/-! ## Nodes -/

/-- A node. Block collections stand outside of brackets only; `flat` allows for
a sequence at the column of the mapping around it. -/
def readNode (handles : Handles) : (fuel : Nat) → (inBlock flat : Bool) → Reader (Node String)
  | 0, _, _, _ => none
  | _, _, _, .alias name :: rest => some (.alias name, rest)
  | fuel + 1, inBlock, flat, tokens => do
    let (marks, tokens) ← readMarks handles tokens
    let inBrackets := readNode handles fuel false false
    match tokens, inBlock with
    | .scalar isPlain text :: rest, _ => return (.scalar marks isPlain text, rest)
    | .flowSequenceStart :: rest, _ =>
      let (items, rest) ← readFlow (readFlowItem inBrackets) .flowSequenceEnd fuel rest
      return (.sequence marks items, rest)
    | .flowMappingStart :: rest, _ =>
      let (entries, rest) ← readFlow (readFlowEntry inBrackets) .flowMappingEnd fuel rest
      return (.mapping marks entries, rest)
    | .blockSequenceStart :: rest, true =>
      let (items, rest) ← readBlockItems (readNode handles fuel true false) fuel rest
      return (.sequence marks items, rest)
    | .blockMappingStart :: rest, true =>
      let (entries, rest) ← readBlockEntries (readNode handles fuel true true) fuel rest
      return (.mapping marks entries, rest)
    | tokens, _ =>
      if flat ∧ tokens.head? = some .blockEntry then
        let (items, rest) ← readFlatItems (readNode handles fuel true false) fuel tokens
        return (.sequence marks items, rest)
      else if marks = .none then none
      else return (.scalar marks true "", tokens)

/-! ## Documents -/

/-- The directives in front of a document: whether one gave a version, and the
handles. None of them may be repeated. -/
def readDirectives : (versioned : Bool) → Handles → Reader Handles
  | versioned, handles, .version major minor :: rest =>
    if versioned || major != 1 || (minor != 1 && minor != 2) then none
    else readDirectives true handles rest
  | versioned, handles, .tagDirective handle start :: rest =>
    if (handles.lookup handle).isSome then none
    else readDirectives versioned ((handle, start) :: handles) rest
  | _, handles, rest => some (handles ++ Handles.default, rest)

/-- Tokens that end a document before its node. -/
def endsDocument : Token → Bool
  | .version _ _ | .tagDirective _ _ | .documentStart | .documentEnd => true
  | _ => false

/-- The node of a document that starts with three hyphens, maybe after directives. -/
def readMarkedDocument (tokens : List Token) : Option (Node String × List Token) := do
  let (handles, tokens) ← readDirectives false [] tokens
  match tokens with
  | .documentStart :: rest =>
    if rest.head?.all endsDocument then return (.empty, rest)
    else readNode handles (rest.length + 2) true false rest
  | _ => none

/-- The node of a text that holds at most one document, the empty node for none. -/
def Node.ofTokens? (tokens : List Token) : Option (Node String) := do
  let (node, rest) ← match tokens with
    | [] => some (.empty, [])
    | .version _ _ :: _ | .tagDirective _ _ :: _ | .documentStart :: _ => readMarkedDocument tokens
    | _ => readNode Handles.default (tokens.length + 2) true false tokens
  if rest.all (· = .documentEnd) then some node else none

end Yaml

end ObjectGraph
