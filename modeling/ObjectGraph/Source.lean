-- SUMMARY: Loading documents from bytes and from files, plain or compressed.
import ObjectGraph.Gzip.Member
import ObjectGraph.Text.Utf8
import ObjectGraph.Yaml.Parse

/-! # Sources

Bytes are taken for compressed if they start like a gzip member. A file is taken
for compressed if its name has the extension `gz`, whatever it holds.
-/

namespace ObjectGraph

inductive LoadError where
  /-- The file cannot be read as text. -/
  | unreadable (file : String)
  /-- The compressed file does not exist. -/
  | unopened (file : String)
  | corruptedFile
  | corruptedInput
  | notText
  | notDocument
deriving DecidableEq, Repr

def LoadError.message : LoadError → String
  | .unreadable file => "Failed to read file " ++ file
  | .unopened file => "Failed to open gzipped file " ++ file
  | .corruptedFile => "Failed to decompress gzipped file - file may be corrupted"
  | .corruptedInput => "Failed to decompress gzipped input"
  | .notText => "Invalid UTF-8 in input"
  | .notDocument => "Failed to parse document"

namespace Source

/-! ## Texts -/

/-- The text of compressed bytes. -/
def decompressed? (bytes : List UInt8) : Option String :=
  (Gzip.decompress? bytes).bind Text.decode?

/-- The text of bytes, compressed or not. -/
def textOfBytes (bytes : List UInt8) : Except LoadError String :=
  if Gzip.isGzip bytes then
    match decompressed? bytes with
    | some text => .ok text
    | none => .error .corruptedInput
  else
    match Text.decode? bytes with
    | some text => .ok text
    | none => .error .notText

/-! ## Files -/

/-- Leave out slashes and single points that end a path; the path is in reverse. -/
def dropEnd : List Char → List Char
  | '/' :: rest => dropEnd rest
  | '.' :: '/' :: rest => dropEnd rest
  | rest => rest

/-- The last part of a path. -/
def baseName (path : List Char) : List Char :=
  ((dropEnd path.reverse).takeWhile (· != '/')).reverse

/-- The extension of a file name: what follows its last point, unless that is the
first character of the name. -/
def extension? (path : String) : Option String :=
  let base := baseName path.toList
  let tail := (base.reverse.takeWhile (· != '.')).reverse
  if base = ['.', '.'] ∨ base.length ≤ tail.length + 1 then none else some (String.ofList tail)

example : extension? "a.yaml.gz" = some "gz" := by decide +kernel
example : extension? ".gz" = none := by decide +kernel

def isGzipName (name : String) : Bool := extension? name == some "gz"

/-- The text of a file: its name, and its bytes if it exists. -/
def textOfFile (name : String) (bytes : Option (List UInt8)) : Except LoadError String :=
  if isGzipName name then
    match bytes with
    | none => .error (.unopened name)
    | some bytes =>
      match decompressed? bytes with
      | some text => .ok text
      | none => .error .corruptedFile
  else
    match bytes.bind Text.decode? with
    | some text => .ok text
    | none => .error (.unreadable name)

end Source

/-! ## Documents -/

namespace Document

def ofText (text : String) (s : Supply) : Except LoadError (Document × Supply) :=
  match parse? text s with
  | some d => .ok d
  | none => .error .notDocument

def ofBytes (bytes : List UInt8) (s : Supply) : Except LoadError (Document × Supply) := do
  ofText (← Source.textOfBytes bytes) s

/-- The document of a file: its name, and its bytes if it exists. -/
def ofFile (name : String) (bytes : Option (List UInt8)) (s : Supply) :
    Except LoadError (Document × Supply) := do
  ofText (← Source.textOfFile name bytes) s

end Document

end ObjectGraph
