-- SUMMARY: The program: it reads what a command needs and prints the answer.
import ObjectGraph.CommandLine.Run

/-! # The program

Settings are kept below the home directory. A file that cannot be read counts as
one that does not exist.
-/

open ObjectGraph

def settingsPath : String := ".config/graphsift/config.toml"

def readSettings : IO Settings := do
  match ← IO.getEnv "HOME" with
  | none => return Settings.load none
  | some home =>
    try return Settings.load (some (← IO.FS.readFile (home ++ "/" ++ settingsPath)))
    catch _ => return Settings.load none

/-- All that is left on a stream. -/
partial def readAll (stream : IO.FS.Stream) (before : ByteArray) : IO ByteArray := do
  let bytes ← stream.read 65536
  if bytes.isEmpty then return before else readAll stream (before ++ bytes)

/-- The bytes of a document: the standard input, or a file. -/
def readBytes (file : String) : IO (Option (List UInt8)) := do
  if file == CommandLine.standardInput then
    let stdin ← IO.getStdin
    if ← stdin.isTty then return none else return some (← readAll stdin .empty).toList
  else
    try return some (← IO.FS.readBinFile file).toList catch _ => return none

def main (args : List String) : IO UInt32 := do
  let answer ← CommandLine.answer readSettings readBytes args
  IO.print answer.output
  IO.eprint answer.error
  return UInt32.ofNat answer.code
