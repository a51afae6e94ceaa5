import Highlight.CommandLine

/-!
# The program

Runs the command line on the files of the machine.
-/

namespace Highlight.CommandLine

def describe : IO.Error → FileError
  | .noFileOrDirectory .. => .notFound
  | .inappropriateType .. => .isDirectory
  | e => .other (toString e)

def readText (path : Text) : IO (Except FileError Text) := do
  try
    let bytes ← IO.FS.readBinFile (String.ofList path)
    match String.fromUTF8? bytes with
    | some s => return .ok s.toList
    | none => return .error .notUtf8
  catch e => return .error (describe e)

def isPresent (path : Text) : IO Bool := do
  match ← readText path with
  | .error .notFound => return false
  | _ => return true

def machine : IO (FileSystem IO) := do
  let home ← IO.getEnv "HOME"
  return {
    read := readText
    isPresent := isPresent
    settingsPath := home.map fun h => h.toList ++ "/.zighl.toml".toList
    terminal := ← (← IO.getStdout).isTty }

end Highlight.CommandLine

open Highlight.CommandLine in
def main (args : List String) : IO UInt32 := do
  let outcome ← run (← machine) (args.map String.toList)
  IO.print (String.ofList outcome.output)
  IO.eprint outcome.errors
  return outcome.code.toUInt32
