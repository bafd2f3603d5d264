import TensorSig.Command.Run

/-!
# The command

The outer layer of the command: it reads the files that the arguments name, or standard input, and
prints what the run leaves behind. What that is, `Command.run` decides. The stream of standard input
keeps its carriage returns.
-/

namespace TensorSig.Command

/-- Everything on standard input. -/
partial def readStdin : IO (List Char) := do
  let stdin ← IO.getStdin
  let rec loop (text : String) : IO (List Char) := do
    let line ← stdin.getLine
    if line.isEmpty then return text.toList else loop (text ++ line)
  loop ""

/-- Whether an error has a given code, which is passed on with either sign. -/
def isCode (expected code : UInt32) : Bool := code = expected || code = 0 - expected

/-- What is found under a path. -/
def readContent (path : List Char) : IO (Except ReadFault (List Char)) := do
  try
    let content ← IO.FS.readFile (String.ofList path)
    return .ok content.toList
  catch
    | .noFileOrDirectory .. => return .error .missing
    | .inappropriateType _ code _ =>
      return .error (if isCode 20 code then .notDirectory else .directory)
    | .invalidArgument file code details =>
      if isCode 36 code then return .error .nameTooLong
      else throw (.invalidArgument file code details)
    | other => throw other

/-- The files and the standard input that a run on arguments needs. -/
def gather (arguments : List (List Char)) :
    IO (List (List Char × Except ReadFault (List Char)) × List Char) := do
  match Request.ofArguments arguments with
  | .ok (.run options) =>
    match options.source with
    | .exprs _ => return ([], [])
    | .stdin => return ([], ← readStdin)
    | .files paths => return (← paths.mapM fun path => return (path, ← readContent path), [])
  | _ => return ([], [])

end TensorSig.Command

open TensorSig in
/-- Run the command on the arguments of the program. -/
def main (arguments : List String) : IO UInt32 := do
  let arguments := arguments.map String.toList
  let (files, stdin) ← Command.gather arguments
  let fileSystem path := (files.lookup path).getD (.error .missing)
  let outcome := Command.run arguments fileSystem stdin .kept
  IO.print outcome.stdout
  IO.eprint outcome.stderr
  match outcome.ending with
  | .exit code => return code.toUInt32
  | .unreadable fault => do
    IO.eprintln fault.message
    return 1
  | .interrupted why => do
    IO.eprintln why.message
    return 1
