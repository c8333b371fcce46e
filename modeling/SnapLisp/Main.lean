import SnapLisp.CommandLine.Program
import SnapLisp.Editor.Completeness
import SnapLisp.Editor.Prompt

/-!
# The command line program

The outer layer: it reads files and lines, writes streams, and leaves everything else to the
library.
-/

namespace SnapLisp.Main

/-- Writes both streams. -/
def write (s : Streams) : IO Unit := do
  IO.print s.out
  IO.eprint s.err

/-- Reads a file. -/
def readText (file : String) : IO (Except ProgramError String) := do
  try
    return Program.fileText (some (← IO.FS.readBinFile file).data.toList)
  catch
    | .noFileOrDirectory .. => return Program.fileText none
    | e => return .error (.io (toString e))

/-- Reads an input that is complete, over as many lines as it takes; none at the end of the input.
-/
partial def readInput (stdin : IO.FS.Stream) (input prompt : String) : IO (Option String) := do
  IO.print prompt
  (← IO.getStdout).flush
  let line ← stdin.getLine
  let input := input ++ line
  if line.isEmpty then return if input.isEmpty then none else some input
  else if Input.isComplete input then return some input
  else readInput stdin input Prompt.multiline

/-- Runs one input after another in one environment. -/
partial def session (stdin : IO.FS.Stream) (env : Env) : IO Unit := do
  match ← readInput stdin "" (Prompt.left ++ Prompt.indicator) with
  | none => return
  | some input =>
    let o := run Program.fuel input env
    let streams := Streams.empty.receiveAll o.events
    match o.result with
    | .ok value => write (streams.line value.text)
    | .error _ => write streams
    session stdin o.env

/-- How the program is called. -/
def usage : String :=
  "A small Lisp with value-copying closures\n\nUsage: klisp <COMMAND>\n\nCommands:\n" ++
    "  run FILE               Run a source file and print its result\n" ++
    "  check [--compact] FILE Parse a source file and print its syntax tree as JSON\n" ++
    "  repl                   Start an interactive REPL session\n"

/-- Says why there is no command, and gives the exit code. -/
def refuse : UsageError → IO UInt32
  | .displayHelp => do
    IO.print usage
    return 0
  | .displayVersion => do
    IO.println "klisp 0.1.0"
    return 0
  | .missingCommand => do
    IO.eprint usage
    return 2
  | .invalidSubcommand => invalid "unrecognized subcommand"
  | .unknownArgument => invalid "unexpected argument found"
  | .missingRequiredArgument => invalid "a required argument was not provided"
  | .argumentConflict => invalid "an argument cannot be used multiple times"
  | .tooManyValues => invalid "unexpected value for an option that takes none"
  | .invalidValue => invalid "a value is required for the file"
where
  /-- Says what is wrong. -/
  invalid (message : String) : IO UInt32 := do
    IO.eprintln ("error: " ++ message ++ "\n\nFor more information, try '--help'.")
    return 2

end SnapLisp.Main

open SnapLisp in
/-- Does what the arguments ask for. Whatever a script does, the exit code is zero. -/
def main (args : List String) : IO UInt32 := do
  match Command.ofArguments args with
  | .error e => Main.refuse e
  | .ok (.run file) =>
    Main.write (Program.runFile Program.fuel (← Main.readText file))
    return 0
  | .ok (.check file compact) =>
    Main.write (Program.checkFile compact (← Main.readText file))
    return 0
  | .ok .repl =>
    Main.session (← IO.getStdin) .standard
    return 0
