import SnapLisp.CommandLine.Arguments
import SnapLisp.Eval.Basic
import SnapLisp.Form.Json

/-!
# What the program writes

`runFile` and `checkFile` give the two output streams of the commands on one file, as a function of
what reading that file gave. A run tells the streams of its own failure, so that it is written once.
-/

namespace SnapLisp

/-- Why the program failed. -/
inductive ProgramError where
  | io (message : String)
  | json (message : String)
  | script (error : ScriptError)
  deriving DecidableEq, Repr

namespace ProgramError

/-- What the program says about it. -/
def text : ProgramError → String
  | .io message => "io error: " ++ message
  | .json message => "json error: " ++ message
  | .script error => error.report

/-- There is no such file. -/
def noFile : ProgramError := .io "No such file or directory (os error 2)"

/-- The file is no text. -/
def notUtf8 : ProgramError := .io "stream did not contain valid UTF-8"

end ProgramError

/-- What has been written to the standard output and to the standard error. -/
structure Streams where
  out : String
  err : String
  deriving DecidableEq, Repr

namespace Streams

/-- Nothing has been written. -/
def empty : Streams := ⟨"", ""⟩

/-- Writes a line to the standard output. -/
def line (s : Streams) (text : String) : Streams := ⟨s.out ++ text ++ "\n", s.err⟩

/-- Writes a failure to the standard error. -/
def failure (s : Streams) (e : ProgramError) : Streams :=
  ⟨s.out, s.err ++ "Error: " ++ e.text ++ "\n"⟩

/-- Writes what a run tells: printed strings as lines, and the failure. -/
def receive (s : Streams) : Event → Streams
  | .log messages => messages.foldl line s
  | .fail error => s.failure (.script error)

/-- Writes what a run tells, in order. -/
def receiveAll (s : Streams) (events : List Event) : Streams := events.foldl receive s

end Streams

namespace Program

/-- The text of a file with the given content; without a content there is no such file. -/
def fileText (content : Option (List UInt8)) : Except ProgramError String :=
  match content with
  | none => .error .noFile
  | some bytes =>
    match Bytes.decode? bytes with
    | some text => .ok text
    | none => .error .notUtf8

/-- The script in a file. -/
def script (file : Except ProgramError String) : Except ProgramError Script := do
  (Script.ofString (← file)).mapError .script

/-- Runs a file and shows its value. -/
def runFile (fuel : Nat) (file : Except ProgramError String) : Streams :=
  match script file with
  | .error e => Streams.empty.failure e
  | .ok script =>
    let o := interpret fuel script .standard
    let streams := Streams.empty.receiveAll o.events
    match o.result with
    | .ok value => streams.line value.text
    | .error _ => streams

/-- Reads a file and shows its forms as a JSON document. Nothing is run. -/
def checkFile (compact : Bool) (file : Except ProgramError String) : Streams :=
  match script file with
  | .error e => Streams.empty.failure e
  | .ok script => Streams.empty.line (script.json compact).text

/-- The fuel of the program: evaluations nested deeper than this do not fit into memory. -/
def fuel : Nat := 1000000000

end Program

end SnapLisp
