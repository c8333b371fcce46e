import SnapLisp.Source.Position

/-!
# What can be wrong with a script

One cause a constructor, each with what its message needs. `ScriptError.span` is the place to blame,
as far as there is one, and `ScriptError.report` is the message with that place appended.
-/

namespace SnapLisp

/-- Why a text is no script, or why running it stopped. -/
inductive ScriptError where
  /-- The text could not be read on at a place. -/
  | malformed (expected : String) (place : Position)
  /-- A symbol that no frame binds. -/
  | unbound (name : String) (span : Span)
  /-- The empty form, which stands for nothing. -/
  | illFormed (span : Option Span)
  /-- The head of a form is a value that cannot be applied. -/
  | notProcedure (span : Option Span)
  /-- Something other than a symbol stands as a parameter. -/
  | illFormedParameter (message : String) (span : Span)
  /-- A special form without the parts that it needs. -/
  | illFormedSpecial (form : String) (span : Option Span)
  /-- A procedure applied to the wrong number of arguments. -/
  | wrongArity (expected : String) (got : Nat)
  /-- Arithmetic on a value of another type. -/
  | notNumber (got : String)
  /-- A name declared twice in one frame. -/
  | redeclared (name : String)
  deriving DecidableEq, Repr

namespace ScriptError

/-- What went wrong, in words. -/
def message : ScriptError → String
  | .malformed expected place => "syntax error at " ++ place.text ++ ": expected " ++ expected
  | .unbound name _ => "unbound variable '" ++ name ++ "'"
  | .illFormed _ => "ill-formed expression"
  | .notProcedure _ => "operator is not a procedure"
  | .illFormedParameter message _ => "ill-formed parameter: " ++ message
  | .illFormedSpecial form _ => "ill-formed special form '" ++ form ++ "'"
  | .wrongArity expected got =>
    "wrong number of arguments passed to procedure: expected " ++ expected ++ ", got " ++
      toString got
  | .notNumber got => "expected 'number', got '" ++ got ++ "'"
  | .redeclared name => "'" ++ name ++ "' is already declared in this scope"

/-- The part of the source that is to blame, if it is known. -/
def span : ScriptError → Option Span
  | .malformed _ place => some (.point place)
  | .unbound _ span | .illFormedParameter _ span => some span
  | .illFormed span | .notProcedure span | .illFormedSpecial _ span => span
  | .wrongArity .. | .notNumber _ | .redeclared _ => none

/-- The message, and where the blamed part starts. The message about malformed text names its place
already. -/
def report (e : ScriptError) : String :=
  match e, e.span with
  | .malformed .., _ | _, none => e.message
  | _, some span => e.message ++ " at " ++ span.start.text

end ScriptError

/-- Why evaluation or reading stopped without an error of the script: a broken rule of the library
itself. -/
inductive Crash where
  /-- A pop with one frame left. -/
  | outermostFrame
  /-- A token list that does not end in the end-of-input token. -/
  | unterminatedTokens
  deriving DecidableEq, Repr

/-- What a crash says. -/
def Crash.message : Crash → String
  | .outermostFrame => "cannot pop the outermost frame"
  | .unterminatedTokens => "Token slice must be terminated by EOF"

end SnapLisp
