/-!
# The arguments of the command line

There are four subcommands: `run FILE`, `check [--compact] FILE`, `repl`, and `help`, which takes
the name of another one. Arguments are taken from left to right, and the first that is wrong
decides. A word that starts with a dash is an option, unless it is a single dash or follows `--`.
That a file has an empty name is found out late: when an option that the subcommand knows follows,
or at the end.
-/

namespace SnapLisp

/-- What the command line asks for. -/
inductive Command where
  | run (file : String)
  | check (file : String) (compact : Bool)
  | repl
  deriving DecidableEq, Repr

/-- Why the command line asks for nothing that could be done, or only for a text about itself. -/
inductive UsageError where
  | displayHelp
  | displayVersion
  /-- No argument is given at all. -/
  | missingCommand
  | invalidSubcommand
  | unknownArgument
  | missingRequiredArgument
  /-- An option is given twice. -/
  | argumentConflict
  /-- An option is given a value. -/
  | tooManyValues
  | invalidValue
  deriving DecidableEq, Repr

namespace CommandLine

/-- An option. None takes a value. -/
inductive Flag where
  | help
  | version
  | compact
  deriving DecidableEq, Repr

/-- The name of an option after two dashes. -/
def Flag.long : Flag → String
  | .help => "help"
  | .version => "version"
  | .compact => "compact"

/-- The letter of an option after one dash. -/
def Flag.short? : Flag → Option Char
  | .help => some 'h'
  | .version => some 'V'
  | .compact => none

/-- An argument, by its dashes. -/
inductive Word where
  /-- Two dashes alone: no option follows. -/
  | escape
  /-- Two dashes and a name, perhaps with `=` and a value. -/
  | long (name : String) (hasValue : Bool)
  /-- One dash and letters, of which the first decides. -/
  | short (letter : Char)
  | plain
  deriving DecidableEq, Repr

/-- Reads an argument by its dashes. -/
def Word.ofArgument (argument : String) : Word :=
  match argument.toList with
  | ['-', '-'] => .escape
  | '-' :: '-' :: rest => .long (String.ofList (rest.takeWhile (· != '='))) (rest.contains '=')
  | '-' :: letter :: _ => .short letter
  | _ => .plain

/-- The option among the known ones that is given by its name. -/
def longFlag (known : List Flag) (name : String) (hasValue : Bool) : Except UsageError Flag :=
  match known.find? (·.long == name) with
  | none => .error .unknownArgument
  | some flag => if hasValue then .error .tooManyValues else .ok flag

/-- The option among the known ones that is given by its letter. -/
def shortFlag (known : List Flag) (letter : Char) : Except UsageError Flag :=
  match known.find? (·.short? == some letter) with
  | none => .error .unknownArgument
  | some flag => .ok flag

/-- A subcommand that does something. -/
inductive Subcommand where
  | run
  | check
  | repl
  deriving DecidableEq, Repr

namespace Subcommand

/-- The subcommand of a name. -/
def ofName? : String → Option Subcommand
  | "run" => some .run
  | "check" => some .check
  | "repl" => some .repl
  | _ => none

/-- The options that a subcommand knows. -/
def flags : Subcommand → List Flag
  | .run | .repl => [.help]
  | .check => [.help, .compact]

/-- Takes one more word as the file, if a file is wanted and still missing. -/
def takeFile (sub : Subcommand) (file : Option String) (word : String) :
    Except UsageError (Option String) :=
  if sub = .repl || file.isSome then .error .unknownArgument else .ok (some word)

/-- Takes all words as files. -/
def takeFiles (sub : Subcommand) (file : Option String) (words : List String) :
    Except UsageError (Option String) :=
  words.foldlM sub.takeFile file

/-- Refuses a file without a name. -/
def checkFile (file : Option String) : Except UsageError Unit :=
  if file = some "" then .error .invalidValue else .ok ()

/-- The command of a subcommand whose arguments have all been taken. -/
def command (sub : Subcommand) (file : Option String) (compact : Bool) :
    Except UsageError Command := do
  checkFile file
  match sub, file with
  | .repl, _ => return .repl
  | _, none => throw .missingRequiredArgument
  | .run, some file => return .run file
  | .check, some file => return .check file compact

/-- Takes further arguments of a subcommand, after those that gave `file` and `compact`. -/
def read (sub : Subcommand) (file : Option String) (compact : Bool) :
    List String → Except UsageError Command
  | [] => sub.command file compact
  | argument :: rest =>
    match Word.ofArgument argument with
    | .escape => do sub.command (← sub.takeFiles file rest) compact
    | .plain => do sub.read (← sub.takeFile file argument) compact rest
    | .long name hasValue => do
      let flag ← longFlag sub.flags name hasValue
      react flag rest
    | .short letter => do
      let flag ← shortFlag sub.flags letter
      react flag rest
where
  /-- Goes on after an option that the subcommand knows. -/
  react (flag : Flag) (rest : List String) : Except UsageError Command := do
    checkFile file
    match flag with
    | .help => throw .displayHelp
    | .version => throw .displayVersion
    | .compact => if compact then throw .argumentConflict else sub.read file true rest

end Subcommand

/-- Asks for the help text of the program, or of one subcommand. -/
def readHelp : List String → UsageError
  | [] => .displayHelp
  | [name] =>
    if name = "help" || (Subcommand.ofName? name).isSome then .displayHelp else .invalidSubcommand
  | _ => .invalidSubcommand

/-- Answers an option that stands before any subcommand. -/
def topFlag : Flag → UsageError
  | .version => .displayVersion
  | _ => .displayHelp

/-- The options known before any subcommand. -/
def topFlags : List Flag := [.help, .version]

/-- What becomes of the words after `--` where a subcommand is wanted: they cannot name one. -/
def afterEscape : List String → UsageError
  | [] => .missingCommand
  | word :: _ =>
    if word = "help" || (Subcommand.ofName? word).isSome then .unknownArgument
    else .invalidSubcommand

end CommandLine

open CommandLine in
/-- The command that the arguments after the program's own name ask for. -/
def Command.ofArguments : List String → Except UsageError Command
  | [] => .error .missingCommand
  | argument :: rest =>
    match Word.ofArgument argument with
    | .escape => .error (afterEscape rest)
    | .long name hasValue => do throw (topFlag (← longFlag topFlags name hasValue))
    | .short letter => do throw (topFlag (← shortFlag topFlags letter))
    | .plain =>
      if argument = "help" then .error (readHelp rest)
      else
        match Subcommand.ofName? argument with
        | some sub => sub.read none false rest
        | none => .error .invalidSubcommand

end SnapLisp
