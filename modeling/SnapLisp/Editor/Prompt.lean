/-!
# Prompts

The texts that an interactive session shows around the input line.
-/

namespace SnapLisp.Prompt

/-- What stands before the input line. -/
def left : String := "klisp"

/-- What stands at the far end of the input line. -/
def right : String := ""

/-- What ends the prompt. -/
def indicator : String := "> "

/-- What opens a further line of the same input. -/
def multiline : String := "  ... "

/-- What is shown while the history is searched for a term; `failing` says that nothing is found. -/
def search (failing : Bool) (term : String) : String :=
  "(" ++ (if failing then "failing " else "") ++ "reverse-search: " ++ term ++ ") "

end SnapLisp.Prompt
