/-!
# Whether an input is complete

An input with lists still open asks for more. A closing parenthesis without a partner cannot be
mended by more input, so it makes the input complete at once, and the parser gets to report it.
-/

namespace SnapLisp.Input

/-- The number of parentheses open after some characters, from `depth` open ones before them; none
if one is closed that is not open. -/
def unclosed? (depth : Nat) : List Char → Option Nat
  | [] => some depth
  | c :: rest =>
    if c = '(' then unclosed? (depth + 1) rest
    else if c = ')' then
      match depth with
      | 0 => none
      | depth + 1 => unclosed? depth rest
    else unclosed? depth rest

/-- Whether an input is to be run rather than continued. -/
def isComplete (line : String) : Bool :=
  match unclosed? 0 line.toList with
  | none | some 0 => true
  | some (_ + 1) => false

end SnapLisp.Input
