import SnapLisp.Form.Basic
import SnapLisp.Token.Lexer

/-!
# From tokens to forms

The parser walks along the tokens once. It holds the forms read so far on the innermost level, and
for each list still open where that list started and what stood before it. So it takes one step a
token, and the lists still open are exactly the parentheses not yet closed. The first end-of-input
token on the way ends the script.
-/

namespace SnapLisp

/-- A list still open: the place of its parenthesis, and the forms before it on the enclosing
level, the latest first. -/
structure OpenList where
  start : Position
  before : List Form

namespace Script

/-- What is wanted where a closing parenthesis has no partner. -/
def expectedForm : String := "expression or end of input"

/-- What is wanted where the input ends inside a list. -/
def expectedClosing : String := "')'"

/-- The script whose end is reached with the given forms read, the latest first. -/
def finish (level : List Form) (enclosing : List OpenList) (eof : Span) :
    Except ScriptError Script :=
  match enclosing with
  | [] => .ok ⟨level.reverse, ⟨.first, eof.stop⟩⟩
  | _ :: _ => .error (.malformed expectedClosing eof.start)

/-- Reads on from the forms of the innermost level, the latest first, and the lists still open, the
innermost first. -/
def read (level : List Form) (enclosing : List OpenList) (eof : Span) :
    List Token → Except ScriptError Script
  | [] => finish level enclosing eof
  | ⟨.eof, span⟩ :: _ => finish level enclosing span
  | ⟨.symbol name, span⟩ :: rest => read (.symbol name span :: level) enclosing eof rest
  | ⟨.number value, span⟩ :: rest => read (.number value span :: level) enclosing eof rest
  | ⟨.leftParen, span⟩ :: rest => read [] (⟨span.start, level⟩ :: enclosing) eof rest
  | ⟨.rightParen, span⟩ :: rest =>
    match enclosing with
    | [] => .error (.malformed expectedForm span.start)
    | list :: outer =>
      read (.list level.reverse ⟨list.start, span.stop⟩ :: list.before) outer eof rest

/-- The script that a token stream spells. -/
def ofTokens (stream : TokenStream) : Except ScriptError Script :=
  read [] [] stream.eof stream.tokens

/-- The script that a token list spells. A list that does not end in the end-of-input token is none
that the lexer makes, whatever it holds. -/
def ofTokenList (tokens : List Token) : Except Crash (Except ScriptError Script) :=
  match TokenStream.ofList? tokens with
  | some stream => .ok (ofTokens stream)
  | none => .error .unterminatedTokens

/-- The script that a text given as bytes spells. A fault of a token anywhere in the text comes
before any fault of the parentheses. -/
def ofBytes (bytes : List UInt8) : Except ScriptError Script :=
  (TokenStream.ofBytes bytes).bind ofTokens

/-- The script that a text spells. -/
def ofString (text : String) : Except ScriptError Script := ofBytes (Bytes.utf8 text)

end Script

end SnapLisp
