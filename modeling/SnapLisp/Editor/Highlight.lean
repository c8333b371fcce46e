import SnapLisp.Builtin
import SnapLisp.Token.Lexer

/-!
# Highlighting an input line

A line that tokenizes is cut at the ends of its tokens, and every token is shown in the style of
its kind; a line that does not is shown as it is. No part is empty, and the parts one after the
other are the line. A line that tokenizes is ASCII, so its bytes are its characters.
-/

namespace SnapLisp

/-- How a part of a line is shown. -/
inductive Style where
  /-- The name of a built-in operator. -/
  | keyword
  /-- A number. -/
  | literal
  /-- Another symbol, or text between tokens. -/
  | plain
  /-- A parenthesis. -/
  | paren
  deriving DecidableEq, Repr

/-- A stretch of a line in one style. -/
structure Part where
  style : Style
  text : String
  deriving DecidableEq, Repr

namespace Part

/-- The style of a token; the end of the input has none. -/
def styleOf? : TokenKind → Option Style
  | .leftParen | .rightParen => some .paren
  | .symbol name => some (if (Builtin.ofName? name).isSome then .keyword else .plain)
  | .number _ => some .literal
  | .eof => none

/-- The part of the bytes between two tokens, if there are any. -/
def gap (bytes : List UInt8) : List Part :=
  if bytes.isEmpty then [] else [⟨.plain, Bytes.ofAscii bytes⟩]

/-- The parts of the bytes from the given offset on, cut at tokens. -/
def cut (offset : Nat) (bytes : List UInt8) : List Token → List Part
  | [] => gap bytes
  | token :: rest =>
    match styleOf? token.kind with
    | none => gap bytes
    | some style =>
      let before := token.span.start.offset - offset
      let length := token.span.stop.offset - token.span.start.offset
      gap (bytes.take before) ++
        ⟨style, Bytes.ofAscii ((bytes.drop before).take length)⟩ ::
          cut token.span.stop.offset (bytes.drop (before + length)) rest

end Part

/-- The parts of a line, in order. -/
def highlight (line : String) : List Part :=
  match TokenStream.ofString line with
  | .ok stream => Part.cut 0 (Bytes.utf8 line) stream.tokens
  | .error _ => [⟨.plain, line⟩]

end SnapLisp
