import SnapLisp.ScriptError

/-!
# Tokens

A `Token` is a lexeme's kind with the span of its text. A `TokenStream` is a list of tokens that
ends in the end-of-input token: reading one needs no test for having run off its end.
`TokenStream.toList` is the whole list, and `TokenStream.ofList?` takes a list apart again
(`ofList?_toList`).
-/

namespace SnapLisp

/-- What a token says. -/
inductive TokenKind where
  | leftParen
  | rightParen
  | symbol (name : String)
  | number (value : Float)
  /-- The end of the input. -/
  | eof
  deriving DecidableEq

/-- A lexeme of a source text. -/
structure Token where
  kind : TokenKind
  span : Span
  deriving DecidableEq

/-- Tokens that end in the end-of-input token. Another such token may stand among them. -/
structure TokenStream where
  /-- The tokens before the last one. -/
  tokens : List Token
  /-- The span of the last token. -/
  eof : Span
  deriving DecidableEq

namespace TokenStream

/-- All tokens, the last one included. -/
def toList (s : TokenStream) : List Token := s.tokens ++ [⟨.eof, s.eof⟩]

/-- The stream with one more token in front. -/
def cons (t : Token) (s : TokenStream) : TokenStream := ⟨t :: s.tokens, s.eof⟩

/-- The stream of a token list, if the list ends in the end-of-input token. -/
def ofList? (tokens : List Token) : Option TokenStream :=
  match tokens.getLast? with
  | some ⟨.eof, span⟩ => some ⟨tokens.dropLast, span⟩
  | _ => none

@[simp] theorem toList_cons (t : Token) (s : TokenStream) : (s.cons t).toList = t :: s.toList := rfl

@[simp] theorem ofList?_toList (s : TokenStream) : ofList? s.toList = some s := by
  simp [ofList?, toList]

end TokenStream

end SnapLisp
