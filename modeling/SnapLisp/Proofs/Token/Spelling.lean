import SnapLisp.Proofs.Number.WholeText
import SnapLisp.Token.Lexer

/-!
# Which bytes spell which tokens

`Spells` relates bytes to the kinds of the tokens that the lexer makes of them, in whatever place
they stand. Its rules follow the way texts are put together: lexemes are spelled by themselves, a
blank separates, and parentheses enclose.
-/

namespace SnapLisp

open Alphabet

/-- The text of one symbol: a byte that opens a symbol, and bytes that continue it. -/
def IsLexeme (name : String) : Prop :=
  ∃ first rest, Bytes.utf8 name = first :: rest ∧ startsSymbol first = true ∧
    ∀ b ∈ rest, continuesSymbol b = true

/-- A kind of token that the lexer makes. -/
def TokenKind.Canonical : TokenKind → Prop
  | .symbol name => IsLexeme name
  | .number value => Number.Whole value
  | .leftParen | .rightParen | .eof => True

/-! ## Classes of bytes -/

namespace Alphabet

theorem startsSymbol_class {b : UInt8} (h : startsSymbol b = true) :
    isBlank b = false ∧ b ≠ leftParen ∧ b ≠ rightParen ∧ b < 128 := by
  grind [startsSymbol, isLetter, isBlank, leftParen, rightParen]

theorem isDigit_class {b : UInt8} (h : isDigit b = true) :
    isBlank b = false ∧ b ≠ leftParen ∧ b ≠ rightParen ∧ startsSymbol b = false ∧
      continuesSymbol b = true := by
  grind [isDigit, startsSymbol, continuesSymbol, isLetter, isBlank, leftParen, rightParen]

theorem continuesSymbol_lt {b : UInt8} (h : continuesSymbol b = true) : b < 128 := by
  grind [continuesSymbol, isDigit, isLetter]

theorem continuesSymbol_of_isBlank {b : UInt8} (h : isBlank b = true) :
    continuesSymbol b = false := by
  grind [continuesSymbol, isDigit, isLetter, isBlank]

theorem isDigit_of_isBlank {b : UInt8} (h : isBlank b = true) : isDigit b = false := by
  grind [isDigit, isBlank]

theorem startsSymbol_of_isBlank {b : UInt8} (h : isBlank b = true) : startsSymbol b = false := by
  grind [startsSymbol, isLetter, isBlank]

theorem continuesSymbol_rightParen : continuesSymbol rightParen = false := rfl

end Alphabet

/-- The bytes of a lexeme are ASCII characters. -/
theorem ascii_of_lexeme {first : UInt8} {rest : List UInt8} (hfirst : startsSymbol first = true)
    (hrest : ∀ b ∈ rest, continuesSymbol b = true) : ∀ b ∈ first :: rest, b < 128 := by
  intro b hb
  rcases List.mem_cons.mp hb with rfl | hb
  · exact (startsSymbol_class hfirst).2.2.2
  · exact continuesSymbol_lt (hrest b hb)

/-! ## Spelling -/

/-- Nothing that could continue a symbol or a number. -/
def Ends (rest : List UInt8) : Prop := ∀ b ∈ rest.head?, continuesSymbol b = false

/-- The stream with more tokens in front. -/
def TokenStream.prepend (tokens : List Token) (s : TokenStream) : TokenStream :=
  ⟨tokens ++ s.tokens, s.eof⟩

/-- The bytes spell tokens of these kinds, if what follows cannot continue the last one. -/
def Spells (bytes : List UInt8) (kinds : List TokenKind) : Prop :=
  ∀ place rest, Ends rest → ∃ place' tokens, tokens.map Token.kind = kinds ∧
    TokenStream.scan place (bytes ++ rest) =
      (TokenStream.scan place' rest).map (TokenStream.prepend tokens)

namespace TokenStream

variable {place : Position} {b : UInt8} {body rest : List UInt8}

theorem scan_blank (h : isBlank b = true) :
    scan place (b :: rest) = scan (place.step b) rest := by
  rw [scan, if_pos h]

theorem scan_leftParen : scan place (leftParen :: rest) =
    (scan (place.step leftParen) rest).map
      (cons ⟨.leftParen, ⟨place, place.step leftParen⟩⟩) := by
  rw [scan, if_neg (by decide), if_pos rfl]

theorem scan_rightParen : scan place (rightParen :: rest) =
    (scan (place.step rightParen) rest).map
      (cons ⟨.rightParen, ⟨place, place.step rightParen⟩⟩) := by
  rw [scan, if_neg (by decide), if_neg (by decide), if_pos rfl]

theorem takeWhile_dropWhile_of_ends {p : UInt8 → Bool} (hp : ∀ b, p b = true → continuesSymbol b)
    (hbody : ∀ b ∈ body, p b = true) (hrest : Ends rest) :
    (body ++ rest).takeWhile p = body ∧ (body ++ rest).dropWhile p = rest := by
  refine takeWhile_dropWhile_of_stop hbody fun b hb => ?_
  have hends := hrest b hb
  cases hpb : p b with
  | false => rfl
  | true => rw [hp b hpb] at hends; cases hends

/-- A symbol takes all the bytes that can continue it. -/
theorem scan_startsSymbol (hb : startsSymbol b = true) : scan place (b :: rest) =
    (scan (place.advance (b :: rest.takeWhile continuesSymbol))
      (rest.dropWhile continuesSymbol)).map
        (cons ⟨.symbol (Bytes.ofAscii (b :: rest.takeWhile continuesSymbol)),
          ⟨place, place.advance (b :: rest.takeWhile continuesSymbol)⟩⟩) := by
  obtain ⟨hblank, hleft, hright, -⟩ := startsSymbol_class hb
  rw [scan, if_neg (by simp [hblank]), if_neg hleft, if_neg hright, if_pos hb]

/-- A number takes all the digits. -/
theorem scan_isDigit (hb : isDigit b = true) {value : Float}
    (hvalue : Number.nearest? (Number.ofDigits (b :: rest.takeWhile isDigit)) = some value) :
    scan place (b :: rest) =
      (scan (place.advance (b :: rest.takeWhile isDigit)) (rest.dropWhile isDigit)).map
        (cons ⟨.number value, ⟨place, place.advance (b :: rest.takeWhile isDigit)⟩⟩) := by
  obtain ⟨hblank, hleft, hright, hsymbol, -⟩ := isDigit_class hb
  rw [scan, if_neg (by simp [hblank]), if_neg hleft, if_neg hright, if_neg (by simp [hsymbol]),
    if_pos hb]
  simp only [hvalue]

/-- A number that is too large stops the lexer. -/
theorem scan_isDigit_of_none (hb : isDigit b = true)
    (hvalue : Number.nearest? (Number.ofDigits (b :: rest.takeWhile isDigit)) = none) :
    scan place (b :: rest) = .error (.malformed expectedFinite place) := by
  obtain ⟨hblank, hleft, hright, hsymbol, -⟩ := isDigit_class hb
  rw [scan, if_neg (by simp [hblank]), if_neg hleft, if_neg hright, if_neg (by simp [hsymbol]),
    if_pos hb]
  simp only [hvalue]

/-- A byte that starts no token stops the lexer. -/
theorem scan_of_none (hblank : isBlank b = false) (hleft : b ≠ leftParen) (hright : b ≠ rightParen)
    (hsymbol : startsSymbol b = false) (hdigit : isDigit b = false) :
    scan place (b :: rest) = .error (.malformed expectedToken place) := by
  rw [scan, if_neg (by simp [hblank]), if_neg hleft, if_neg hright, if_neg (by simp [hsymbol]),
    if_neg (by simp [hdigit])]

theorem scan_symbol (hb : startsSymbol b = true) (hbody : ∀ c ∈ body, continuesSymbol c = true)
    (hrest : Ends rest) : scan place (b :: (body ++ rest)) =
      (scan (place.advance (b :: body)) rest).map
        (cons ⟨.symbol (Bytes.ofAscii (b :: body)), ⟨place, place.advance (b :: body)⟩⟩) := by
  obtain ⟨htake, hdrop⟩ := takeWhile_dropWhile_of_ends (fun _ h => h) hbody hrest
  rw [scan_startsSymbol hb, htake, hdrop]

theorem scan_number (hb : isDigit b = true) (hbody : ∀ c ∈ body, isDigit c = true)
    (hrest : Ends rest) {value : Float}
    (hvalue : Number.nearest? (Number.ofDigits (b :: body)) = some value) :
    scan place (b :: (body ++ rest)) =
      (scan (place.advance (b :: body)) rest).map
        (cons ⟨.number value, ⟨place, place.advance (b :: body)⟩⟩) := by
  obtain ⟨htake, hdrop⟩ :=
    takeWhile_dropWhile_of_ends (fun _ h => (isDigit_class h).2.2.2.2) hbody hrest
  rw [scan_isDigit hb (by rwa [htake]), htake, hdrop]

end TokenStream

theorem ends_nil : Ends [] := fun _ h => nomatch h

theorem ends_cons {b : UInt8} (h : continuesSymbol b = false) (rest : List UInt8) :
    Ends (b :: rest) := by
  intro c hc
  cases hc
  exact h

/-- Tokens in front of tokens in front of a stream. -/
theorem TokenStream.map_prepend_append (front back : List Token)
    (result : Except ScriptError TokenStream) :
    (result.map (prepend back)).map (prepend front) = result.map (prepend (front ++ back)) := by
  cases result with
  | error e => rfl
  | ok s => simp [Except.map, prepend]

theorem TokenStream.map_prepend_nil (result : Except ScriptError TokenStream) :
    result.map (prepend []) = result := by
  cases result <;> rfl

theorem TokenStream.map_cons (t : Token) (result : Except ScriptError TokenStream) :
    result.map (cons t) = result.map (prepend [t]) := rfl

namespace Spells

open TokenStream

variable {front back bytes : List UInt8} {kinds kinds' : List TokenKind}

theorem nil : Spells [] [] := by
  intro place rest _
  exact ⟨place, [], rfl, (map_prepend_nil _).symm⟩

/-- One lexeme is one token. -/
theorem symbol {name : String} (h : IsLexeme name) : Spells (Bytes.utf8 name) [.symbol name] := by
  obtain ⟨first, body, hbytes, hfirst, hbody⟩ := h
  have hname : Bytes.ofAscii (first :: body) = name := by
    have hascii := ascii_of_lexeme hfirst hbody
    rw [← hbytes] at hascii ⊢
    exact Bytes.ofAscii_utf8 hascii
  intro place rest hrest
  rw [hbytes, List.cons_append, scan_symbol hfirst hbody hrest, hname]
  exact ⟨_, [⟨.symbol name, _⟩], rfl, map_cons _ _⟩

theorem number {value : Float} (h : Number.Whole value) :
    Spells (Bytes.utf8 (Number.Format.source.text value)) [.number value] := by
  obtain ⟨hne, hdigits, hread⟩ := h.nearest?_ofDigits_text
  intro place rest hrest
  cases hrun : Bytes.utf8 (Number.Format.source.text value) with
  | nil => exact absurd hrun hne
  | cons first body =>
    rw [hrun] at hdigits hread
    rw [List.cons_append, scan_number (hdigits first (.head _))
      (fun c hc => hdigits c (.tail _ hc)) hrest hread]
    exact ⟨_, [⟨.number value, _⟩], rfl, map_cons _ _⟩

/-- One spelling after another, if the second one cannot continue the first. -/
theorem append (hfront : Spells front kinds) (hback : Spells back kinds')
    (hends : ∀ rest, Ends rest → Ends (back ++ rest)) :
    Spells (front ++ back) (kinds ++ kinds') := by
  intro place rest hrest
  obtain ⟨place₁, tokens, htokens, hscan⟩ := hfront place (back ++ rest) (hends rest hrest)
  obtain ⟨place₂, tokens', htokens', hscan'⟩ := hback place₁ rest hrest
  refine ⟨place₂, tokens ++ tokens', by rw [List.map_append, htokens, htokens'], ?_⟩
  rw [List.append_assoc, hscan, hscan', map_prepend_append]

/-- A blank spells nothing. -/
theorem blank_cons {b : UInt8} (hb : isBlank b = true) (h : Spells bytes kinds) :
    Spells (b :: bytes) kinds := by
  intro place rest hrest
  obtain ⟨place', tokens, htokens, hscan⟩ := h (place.step b) rest hrest
  exact ⟨place', tokens, htokens, by rw [List.cons_append, scan_blank hb, hscan]⟩

theorem leftParen_cons (h : Spells bytes kinds) :
    Spells (leftParen :: bytes) (.leftParen :: kinds) := by
  intro place rest hrest
  obtain ⟨place', tokens, htokens, hscan⟩ := h (place.step leftParen) rest hrest
  refine ⟨place', ⟨.leftParen, ⟨place, place.step leftParen⟩⟩ :: tokens,
    by rw [List.map_cons, htokens], ?_⟩
  rw [List.cons_append, scan_leftParen, hscan, map_cons, map_prepend_append]
  rfl

theorem rightParen : Spells [rightParen] [.rightParen] := by
  intro place rest _
  rw [List.singleton_append, scan_rightParen]
  exact ⟨_, [⟨.rightParen, _⟩], rfl, map_cons _ _⟩

/-- A blank separates. -/
theorem append_blank {b : UInt8} (hb : isBlank b = true) (hfront : Spells front kinds)
    (hback : Spells back kinds') : Spells (front ++ b :: back) (kinds ++ kinds') :=
  hfront.append (hback.blank_cons hb) fun _ _ => ends_cons (continuesSymbol_of_isBlank hb) _

/-- Parentheses enclose. -/
theorem parens (h : Spells bytes kinds) :
    Spells (leftParen :: (bytes ++ [Alphabet.rightParen]))
      (.leftParen :: (kinds ++ [.rightParen])) :=
  (h.append rightParen fun _ _ => ends_cons continuesSymbol_rightParen _).leftParen_cons

/-- A whole text. -/
theorem ofBytes (h : Spells bytes kinds) :
    ∃ stream, TokenStream.ofBytes bytes = .ok stream ∧ stream.tokens.map Token.kind = kinds := by
  obtain ⟨place, tokens, htokens, hscan⟩ := h .first [] ends_nil
  rw [List.append_nil, scan] at hscan
  exact ⟨_, hscan, by simpa [prepend] using htokens⟩

end Spells

end SnapLisp
