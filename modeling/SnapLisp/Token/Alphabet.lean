/-!
# The alphabet of a source text

Every byte that may stand in a script is a blank, a parenthesis, or part of a symbol or a number.
All of them are ASCII characters.
-/

namespace SnapLisp.Alphabet

/-- Space, tab, line feed, form feed or carriage return. The vertical tab is none of them. -/
def isBlank (b : UInt8) : Bool := b = 32 || b = 9 || b = 10 || b = 12 || b = 13

/-- The byte of `(`. -/
def leftParen : UInt8 := 40

/-- The byte of `)`. -/
def rightParen : UInt8 := 41

/-- An ASCII digit. -/
def isDigit (b : UInt8) : Bool := 48 ≤ b && b ≤ 57

/-- An ASCII letter. -/
def isLetter (b : UInt8) : Bool := (65 ≤ b && b ≤ 90) || (97 ≤ b && b ≤ 122)

/-- A byte that opens a symbol: a letter, `_`, `+`, `-`, `*` or `/`. -/
def startsSymbol (b : UInt8) : Bool :=
  isLetter b || b = 95 || b = 43 || b = 45 || b = 42 || b = 47

/-- A byte that continues a symbol: a letter, a digit, `_` or `-`. -/
def continuesSymbol (b : UInt8) : Bool := isLetter b || isDigit b || b = 95 || b = 45

end SnapLisp.Alphabet
