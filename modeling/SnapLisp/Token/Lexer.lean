import SnapLisp.Number.Literal
import SnapLisp.Source.Bytes
import SnapLisp.Token.Alphabet
import SnapLisp.Token.Basic

/-!
# From bytes to tokens

`TokenStream.ofBytes` reads a text from left to right. Blanks are passed over; a symbol or a number
takes all the bytes that can continue it. The first place that starts no token, or starts a number
too large for a finite double, is reported, and nothing after it matters.
-/

namespace SnapLisp.TokenStream

open Alphabet

/-- What is wanted where a byte starts no token. -/
def expectedToken : String := "symbol, number or list"

/-- What is wanted where a number is too large. -/
def expectedFinite : String := "number small enough to be finite"

private theorem length_dropWhile_lt (p : UInt8 → Bool) (b : UInt8) (rest : List UInt8) :
    (rest.dropWhile p).length < (b :: rest).length :=
  Nat.lt_succ_of_le (List.dropWhile_sublist p).length_le

/-- The tokens of the bytes from a place on. -/
def scan (place : Position) : List UInt8 → Except ScriptError TokenStream
  | [] => .ok ⟨[], .point place⟩
  | b :: rest =>
    if isBlank b then scan (place.step b) rest
    else if b = leftParen then
      (scan (place.step b) rest).map (cons ⟨.leftParen, ⟨place, place.step b⟩⟩)
    else if b = rightParen then
      (scan (place.step b) rest).map (cons ⟨.rightParen, ⟨place, place.step b⟩⟩)
    else if startsSymbol b then
      let lexeme := b :: rest.takeWhile continuesSymbol
      let after := place.advance lexeme
      (scan after (rest.dropWhile continuesSymbol)).map
        (cons ⟨.symbol (Bytes.ofAscii lexeme), ⟨place, after⟩⟩)
    else if isDigit b then
      let lexeme := b :: rest.takeWhile isDigit
      let after := place.advance lexeme
      match Number.nearest? (Number.ofDigits lexeme) with
      | some value =>
        (scan after (rest.dropWhile isDigit)).map (cons ⟨.number value, ⟨place, after⟩⟩)
      | none => .error (.malformed expectedFinite place)
    else .error (.malformed expectedToken place)
  termination_by bytes => bytes.length
  decreasing_by
  · exact Nat.lt_succ_self _
  · exact Nat.lt_succ_self _
  · exact Nat.lt_succ_self _
  · exact length_dropWhile_lt ..
  · exact length_dropWhile_lt ..

/-- The tokens of a text given as bytes. They need not be valid UTF-8. -/
def ofBytes (bytes : List UInt8) : Except ScriptError TokenStream := scan .first bytes

/-- The tokens of a text. -/
def ofString (text : String) : Except ScriptError TokenStream := ofBytes (Bytes.utf8 text)

end SnapLisp.TokenStream
