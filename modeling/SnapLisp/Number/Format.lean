import SnapLisp.Number.Shortest

/-!
# Numbers as text

A `Format` holds the decisions that a notation for doubles makes; `Format.text` follows them. The
digits are always the fewest that read back. `Format.display` is how a value is shown,
`Format.source` how a number stands in the text of a form, and `Format.json` how it stands in a JSON
document.
-/

namespace SnapLisp.Number

/-- How doubles are written. -/
structure Format where
  /-- What becomes of two shortest decimals at the same distance. -/
  tie : Tie
  /-- Whether negative zero keeps its sign. -/
  signedZero : Bool
  /-- Whether a whole number ends in `.0` in positional notation. -/
  point : Bool
  /-- The smallest and the largest exponent of the leading digit that positional notation is used
  for; beyond them a number has an exponent. Without them it never has one. -/
  positional : Option (Int × Int)
  /-- The text of infinity, without its sign. -/
  infinity : String
  deriving DecidableEq, Repr

namespace Decimal

/-- The exponent of the leading digit. -/
def leading (d : Decimal) : Int := (Nat.toDigits 10 d.digits).length - 1 + d.exponent

/-- The decimal in positional notation; `point` asks for a `.0` after a whole number. -/
def positional (d : Decimal) (point : Bool) : List Char :=
  let digits := Nat.toDigits 10 d.digits
  let before := d.leading + 1
  if before ≤ 0 then '0' :: '.' :: (List.replicate before.natAbs '0' ++ digits)
  else if digits.length ≤ before.natAbs then
    digits ++ List.replicate (before.natAbs - digits.length) '0' ++
      (if point then ['.', '0'] else [])
  else digits.take before.natAbs ++ '.' :: digits.drop before.natAbs

/-- An exponent with its sign and no padding. -/
def exponentText (e : Int) : List Char :=
  (if e < 0 then '-' else '+') :: Nat.toDigits 10 e.natAbs

/-- The decimal with one digit before the point, and an exponent. -/
def scientific (d : Decimal) : List Char :=
  match Nat.toDigits 10 d.digits with
  | [] => []
  | head :: tail =>
    head :: (if tail.isEmpty then [] else '.' :: tail) ++ 'e' :: exponentText d.leading

end Decimal

namespace Format

/-- The text of a positive decimal. -/
def decimal (f : Format) (d : Decimal) : List Char :=
  match f.positional with
  | none => d.positional f.point
  | some (least, greatest) =>
    if least ≤ d.leading && d.leading ≤ greatest then d.positional f.point else d.scientific

/-- The text of the magnitude of a double that is no NaN. -/
def magnitude (f : Format) (x : Float) : List Char :=
  if x.isInf then f.infinity.toList
  else if significand x = 0 then '0' :: (if f.point then ['.', '0'] else [])
  else f.decimal (shortest f.tie x)

/-- Whether a minus sign is written. -/
def signed (f : Format) (x : Float) : Bool :=
  isNegative x && (f.signedZero || x.isInf || significand x != 0)

/-- The text of a double. -/
def text (f : Format) (x : Float) : String :=
  if x.isNaN then "NaN"
  else String.ofList (if f.signed x then '-' :: f.magnitude x else f.magnitude x)

/-- How a value is shown: both zeros alike, never an exponent, ties up. -/
def display : Format := ⟨.up, false, false, none, "Infinity"⟩

/-- How a number stands in the text of a form: as a value is shown, but for negative zero and the
infinities. -/
def source : Format := ⟨.up, true, false, none, "inf"⟩

/-- How a number stands in a JSON document: whole numbers keep a point, and a leading digit below
`10 ^ -5` or above `10 ^ 15` brings an exponent. Ties go to the even digit. Documents hold finite
numbers only. -/
def json : Format := ⟨.even, true, true, some (-5, 15), "Infinity"⟩

end Format

end SnapLisp.Number
