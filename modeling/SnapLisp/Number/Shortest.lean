import SnapLisp.Number.Binary

/-!
# The fewest digits that read back

The reals that round to a given double form an interval around it, with its ends exactly when the
significand is even. `Interval.ofFloat` writes the double and the ends of its interval as whole
multiples of `10 ^ -places`, so every question about them is one about natural numbers.

A decimal grid is the set of multiples of a power of ten. Grids are tried from the coarsest down:
the first one with a point in the interval gives the fewest digits. A grid has at most two points
that matter, the neighbours of the double on it (`Interval.onGrid?`); of two that read back the
nearer is taken, and `Tie` says what becomes of an exact tie. The grid of step one always has a
point in the interval, namely the double itself, so the search ends there.
-/

namespace SnapLisp.Number

/-- Which of two candidates at the same distance is written. -/
inductive Tie where
  /-- The larger one. -/
  | up
  /-- The one whose last digit is even. -/
  | even
  deriving DecidableEq, Repr

/-- The positive decimal `digits * 10 ^ exponent`. -/
structure Decimal where
  digits : Nat
  exponent : Int
  deriving DecidableEq, Repr

/-- A positive number with the interval of reals that round to it, in a unit common to all three. -/
structure Interval where
  lower : Nat
  value : Nat
  upper : Nat
  /-- Whether the two ends round to the number too. -/
  closed : Bool
  deriving DecidableEq, Repr

namespace Interval

/-- Whether a number of units rounds to the value. -/
def holds (i : Interval) (n : Nat) : Bool :=
  if i.closed then i.lower ≤ n && n ≤ i.upper else i.lower < n && n < i.upper

/-- The multiple of `step` that is nearest to the value among those in the interval, given by its
factor. -/
def onGrid? (i : Interval) (tie : Tie) (step : Nat) : Option Nat :=
  let below := i.value / step
  let above := below + 1
  match i.holds (below * step), i.holds (above * step) with
  | true, true =>
    match compare (i.value - below * step) (above * step - i.value) with
    | .lt => some below
    | .gt => some above
    | .eq =>
      match tie with
      | .up => some above
      | .even => some (below + below % 2)
  | true, false => some below
  | false, true => some above
  | false, false => none

/-- The point in the interval on the coarsest grid of step at most `10 ^ k`, as its factor and the
exponent of the step. -/
def coarsest (i : Interval) (tie : Tie) : Nat → Nat × Nat
  | 0 => (i.value, 0)
  | k + 1 =>
    match i.onGrid? tie (Nat.pow 10 (k + 1)) with
    | some digits => (digits, k + 1)
    | none => i.coarsest tie k

end Interval

/-- The number of decimal places that the double and the ends of its interval need at most. -/
def places (x : Float) : Nat := 1076 - scale x

/-- A quarter of the spacing of doubles at `x`, in units of `10 ^ -places x`. Of the two
subtractions from `scale x` and from 1076 one stops at zero, so the product is whole. -/
def quarter (x : Float) : Nat := Nat.pow 5 (1076 - scale x) <<< (scale x - 1076)

/-- The magnitude of a finite double and the reals that round to it, in units of
`10 ^ -places x`. -/
def Interval.ofFloat (x : Float) : Interval :=
  let value := 4 * significand x * quarter x
  let gap := if halvesBelow x then quarter x else 2 * quarter x
  ⟨value - gap, value, value + 2 * quarter x, significand x % 2 = 0⟩

/-- The decimal of the fewest digits that reads back as the magnitude of `x`, and of those the
nearest one. A power of ten beyond the value starts the search: a number of `b` bits is below
`8 ^ (b / 3 + 1)`. -/
def shortest (tie : Tie) (x : Float) : Decimal :=
  let i := Interval.ofFloat x
  let (digits, exponent) := i.coarsest tie (i.value.log2 / 3 + 1)
  ⟨digits, exponent - places x⟩

end SnapLisp.Number
