/-!
# The parts of a double

The bits of a double split into a sign, an exponent field and a fraction. A finite double has the
magnitude `significand x * 2 ^ scale x` in units of `2 ^ -1074`, the smallest positive double; the
units keep every magnitude a natural number.
-/

namespace SnapLisp.Number

/-- The bits of a double, read as a natural number. -/
def bits (x : Float) : Nat := x.toBits.toNat

/-- Whether the sign bit is set. Negative zero has it set. -/
def isNegative (x : Float) : Bool := 1 <<< 63 ≤ bits x

/-- The eleven bits of the exponent field. -/
def exponentField (x : Float) : Nat := bits x >>> 52 % 2048

/-- The fifty-two bits after the exponent field. -/
def fraction (x : Float) : Nat := bits x % (1 <<< 52)

/-- The integer significand: below `2 ^ 52` only for zeros and subnormal doubles. -/
def significand (x : Float) : Nat :=
  if exponentField x = 0 then fraction x else 1 <<< 52 + fraction x

/-- The binary exponent of one unit of the significand, counted from that of the smallest double.
The subtraction stops at zero: subnormal doubles share the spacing of the smallest normal ones. -/
def scale (x : Float) : Nat := exponentField x - 1

/-- Whether the next smaller magnitude is only half as far away as the next larger one. It is at a
power of two, except at the smallest normal double. -/
def halvesBelow (x : Float) : Bool := fraction x = 0 && 1 < exponentField x

end SnapLisp.Number
