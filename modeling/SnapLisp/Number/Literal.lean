import SnapLisp.Number.Binary

/-!
# From a natural number to the nearest double

A digit run denotes a natural number of any size. `nearest?` is the double nearest to it, of two
equally near ones that with the even significand. The rounding is done on natural numbers: the
number is scaled to 53 significant bits, and a carry out of them moves on into the exponent field
by itself. A number that rounds to `2 ^ 1024` or more has no double.
-/

namespace SnapLisp.Number

/-- `n / 2 ^ places` rounded to the nearest natural number, a half to the even one. -/
def shiftToEven (n places : Nat) : Nat :=
  let unit := 1 <<< places
  let quotient := n / unit
  let remainder := n % unit
  if 2 * remainder < unit then quotient
  else if unit < 2 * remainder then quotient + 1
  else quotient + quotient % 2

/-- The bits that are those of infinity and of no finite double. -/
def infinityBits : Nat := 2047 <<< 52

/-- The bits of the double nearest to `n`, unbounded: they reach `infinityBits` where `n` is too
large. For `n` between `2 ^ b` and `2 ^ (b + 1)` the exponent field is `b + 1023`, and the leading
one of the significand stands for one of its units. -/
def nearestBits (n : Nat) : Nat :=
  if n = 0 then 0
  else
    let b := n.log2
    (b + 1022) <<< 52 + (if b ≤ 52 then n <<< (52 - b) else shiftToEven n (b - 52))

/-- The double nearest to `n`, unless `n` is too large for a finite one. -/
def nearest? (n : Nat) : Option Float :=
  if nearestBits n < infinityBits then some (Float.ofBits (UInt64.ofNat (nearestBits n))) else none

/-- The natural number that a run of ASCII digits denotes. -/
def ofDigits (digits : List UInt8) : Nat := digits.foldl (fun n d => 10 * n + (d.toNat - 48)) 0

end SnapLisp.Number
