/-!
# The range of binary64

A number that is not a plain natural number is read as a binary64 float, and the text is refused
where that is infinite.  Here the rule is stated on exact naturals: the significand and the power
of ten are each rounded to 53 bits, and their product overflows from `Binary64.limit` on.
-/

set_option autoImplicit false

namespace Hart
namespace Json
namespace Binary64

/-- A natural number rounded to 53 significant bits, a tie to the even neighbour. -/
def round (n : Nat) : Nat :=
  let unit := 1 <<< (n.log2 - 52)
  let quotient := n / unit
  let rest := n % unit
  if unit < 2 * rest ∨ unit = 2 * rest ∧ quotient % 2 = 1 then
    (quotient + 1) * unit
  else
    quotient * unit

/-- The least number that rounds to infinity: half a unit above the largest finite float, where the
tie goes up. -/
def limit : Nat :=
  1 <<< 1024 - 1 <<< 970

/-- The largest power of ten that is a finite float. -/
def maxPower : Nat := 308

/-- Whether `significand * 10 ^ exponent`, computed in binary64, is infinite.  A negative exponent
divides, which never overflows. -/
def overflows (significand : Nat) (exponent : Int) : Bool :=
  if significand = 0 ∨ exponent < 0 then
    false
  else if (maxPower : Int) < exponent then
    true
  else
    limit ≤ round significand * round (Nat.pow 10 exponent.toNat)

end Binary64
end Json
end Hart
