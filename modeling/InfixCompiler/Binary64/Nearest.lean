import InfixCompiler.Binary64

/-!
# The nearest binary number

Rounding of a ratio of natural numbers to the nearest number of 64 bits, ties to the one whose last
bit is zero. In units a number is `m * 2 ^ shift` with `m` below `2 ^ 53`, so the ratio is divided
at the place that leaves 53 bits, or at the unit itself if that is higher. The place and the rounded
quotient add up to the bits: a quotient that rounds up to `2 ^ 53` carries into the exponent by
itself.
-/

namespace InfixCompiler.Binary64

/-- The quotient rounded to the nearest whole number, a tie to the even one. -/
def divideToEven (num den : Nat) : Nat :=
  let quotient := num / den
  let remainder := num % den
  if 2 * remainder < den then quotient
  else if 2 * remainder = den then quotient + quotient % 2
  else quotient + 1

/-- The number nearest to `num / den`, infinity if it is beyond the finite ones. -/
def nearest (num den : Nat) : Binary64 :=
  let scaled := num * 2 ^ unitExponent
  let shift := (scaled / den).log2 - fractionWidth
  let significand := divideToEven scaled (den * 2 ^ shift)
  ofMagnitude (min (shift * 2 ^ fractionWidth + significand) infinityBits)

/-- The number nearest to `digits * 10 ^ exponent`. A value of which the highest digit alone is out
of range is not computed. -/
def nearestDecimal (digits : Nat) (exponent : Int) : Binary64 :=
  if digits = 0 then zero
  else
    let highest : Int := (Nat.toDigits 10 digits).length + exponent
    if 400 < highest then infinity
    else if highest < -400 then zero
    else if 0 ≤ exponent then nearest (digits * 10 ^ exponent.toNat) 1
    else nearest digits (10 ^ (-exponent).toNat)

end InfixCompiler.Binary64
