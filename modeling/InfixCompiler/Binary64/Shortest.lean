import InfixCompiler.Binary64.Reader

/-!
# Printing numbers

A finite number is printed with the fewest digits that read back as it, never with an exponent. For
one digit, two digits and so on the two decimals next to the number are tried, the nearer first and
of two equally near the larger; the first that reads back is printed. Whether it does is asked of
the reader itself, so different numbers have different texts.

Seventeen digits always suffice. Past them the exact value is printed, which every binary number has
since ten is even.
-/

namespace InfixCompiler.Binary64

/-! ## Positional decimals -/

/-- The digits of `n`, with zeros in front up to `width` digits. -/
def paddedDigits (width n : Nat) : List Char :=
  let digits := Nat.toDigits 10 n
  List.replicate (width - digits.length) '0' ++ digits

/-- The digits of a fraction, with its point, without the zeros that end it. -/
def fractionText (digits : List Char) : List Char :=
  match (digits.reverse.dropWhile (· == '0')).reverse with
  | [] => []
  | significant => '.' :: significant

/-- `digits / 10 ^ places` as a decimal. -/
def decimalText (digits places : Nat) : List Char :=
  let all := paddedDigits (places + 1) digits
  all.take (all.length - places) ++ fractionText (all.drop (all.length - places))

/-- `digits * 10 ^ exponent` as a decimal. -/
def positional (digits : Nat) (exponent : Int) : List Char :=
  if 0 ≤ exponent then decimalText (digits * 10 ^ exponent.toNat) 0
  else decimalText digits (-exponent).toNat

/-! ## Neighbours on a decimal grid -/

variable (x : Binary64)

/-- The magnitude of `x` divided by `10 ^ exponent`, as numerator and denominator. -/
def ratio (exponent : Int) : Nat × Nat :=
  if 0 ≤ exponent then (x.units, 2 ^ unitExponent * 10 ^ exponent.toNat)
  else (x.units * 10 ^ (-exponent).toNat, 2 ^ unitExponent)

/-- The exponent of the digit in front of the first digit of `x`. The digits of `x` are counted
where even the least number has some before the point. -/
def highestPlace : Int :=
  let (num, den) := x.ratio (-350)
  (Nat.toDigits 10 (num / den)).length - 350

/-- The two multiples of `10 ^ exponent` around `x`, the nearer first. -/
def neighbours (exponent : Int) : List (List Char) :=
  let (num, den) := x.ratio exponent
  let lower := num / den
  let upper := lower + 1
  (if den ≤ 2 * (num % den) then [upper, lower] else [lower, upper]).map (positional · exponent)

/-- The decimal of `count` digits that reads back as the magnitude of `x`, if one does. -/
def decimalOf? (count : Nat) : Option (List Char) :=
  (x.neighbours (x.highestPlace - count)).find? fun text ↦
    read? text = some (ofMagnitude x.magnitude)

/-- Every digit of `x`. A unit is `5 ^ unitExponent` in its last decimal place. -/
def exact : List Char := decimalText (x.units * 5 ^ unitExponent) unitExponent

/-! ## Printing -/

/-- The magnitude of a number that is not a NaN. -/
def renderMagnitude : List Char :=
  if x.isInfinite then ['i', 'n', 'f']
  else ((List.range' 1 17).findSome? x.decimalOf?).getD x.exact

/-- The text of a number. A NaN is printed without sign or payload. -/
def render : String :=
  if x.isNaN then "NaN"
  else String.ofList ((if x.isNegative then ['-'] else []) ++ x.renderMagnitude)

end InfixCompiler.Binary64
