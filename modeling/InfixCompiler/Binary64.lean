/-!
# Binary floating point numbers of 64 bits

A number is its 64 bits, so that the sign of a zero and the payload of a NaN are kept and `=` tells
them apart. The comparison of numbers, for which a NaN is unequal to itself and the two zeros are
equal, is `ieeeEq`.

A finite magnitude is a whole number of units of `2 ^ -1074`, the least positive number there is.
Rounding and printing work on that number in `Nat`, and its powers are those of `Nat` in whatever
theory these modules are read.
-/

namespace InfixCompiler

/-- A number of the IEEE format of 64 bits. -/
structure Binary64 where
  /-- Sign, exponent and fraction, from the highest bit down. -/
  bits : UInt64
deriving DecidableEq

namespace Binary64

/-- Powers are those of `Nat`, also where another theory has powers of its own. -/
scoped instance (priority := 2000) natPower : Pow Nat Nat := instPowNat

/-- The number of bits of the fraction. The exponent is above them. -/
abbrev fractionWidth : Nat := 52

/-- The place of the sign bit, which is above the exponent. -/
abbrev signPlace : Nat := 63

/-- One is `2 ^ unitExponent` units. -/
abbrev unitExponent : Nat := 1074

/-- The bits of infinity, which are above those of every finite magnitude. -/
def infinityBits : Nat := 0x7FF0000000000000

/-- The number without a sign whose bits are `n`. -/
def ofMagnitude (n : Nat) : Binary64 := ⟨UInt64.ofNat n⟩

/-- Zero. -/
def zero : Binary64 := ofMagnitude 0

/-- Infinity. -/
def infinity : Binary64 := ofMagnitude infinityBits

/-- The NaN that a text names. -/
def nan : Binary64 := ofMagnitude 0x7FF8000000000000

variable (x y : Binary64)

/-- The bits apart from the sign. -/
def magnitude : Nat := x.bits.toNat % 2 ^ signPlace

/-- Whether the sign bit is set. -/
def isNegative : Bool := 2 ^ signPlace ≤ x.bits.toNat

/-- The number with its sign bit turned over. -/
def negate : Binary64 := ⟨x.bits ^^^ 0x8000000000000000⟩

/-- Whether the number is not a number. -/
def isNaN : Bool := infinityBits < x.magnitude

/-- Whether the number is an infinity. -/
def isInfinite : Bool := x.magnitude == infinityBits

/-- Whether the number is a zero of either sign. -/
def isZero : Bool := x.magnitude == 0

/-- Equality as numbers. -/
def ieeeEq : Bool := !x.isNaN && !y.isNaN && (x == y || x.isZero && y.isZero)

/-- How many doublings of the unit make one in the last place of the number. -/
def shift : Nat := x.magnitude / 2 ^ fractionWidth - 1

/-- The magnitude of a finite number in units. Taking the shift out of the bits leaves the
significand, with a leading one if the number is normal. -/
def units : Nat := (x.magnitude - x.shift * 2 ^ fractionWidth) * 2 ^ x.shift

theorem ieeeEq_comm : x.ieeeEq y = y.ieeeEq x := by
  rw [Bool.eq_iff_iff]
  simp only [ieeeEq, Bool.and_eq_true, Bool.or_eq_true, beq_iff_eq]
  grind

theorem ieeeEq_self : x.ieeeEq x = !x.isNaN := by
  simp [ieeeEq]

end Binary64

end InfixCompiler
