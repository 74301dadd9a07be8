import InfixCompiler.Binary64.Nearest

/-!
# Reading numbers

The written form of a number: an optional sign, then digits with an optional point and an optional
decimal exponent, or the name of an infinity or a NaN in any case. A digit must stand on at least
one side of the point, and nothing else may be in the text. The value is the nearest number.
-/

namespace InfixCompiler.Binary64

/-- The digits at the front of `cs`, and the rest. -/
def spanDigits (cs : List Char) : List Char × List Char :=
  (cs.takeWhile Char.isDigit, cs.dropWhile Char.isDigit)

/-- The natural number that decimal digits spell. -/
def digitsValue (cs : List Char) : Nat := Nat.ofDigitChars 10 cs 0

/-- The size of an exponent. Digits after the point where it has passed `65535` do not count, as no
number is that large or small. -/
def exponentSize (cs : List Char) : Nat :=
  cs.foldl (fun size c ↦ if size < 65536 then 10 * size + (c.toNat - '0'.toNat) else size) 0

/-- Takes a sign from the front of `cs`: whether it is a minus, and the rest. -/
def takeSign : List Char → Bool × List Char
  | '-' :: cs => (true, cs)
  | '+' :: cs => (false, cs)
  | cs => (false, cs)

/-- The exponent that the rest of a number spells, zero if nothing is left. -/
def exponent? : List Char → Option Int
  | [] => some 0
  | c :: cs =>
    if c = 'e' ∨ c = 'E' then
      let (negative, cs) := takeSign cs
      let (digits, rest) := spanDigits cs
      if digits = [] ∨ rest ≠ [] then none
      else some (if negative then -(exponentSize digits : Int) else exponentSize digits)
    else none

/-- The digits after a point at the front of `cs`, and the rest. -/
def takeFraction : List Char → List Char × List Char
  | '.' :: cs => spanDigits cs
  | cs => ([], cs)

/-- The number that `cs` spells in digits. -/
def readDecimal? (cs : List Char) : Option Binary64 :=
  let (whole, rest) := spanDigits cs
  let (fraction, rest) := takeFraction rest
  if whole ++ fraction = [] then none
  else (exponent? rest).map fun exponent ↦
    nearestDecimal (digitsValue (whole ++ fraction)) (exponent - fraction.length)

/-- The number that `cs` spells without a sign. -/
def readUnsigned? (cs : List Char) : Option Binary64 :=
  let name := cs.map Char.toLower
  if name = ['i', 'n', 'f'] ∨ name = ['i', 'n', 'f', 'i', 'n', 'i', 't', 'y'] then some infinity
  else if name = ['n', 'a', 'n'] then some nan
  else readDecimal? cs

/-- The number that `cs` spells. -/
def read? (cs : List Char) : Option Binary64 :=
  let (negative, rest) := takeSign cs
  (readUnsigned? rest).map fun x ↦ if negative then x.negate else x

end InfixCompiler.Binary64
