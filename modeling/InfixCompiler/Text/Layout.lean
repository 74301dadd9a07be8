/-!
# Laying text out in columns

Padding to a width in characters. Text that is already as wide as asked is left alone, and `clip`
is the only function here that shortens.
-/

namespace InfixCompiler.Text

/-- `n` spaces. -/
def blank (n : Nat) : String := String.ofList (List.replicate n ' ')

/-- `s` at the left of a field of `width` characters. -/
def alignLeft (width : Nat) (s : String) : String := s ++ blank (width - s.length)

/-- `s` at the right of a field of `width` characters. -/
def alignRight (width : Nat) (s : String) : String := blank (width - s.length) ++ s

/-- `s` in the middle of a field of `width` characters whose margins are filled with `fill`. Of an
odd number of characters the right margin has one more. -/
def centre (fill : Char) (width : Nat) (s : String) : String :=
  let margin := width - s.length
  String.ofList (List.replicate (margin / 2) fill) ++ s ++
    String.ofList (List.replicate (margin - margin / 2) fill)

/-- The first `width` characters of `s`. -/
def clip (width : Nat) (s : String) : String := String.ofList (s.toList.take width)

/-- `n` in decimal, with zeros in front up to `width` digits. -/
def numberRight (width n : Nat) : String :=
  let digits := Nat.toDigits 10 n
  String.ofList (List.replicate (width - digits.length) '0' ++ digits)

@[simp] theorem length_blank (n : Nat) : (blank n).length = n := by
  simp [blank]

theorem length_alignLeft (width : Nat) (s : String) :
    (alignLeft width s).length = max width s.length := by
  simp [alignLeft]
  omega

/-- One line of output: `s` and a line end. -/
def row (s : String) : String := s ++ "\n"

/-- The lines `rows`, each with its line end. -/
def rows (lines : List String) : String := String.join (lines.map row)

end InfixCompiler.Text
