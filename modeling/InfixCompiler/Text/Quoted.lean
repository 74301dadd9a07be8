import InfixCompiler.Text.Unprinted

/-!
# Quoted text

A text between double quotes, in which every character can be seen. A character that has no
picture of its own is spelled by a backslash and a letter, or by its number in hexadecimal.
-/

namespace InfixCompiler.Text

/-- The spelling of one character of a quoted text. A single quote needs none. -/
def escape (c : Char) : String :=
  match c with
  | '\x00' => "\\0"
  | '\t' => "\\t"
  | '\n' => "\\n"
  | '\r' => "\\r"
  | '\\' => "\\\\"
  | '\"' => "\\\""
  | c =>
    if isUnprinted c then "\\u\x7b" ++ String.ofList (Nat.toDigits 16 c.toNat) ++ "\x7d"
    else String.singleton c

/-- `cs` between double quotes. -/
def quoted (cs : List Char) : String := "\"" ++ String.join (cs.map escape) ++ "\""

end InfixCompiler.Text
