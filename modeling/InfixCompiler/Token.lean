import InfixCompiler.Token.Kind
import InfixCompiler.Span
import InfixCompiler.Text.Layout

/-!
# Tokens

A token is a kind and a range of bytes; it holds no text. With the source it came from, or any
other, it has a text: the slice of its range. A `Lexeme` is a token together with that text, which
is all that reading a program needs to know of the source.
-/

namespace InfixCompiler

/-- A kind and the bytes it covers. -/
structure Token where
  /-- What the token is. -/
  kind : Kind
  /-- Its first byte. -/
  start : Nat
  /-- The number of its bytes. -/
  length : Nat
deriving DecidableEq

namespace Token

/-- The token at the end of a source of `size` bytes. -/
def endAt (size : Nat) : Token := ⟨.endOfSource, size, 0⟩

variable (t : Token)

/-- The byte after the last one. -/
def stop : Nat := t.start + t.length

/-- The range of the token in `source`. -/
def span (source : Source) : Span := ⟨source, t.start, t.length⟩

/-- The text of the token among the characters of a source. -/
def text (cs : List Char) : String := String.ofList (Text.slice t.start t.length cs)

/-- Where messages about the token point. The end of the source is after its last byte, whatever
range the token has. -/
def place (source : Source) : Span :=
  if t.kind = .endOfSource then Span.point source source.size else t.span source

/-- The token as a line of a log. -/
def render : String :=
  Text.alignLeft 22 s!"TokenType::{t.kind.name}" ++ s!" Start: {t.start}, Len: {t.length}"

end Token

/-- A token and its text. -/
structure Lexeme where
  /-- The token. -/
  token : Token
  /-- What is written there. -/
  text : String
deriving DecidableEq

/-- The kind of the token. -/
def Lexeme.kind (l : Lexeme) : Kind := l.token.kind

/-- The tokens with their texts in `source`. -/
def Source.lexemes (source : Source) (tokens : List Token) : List Lexeme :=
  let cs := source.chars
  tokens.map fun t ↦ ⟨t, t.text cs⟩

end InfixCompiler
