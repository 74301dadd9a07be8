/-!
# Kinds of tokens

A symbol or a keyword is spelled in one way; names, literals and the end of the source are not. Some
symbols begin with others, as `==` does with `=`: `Symbol.all` lists the longer ones first, so that
the first symbol of it that a text begins with is the longest.
-/

namespace InfixCompiler

/-- Punctuation and operators. -/
inductive Symbol where
  | leftParen | rightParen | leftBrace | rightBrace | comma | dot | semicolon | colon
  | minus | plus | star | slash
  | bang | bangEq | equal | equalEq | greater | greaterEq | less | lessEq
  | ellipsis | and | or
deriving DecidableEq

namespace Symbol

/-- The way a symbol is written. -/
def spelling : Symbol → String
  | leftParen => "("
  | rightParen => ")"
  | leftBrace => "\x7b"
  | rightBrace => "\x7d"
  | comma => ","
  | dot => "."
  | semicolon => ";"
  | colon => ":"
  | minus => "-"
  | plus => "+"
  | star => "*"
  | slash => "/"
  | bang => "!"
  | bangEq => "!="
  | equal => "="
  | equalEq => "=="
  | greater => ">"
  | greaterEq => ">="
  | less => "<"
  | lessEq => "<="
  | ellipsis => "..."
  | and => "&&"
  | or => "||"

/-- The name of a symbol in logs. -/
def name : Symbol → String
  | leftParen => "LeftParen"
  | rightParen => "RightParen"
  | leftBrace => "LeftBrace"
  | rightBrace => "RightBrace"
  | comma => "Comma"
  | dot => "Dot"
  | semicolon => "Semicolon"
  | colon => "Colon"
  | minus => "Minus"
  | plus => "Plus"
  | star => "Star"
  | slash => "Slash"
  | bang => "Bang"
  | bangEq => "BangEq"
  | equal => "Equal"
  | equalEq => "EqualEq"
  | greater => "Greater"
  | greaterEq => "GreaterEq"
  | less => "Less"
  | lessEq => "LessEq"
  | ellipsis => "Ellipsis"
  | and => "And"
  | or => "Or"

/-- Every symbol, those with longer spellings first. -/
def all : List Symbol :=
  [ellipsis, bangEq, equalEq, greaterEq, lessEq, and, or,
    leftParen, rightParen, leftBrace, rightBrace, comma, dot, semicolon, colon,
    minus, plus, star, slash, bang, equal, greater, less]

theorem mem_all (s : Symbol) : s ∈ all := by cases s <;> simp [all]

theorem spelling_ne_nil (s : Symbol) : s.spelling.toList ≠ [] := by
  cases s <;> simp [spelling]

end Symbol

/-- Reserved words. Only `func` and `return` have a use so far. -/
inductive Keyword where
  | case | «class» | const | default | «else» | enum | «export» | false | «for» | func | «if»
  | «import» | nil | «return» | static | switch | true | var
deriving DecidableEq

namespace Keyword

/-- The way a keyword is written. -/
def spelling : Keyword → String
  | case => "case"
  | «class» => "class"
  | const => "const"
  | default => "default"
  | «else» => "else"
  | enum => "enum"
  | «export» => "export"
  | false => "false"
  | «for» => "for"
  | func => "func"
  | «if» => "if"
  | «import» => "import"
  | nil => "nil"
  | «return» => "return"
  | static => "static"
  | switch => "switch"
  | true => "true"
  | var => "var"

/-- Every keyword. -/
def all : List Keyword :=
  [case, «class», const, default, «else», enum, «export», false, «for», func, «if», «import», nil,
    «return», static, switch, true, var]

/-- The name of a keyword in logs. -/
def name (k : Keyword) : String := k.spelling.capitalize

/-- The keyword that is written as `word`. -/
def ofSpelling? (word : List Char) : Option Keyword :=
  all.find? fun k ↦ k.spelling.toList == word

theorem mem_all (k : Keyword) : k ∈ all := by cases k <;> simp [all]

end Keyword

/-- What a token is. -/
inductive Kind where
  /-- Punctuation or an operator. -/
  | symbol (s : Symbol)
  /-- A reserved word. -/
  | keyword (k : Keyword)
  /-- A name. -/
  | identifier
  /-- A text between double quotes. -/
  | string
  /-- A character between single quotes. -/
  | character
  /-- Decimal digits. -/
  | number
  /-- The place after the last character. -/
  | endOfSource
deriving DecidableEq

namespace Kind

/-- The fixed spelling of a symbol or keyword. -/
def spelling? : Kind → Option String
  | symbol s => some s.spelling
  | keyword k => some k.spelling
  | _ => none

/-- Whether the kind is a reserved word. -/
def isKeyword : Kind → Bool
  | keyword _ => true
  | _ => false

/-- The name of a kind in logs. -/
def name : Kind → String
  | symbol s => s.name
  | keyword k => k.name
  | identifier => "Ident"
  | string => "String"
  | character => "Char"
  | number => "Number"
  | endOfSource => "End"

/-- What messages call a token of this kind. -/
def describe : Kind → String
  | symbol s => s!"`{s.spelling}`"
  | keyword k => s!"keyword `{k.spelling}`"
  | identifier => "an identifier"
  | string => "a string literal"
  | character => "a character literal"
  | number => "a number"
  | endOfSource => "the end of the source"

/-- Every kind. -/
def all : List Kind :=
  Symbol.all.map symbol ++ Keyword.all.map keyword ++
    [identifier, string, character, number, endOfSource]

theorem mem_all (k : Kind) : k ∈ all := by
  cases k <;> simp [all, Symbol.mem_all, Keyword.mem_all]

end Kind

end InfixCompiler
