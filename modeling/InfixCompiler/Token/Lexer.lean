import InfixCompiler.Token
import InfixCompiler.Diagnostic

/-!
# Reading text as tokens

Between tokens there may be blanks, which separate and mean nothing. A token is the longest one that
the text left over begins with. What it is shows in its first character, so nothing is ever read
twice: a symbol begins as no name, number or literal does.

A cut of the text into its first token and the rest is a `Munch`, which carries the proof that it
loses nothing and is not empty; the scan ends because the rest gets shorter.

The scan keeps the tokens found before a failure, for those who want to know how far it came.
-/

namespace InfixCompiler

/-! ## Classes of characters -/

/-- The characters that separate tokens: space, tab, line feed, form feed and carriage return. -/
def isBlank (c : Char) : Bool :=
  c == ' ' || c == '\t' || c == '\n' || c == '\x0c' || c == '\r'

/-- The characters of a name. -/
def isNameChar (c : Char) : Bool := c == '_' || c.isAlphanum

/-- The characters that a name can begin with. -/
def isNameStart (c : Char) : Bool := c == '_' || c.isAlpha

/-! ## Failures -/

/-- Why a text begins with no token. -/
inductive LexFault where
  /-- A `&` that is not doubled. -/
  | loneAmpersand
  /-- A `|` that is not doubled. -/
  | lonePipe
  /-- A double quote that is not closed. -/
  | openString
  /-- A single quote without one character and a closing quote after it. -/
  | openCharacter
  /-- A character that begins nothing. -/
  | unrecognized (c : Char)
deriving DecidableEq

namespace LexFault

/-- The kind of the diagnostic. -/
def kind : LexFault → TokenizingKind
  | loneAmpersand | lonePipe => .unpairedOperator
  | openString | openCharacter => .unterminatedLiteral
  | unrecognized _ => .unrecognizedCharacter

/-- The failure in words. -/
def reason : LexFault → String
  | loneAmpersand => "Singleton ampersand `&` found"
  | lonePipe => "Singleton pipe `|` found"
  | openString => "Unexpected end of source while parsing string literal"
  | openCharacter => "Character literal is missing its closing quote"
  | unrecognized c =>
    "Hmm... The character `" ++ String.singleton c ++ "` is not recognized in this context - " ++
      "check for encoding issues or typos"

/-- What could mend the failure. -/
def hint? : LexFault → Option String
  | loneAmpersand => some "did you mean `&&`?"
  | lonePipe => some "did you mean `||`?"
  | openString => some "string literal starts here"
  | openCharacter => some "a character literal holds exactly one character, like `'a'`"
  | unrecognized _ => none

/-- The number of bytes of the character that is to blame. -/
def width : LexFault → Nat
  | unrecognized c => c.utf8Size
  | _ => 1

end LexFault

/-- A fault and the byte it is at. -/
structure LexFailure where
  /-- The first byte that belongs to no token. -/
  offset : Nat
  /-- What is wrong there. -/
  fault : LexFault
deriving DecidableEq

/-- The failure as a reader is told of it. -/
def LexFailure.diagnostic (source : Source) (f : LexFailure) : Diagnostic where
  kind := .tokenizing f.fault.kind
  reason := f.fault.reason
  notes := [⟨⟨source, f.offset, f.fault.width⟩, f.fault.hint?⟩]

/-! ## One token -/

/-- The first token of `input` and what is left. -/
structure Munch (input : List Char) where
  /-- What the token is. -/
  kind : Kind
  /-- Its characters. -/
  text : List Char
  /-- The characters after it. -/
  rest : List Char
  /-- Nothing is lost. -/
  text_append_rest : text ++ rest = input
  /-- A token has characters. -/
  text_ne_nil : text ≠ []

/-- A list with `x` in it is cut in two at the first `x`. -/
theorem takeWhile_append_cons_tail_dropWhile {x : Char} {cs : List Char} (h : x ∈ cs) :
    cs.takeWhile (· != x) ++ x :: (cs.dropWhile (· != x)).tail = cs := by
  induction cs with
  | nil => simp at h
  | cons c cs ih =>
    by_cases hc : c = x
    · simp [hc]
    · have h' : x ∈ cs := by simpa [Ne.symm hc] using h
      simp [hc, ih h']

namespace Munch

/-- A symbol that the input begins with. -/
def ofSymbol {input : List Char} (s : Symbol) (h : s.spelling.toList <+: input) : Munch input where
  kind := .symbol s
  text := s.spelling.toList
  rest := input.drop s.spelling.toList.length
  text_append_rest := List.prefix_iff_eq_append.mp h
  text_ne_nil := s.spelling_ne_nil

/-- The longest symbol that the input begins with. -/
def symbol? (input : List Char) : Option (Munch input) :=
  Symbol.all.findSome? fun s ↦ if h : s.spelling.toList <+: input then some (ofSymbol s h) else none

/-- The first character and all after it that are in the class `p`. The text decides the kind. -/
def run (kind : List Char → Kind) (p : Char → Bool) (c : Char) (cs : List Char) :
    Munch (c :: cs) where
  kind := kind (c :: cs.takeWhile p)
  text := c :: cs.takeWhile p
  rest := cs.dropWhile p
  text_append_rest := by simp
  text_ne_nil := by simp

/-- The first character and all up to the next double quote. -/
def string (c : Char) (cs : List Char) : Except LexFault (Munch (c :: cs)) :=
  if h : '\"' ∈ cs then .ok
    { kind := .string
      text := c :: cs.takeWhile (· != '\"') ++ ['\"']
      rest := (cs.dropWhile (· != '\"')).tail
      text_append_rest := by simp [takeWhile_append_cons_tail_dropWhile h]
      text_ne_nil := by simp }
  else .error .openString

/-- The first character, any other one and a single quote. -/
def character (c : Char) : (cs : List Char) → Except LexFault (Munch (c :: cs))
  | d :: '\'' :: rest => .ok
    { kind := .character
      text := [c, d, '\'']
      rest
      text_append_rest := by simp
      text_ne_nil := by simp }
  | _ => .error .openCharacter

/-- The kind of a name, which may be reserved. -/
def nameKind (word : List Char) : Kind :=
  match Keyword.ofSpelling? word with
  | some k => .keyword k
  | none => .identifier

/-- The longest token that `c :: cs` begins with. -/
def first (c : Char) (cs : List Char) : Except LexFault (Munch (c :: cs)) :=
  match symbol? (c :: cs) with
  | some m => .ok m
  | none =>
    if c.isDigit then .ok (run (fun _ ↦ .number) Char.isDigit c cs)
    else if isNameStart c then .ok (run nameKind isNameChar c cs)
    else if c = '\"' then string c cs
    else if c = '\'' then character c cs
    else if c = '&' then .error .loneAmpersand
    else if c = '|' then .error .lonePipe
    else .error (.unrecognized c)

theorem length_rest_lt {input : List Char} (m : Munch input) : m.rest.length < input.length := by
  have h := congrArg List.length m.text_append_rest
  have := List.length_pos_iff.mpr m.text_ne_nil
  simp only [List.length_append] at h
  omega

end Munch

/-! ## All tokens -/

/-- The tokens that were found, and what ended the search before the text did. -/
structure Scan where
  /-- The tokens in order. -/
  tokens : List Token
  /-- What is wrong after them. -/
  failure? : Option LexFailure
deriving DecidableEq

/-- A token in front of a scan. -/
def Scan.cons (t : Token) (s : Scan) : Scan := { s with tokens := t :: s.tokens }

/-- The tokens of `cs`, which begins at byte `offset` of a source. -/
def scan (offset : Nat) : List Char → Scan
  | [] => ⟨[], none⟩
  | c :: cs =>
    if isBlank c then scan (offset + c.utf8Size) cs
    else
      match Munch.first c cs with
      | .error fault => ⟨[], some ⟨offset, fault⟩⟩
      | .ok m =>
        let token : Token := ⟨m.kind, offset, Text.byteLength m.text⟩
        (scan token.stop m.rest).cons token
termination_by cs => cs.length
decreasing_by
  · simp
  · exact m.length_rest_lt

namespace Source

variable (s : Source)

/-- The scan of the whole source. -/
def scan : Scan := InfixCompiler.scan 0 s.chars

/-- The tokens of a source, with the end as the last of them. -/
def tokens : Except LexFailure (List Token) :=
  match s.scan.failure? with
  | none => .ok (s.scan.tokens ++ [.endAt s.size])
  | some failure => .error failure

end Source

end InfixCompiler
