import InfixCompiler.Excerpt

/-!
# Diagnostics

A diagnostic is what a reader is told when something failed: the kind of the failure, its reason in
words, and notes that point into the source. Each stage has causes of its own and says them as a
diagnostic; two kinds belong to whoever runs the code that is generated here.
-/

namespace InfixCompiler

/-- Why a text is not a sequence of tokens. -/
inductive TokenizingKind where
  /-- A lone `&` or `|`. -/
  | unpairedOperator
  /-- A string or character without its closing quote. -/
  | unterminatedLiteral
  /-- A character that begins no token. -/
  | unrecognizedCharacter
deriving DecidableEq

/-- Which part of the work failed. -/
inductive DiagnosticKind where
  /-- Reading the text as tokens. -/
  | tokenizing (cause : TokenizingKind)
  /-- Reading the tokens as a program. -/
  | parsing
  /-- Lowering a tree to code. -/
  | generation
  /-- Finding a function by its name. -/
  | name
  /-- Loading or running code. -/
  | runtime
deriving DecidableEq

/-- The title of the diagnostics of one kind. -/
def DiagnosticKind.title : DiagnosticKind → String
  | .tokenizing _ => "Tokenizing Error"
  | .parsing => "Parsing Error"
  | .generation => "Bytecode Generation Error"
  | .name => "Name Error"
  | .runtime => "Runtime Error"

/-- A place in a source, and what a reader could look for there. -/
structure Note where
  /-- The place. -/
  span : Span
  /-- What is special about it. -/
  hint? : Option String
deriving DecidableEq

/-- An excerpt as a note shows it. Without a hint it is the excerpt alone, and below several lines a
hint has a row of its own. Below a single line the hint is in the row of carets, so the rows of the
excerpt are written once more here, with a row of the gutter after them. -/
def Excerpt.renderWithHint (e : Excerpt) (hint? : Option String) : String :=
  match hint?, h : e.caretCount? with
  | some hint, some caretCount =>
    have := length_lines_pos h
    let gutter := Text.blank e.gutterWidth
    let carets := String.ofList (List.replicate caretCount '^')
    Text.rows
      [s!"In {e.path}:{e.firstLine + 1}:{e.startColumn + 1}",
        s!"{gutter} |",
        s!"{e.firstLine + 1} | {e.lines[0]}",
        s!"{gutter} | {Text.blank e.startColumn}{carets} note: {hint}",
        s!"{gutter} |"]
  | some hint, none => e.render ++ Text.row s!"{Text.blank e.gutterWidth} |- note: {hint}"
  | none, _ => e.render

/-- The excerpt of the place, with the hint. -/
def Note.render (note : Note) : String := note.span.excerpt.renderWithHint note.hint?

/-- The report of a failure. -/
structure Diagnostic where
  /-- What failed. -/
  kind : DiagnosticKind
  /-- Why it failed. -/
  reason : String
  /-- Where to look, the most important place first. -/
  notes : List Note
deriving DecidableEq

/-- The notes in order, then the kind and the reason. -/
def Diagnostic.render (d : Diagnostic) : String :=
  String.join (d.notes.map Note.render) ++ d.kind.title ++ ": " ++ d.reason

end InfixCompiler
