import InfixCompiler.Span
import InfixCompiler.Text.Layout

/-!
# Excerpts

An excerpt shows a place in a text: a header with path, line and column, then the quoted lines
beside a gutter that holds their numbers. A single line is followed by a row of carets under the
place; several lines are only quoted, with `>` for the `|` of the gutter.

```
In ./source:2:8             In ./source:9:1
  |                            |
2 | return 1 @ 2;           9  > func f() {
  |          ^              10 > }
```

The gutter is as wide as the number of the last line quoted, which is the widest: numbers grow.
-/

namespace InfixCompiler

/-- Lines of a text, and the columns at which a place in them begins and ends. Lines and columns
are numbered from zero here and shown from one. -/
structure Excerpt where
  /-- What the text is called. -/
  path : String
  /-- The number of the first line. -/
  firstLine : Nat
  /-- The lines quoted. -/
  lines : List String
  /-- The column, on the first line, of the first character of the place. -/
  startColumn : Nat
  /-- The column, on the last line, after the last character of the place. -/
  endColumn : Nat
deriving DecidableEq

/-- The excerpt that shows a span. -/
def Span.excerpt (s : Span) : Excerpt where
  path := s.source.path
  firstLine := s.lineAt s.offset
  lines := s.lines.map String.ofList
  startColumn := s.columnAt s.offset
  endColumn := s.columnAt s.stop

namespace Excerpt

variable (e : Excerpt)

/-- Whether the excerpt is anything but one line. -/
def isMultiline : Bool := e.lines.length != 1

/-- The width of the line numbers. -/
def gutterWidth : Nat := (Nat.toDigits 10 (e.firstLine + e.lines.length)).length

/-- How many carets mark the place, if it is on a single line. A place without characters has
one. -/
def caretCount? : Option Nat :=
  if e.isMultiline then none else some (max 1 (e.endColumn - e.startColumn))

/-! ## Rows -/

/-- The row that says where the place is. -/
def header : String := s!"In {e.path}:{e.firstLine + 1}:{e.startColumn + 1}"

/-- A row of the gutter alone, up to its separator. -/
def gutter : String := Text.blank e.gutterWidth ++ " |"

/-- The only line quoted, beside its number. -/
def quotedLine (line : String) : String := s!"{e.firstLine + 1} | {line}"

/-- The row of carets below a single line. -/
def caretRow (carets : Nat) : String :=
  e.gutter ++ " " ++ Text.blank e.startColumn ++ String.ofList (List.replicate carets '^')

/-- One of several lines, beside its number, which is at the left of the gutter. -/
def numberedLine (gutterWidth number : Nat) (line : String) : String :=
  Text.alignLeft gutterWidth (toString number) ++ " > " ++ line

/-- The rows for several lines, or none. -/
def numberedLines : List String :=
  let width := e.gutterWidth
  (e.lines.zipIdx (e.firstLine + 1)).map fun (line, number) ↦ numberedLine width number line

variable {e} in
/-- Where there are carets, there is a line to quote. -/
theorem length_lines_pos {carets : Nat} (h : e.caretCount? = some carets) :
    0 < e.lines.length := by
  rw [caretCount?, isMultiline] at h
  split at h
  · exact absurd h (by simp)
  · next hlines =>
    have hlength : e.lines.length = 1 := by simpa using hlines
    omega

/-- The rows of the excerpt. -/
def rows : List String :=
  [e.header, e.gutter] ++
    match h : e.caretCount? with
    | some carets =>
      have := length_lines_pos h
      [e.quotedLine e.lines[0], e.caretRow carets]
    | none => e.numberedLines

/-- The excerpt as text. -/
def render : String := Text.rows e.rows

variable {e} {carets : Nat} {s : String}

theorem caretCount?_of_single (h : e.lines = [s]) :
    e.caretCount? = some (max 1 (e.endColumn - e.startColumn)) := by
  rw [caretCount?, isMultiline, h]
  rfl

theorem caretCount?_of_multiline (h : e.isMultiline = true) : e.caretCount? = none := if_pos h

theorem rows_of_single (hlines : e.lines = [s]) (h : e.caretCount? = some carets) :
    e.rows = [e.header, e.gutter, e.quotedLine s, e.caretRow carets] := by
  unfold rows
  split
  · next hcarets =>
    obtain rfl := Option.some.inj (h.symm.trans hcarets)
    simp [hlines]
  · next hcarets => exact absurd (h.symm.trans hcarets) (Option.some_ne_none _)

theorem rows_of_multiline (h : e.isMultiline = true) :
    e.rows = [e.header, e.gutter] ++ e.numberedLines := by
  unfold rows
  split
  · next hcarets =>
    exact absurd (hcarets.symm.trans (caretCount?_of_multiline h)) (Option.some_ne_none _)
  · rfl

end Excerpt

end InfixCompiler
