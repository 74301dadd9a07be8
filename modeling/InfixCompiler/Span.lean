import InfixCompiler.Source
import InfixCompiler.Text.Quoted

/-!
# Spans

A span is a range of bytes of a source. Nothing keeps it inside the text or off the middle of a
character: a span from a made-up token is a span like any other. What is asked of it is then
answered by the rules of `Text`: no contents if an end is not between two characters, and lines and
columns as of the nearest place that exists.
-/

namespace InfixCompiler

/-- The `length` bytes of `source` from byte `offset` on. -/
structure Span where
  /-- The text pointed into. -/
  source : Source
  /-- The first byte. -/
  offset : Nat
  /-- The number of bytes. -/
  length : Nat
deriving DecidableEq

namespace Span

/-- The place before byte `offset`, which takes no bytes. -/
def point (source : Source) (offset : Nat) : Span := ⟨source, offset, 0⟩

variable (s : Span)

/-- The byte after the last one. -/
def stop : Nat := s.offset + s.length

/-- The least span of the first span's source that covers both. -/
def combine (s t : Span) : Span :=
  let offset := min s.offset t.offset
  ⟨s.source, offset, max s.stop t.stop - offset⟩

/-- The text of the span. -/
def contents : List Char := Text.slice s.offset s.length s.source.chars

/-- The number, from zero, of the line that byte `i` of the source is on. -/
def lineAt (i : Nat) : Nat := Text.line i s.source.chars

/-- The number of characters before byte `i` on its line. -/
def columnAt (i : Nat) : Nat := Text.column i s.source.chars

/-- The lines that the span touches, in full. -/
def lines : List (List Char) :=
  let first := s.lineAt s.offset
  ((Text.lines s.source.chars).drop first).take (s.lineAt s.stop - first + 1)

/-- The span with its text, for a reader of the program's data. -/
def describe : String :=
  "Span \x7b contents: " ++ Text.quoted s.contents ++
    s!", start: {s.offset}, end: {s.stop} " ++ "\x7d"

/-- Between two characters the contents are what lies there. -/
theorem contents_of_append {front inside back : List Char}
    (hchars : s.source.chars = front ++ inside ++ back)
    (hoffset : s.offset = Text.byteLength front) (hlength : s.length = Text.byteLength inside) :
    s.contents = inside := by
  rw [contents, hchars, hoffset, hlength, Text.slice_append]

theorem combine_offset (s t : Span) : (s.combine t).offset = min s.offset t.offset := rfl

theorem combine_stop (s t : Span) : (s.combine t).stop = max s.stop t.stop := by
  simp only [combine, stop]
  omega

theorem lineAt_offset_le_stop : s.lineAt s.offset ≤ s.lineAt s.stop :=
  Text.line_le_line (Nat.le_add_right _ _) _

theorem lineAt_lt (i : Nat) : s.lineAt i < (Text.lines s.source.chars).length :=
  Text.line_lt_length_lines i _

/-- All lines from the first to the last one are there. -/
theorem length_lines : s.lines.length = s.lineAt s.stop - s.lineAt s.offset + 1 := by
  have hfirst := s.lineAt_offset_le_stop
  have hlast := s.lineAt_lt s.stop
  rw [lines, List.length_take, List.length_drop]
  omega

end Span

end InfixCompiler
