import InfixCompiler.Proofs.Text.Utf8
import InfixCompiler.Span
import Mathlib.Order.Monotone.Defs

/-!
# Positions

A line and a column name a place in a text: the one behind so many lines and so many characters of
the next line. The line and the column of a byte name the place of that byte if it is between two
characters, the end of the character that it is inside otherwise, and the end of the text if it is
past that (`Span.position_faithful`). So they grow with the byte, from one place between two
characters to the next one always.

Both facts are read off the characters that start before the byte. They end at the place named,
their extent is the line and the column, and those before one byte begin those before a later one.
-/

namespace InfixCompiler

namespace Text

/-- The first `line` lines of the text, with their line ends, and the first `column` characters of
the next line are the first `n` bytes of the text. -/
def IsPosition (cs : List Char) (line column n : Nat) : Prop :=
  ∃ next front, (lines cs)[line]? = some next ∧ column ≤ next.length ∧
    front = terminated ((lines cs).take line) ++ next.take column ∧
    byteLength front = n ∧ (Utf8.bytes cs).take n = Utf8.bytes front

/-- The lines and the characters counted before a byte are those that start before it. -/
theorem isPosition_before (i : Nat) (cs : List Char) :
    IsPosition cs (line i cs) (column i cs) (byteLength (before i cs)) := by
  obtain ⟨back, hcs⟩ := before_isPrefix i cs
  have hsplit : cs = linesBefore (before i cs) ++
      (lineBefore (before i cs) ++ lineAfter back ++ linesAfter back) := by
    rw [← append_eq_cut, hcs]
  have hcut := isLineOf_cut (before i cs) back
  have hcolumn := length_lineBefore i cs
  refine ⟨lineBefore (before i cs) ++ lineAfter back, before i cs, ?_, ?_, ?_, rfl, ?_⟩
  · have hline := hcut.getElem?_lines
    rwa [← hsplit, count_linesBefore] at hline
  · rw [← hcolumn, List.length_append]
    exact Nat.le_add_right _ _
  · have hlines := hcut.take_lines
    rw [← hsplit, count_linesBefore] at hlines
    rw [line, hlines, ← hcolumn, List.take_left, linesBefore_append_lineBefore]
  · rw [← Utf8.length_bytes]
    nth_rewrite 2 [← hcs]
    rw [Utf8.bytes_append, List.take_left]

theorem extent_before (i : Nat) (cs : List Char) :
    extent (before i cs) = toLex (line i cs, column i cs) := by
  rw [extent, length_lineBefore, line]

end Text

namespace Span

/-- The line and the column of byte `i`, in reading order. -/
def position (s : Span) (i : Nat) : Nat ×ₗ Nat := toLex (s.lineAt i, s.columnAt i)

variable (s : Span)

theorem position_eq_extent (i : Nat) :
    s.position i = Text.extent (Text.before i s.source.chars) :=
  (Text.extent_before i s.source.chars).symm

theorem monotone_position : Monotone s.position := by
  intro i j hij
  rw [position_eq_extent, position_eq_extent]
  exact Text.extent_le_extent (Text.before_isPrefix_before hij s.source.chars)

theorem strictMonoOn_position :
    StrictMonoOn s.position {i | Text.IsBoundary s.source.chars i} := by
  intro i hi j hj hij
  obtain ⟨back, hback⟩ := Text.before_isPrefix_before hij.le s.source.chars
  have hne : back ≠ [] := by
    rintro rfl
    have hi' := hi.byteLength_before
    have hj' := hj.byteLength_before
    rw [← hback, List.append_nil, hi'] at hj'
    exact hij.ne hj'
  rw [position_eq_extent, position_eq_extent, ← hback]
  exact Text.extent_lt_extent hne

theorem position_of_size_le {i : Nat} (h : s.source.size ≤ i) :
    s.position i = s.position s.source.size := by
  have hsize : Text.byteLength s.source.chars ≤ s.source.size := le_rfl
  rw [position_eq_extent, position_eq_extent, Text.before_of_le h, Text.before_of_le hsize]

/-- **Positions are faithful.** The lines and columns are those that are counted on the bytes. Those
of a byte name the first place between two characters that is not before it, or the end of the text.
They grow with the byte, strictly from one place between two characters to another, and stay what
they are past the end. -/
theorem position_faithful :
    (∀ i, s.lineAt i = Utf8.line i (Utf8.bytes s.source.chars) ∧
      s.columnAt i = Utf8.column i (Utf8.bytes s.source.chars)) ∧
    (∀ i, ∃ n, IsLeast {n | Text.IsBoundary s.source.chars n ∧ min i s.source.size ≤ n} n ∧
      Text.IsPosition s.source.chars (s.lineAt i) (s.columnAt i) n) ∧
    Monotone s.position ∧
    StrictMonoOn s.position {i | Text.IsBoundary s.source.chars i} ∧
    Set.InjOn s.position {i | Text.IsBoundary s.source.chars i} ∧
    ∀ i, s.source.size ≤ i → s.position i = s.position s.source.size := by
  refine ⟨?_, ?_, s.monotone_position, s.strictMonoOn_position, s.strictMonoOn_position.injOn, ?_⟩
  · intro i
    exact ⟨(Utf8.line_bytes i _).symm, (Utf8.column_bytes i _).symm⟩
  · intro i
    exact ⟨_, Text.isLeast_byteLength_before i _, Text.isPosition_before i _⟩
  · intro i hi
    exact s.position_of_size_le hi

example : (Span.point (Source.ofString "a\né") 0).position 3 = toLex (1, 1) := by decide

end Span

end InfixCompiler
