import InfixCompiler.Excerpt
import InfixCompiler.Proofs.Text.TouchedLines

/-!
# Excerpts underline

A span between characters cuts its source in three: what is before it, its contents, and what is
after it. Its last line is as far behind its first one as it has line ends. Without one it is on a
single line: behind the start of that line there are the characters that its column counts, and then
its contents.

In the excerpt this line is quoted behind its number and three characters more, and the row below it
has as many characters before the column. So each caret stands under a character of the span
(`Span.excerpt_underlines`).
-/

namespace InfixCompiler

open Text

/-! ## Rows -/

namespace Excerpt

theorem toList_quotedLine (e : Excerpt) (cs : List Char) :
    (e.quotedLine (String.ofList cs)).toList =
      Nat.toDigits 10 (e.firstLine + 1) ++ [' ', '|', ' '] ++ cs := by
  change (String.ofList (Nat.toDigits 10 (e.firstLine + 1)) ++ " | " ++
    String.ofList cs).toList = _
  simp

theorem toList_caretRow (e : Excerpt) (carets : Nat) :
    (e.caretRow carets).toList = List.replicate e.gutterWidth ' ' ++ [' ', '|', ' '] ++
      List.replicate e.startColumn ' ' ++ List.replicate carets '^' := by
  simp [caretRow, gutter, blank]

variable {e : Excerpt} {cs : List Char}

/-- The number of a single line is as wide as the gutter. -/
theorem getElem?_quotedLine (h : e.lines.length = 1) (k : Nat) :
    (e.quotedLine (String.ofList cs)).toList[e.gutterWidth + 3 + k]? = cs[k]? := by
  have hwidth : (Nat.toDigits 10 (e.firstLine + 1) ++ [' ', '|', ' ']).length =
      e.gutterWidth + 3 := by
    rw [List.length_append, gutterWidth, h]
    rfl
  rw [toList_quotedLine, ← hwidth, List.getElem?_append_right (Nat.le_add_right _ k),
    Nat.add_sub_cancel_left]

theorem getElem?_caretRow {carets k : Nat} (h : k < carets) :
    (e.caretRow carets).toList[e.gutterWidth + 3 + e.startColumn + k]? = some '^' := by
  have hwidth : (List.replicate e.gutterWidth ' ' ++ [' ', '|', ' '] ++
      List.replicate e.startColumn ' ').length = e.gutterWidth + 3 + e.startColumn := by
    rw [List.length_append, List.length_append, List.length_replicate, List.length_replicate]
    rfl
  rw [toList_caretRow, ← hwidth, List.getElem?_append_right (Nat.le_add_right _ k),
    Nat.add_sub_cancel_left, List.getElem?_replicate_of_lt h]

end Excerpt

namespace Span

/-! ## A span between characters -/

variable {p : Span} {front inside back : List Char}

/-- The text is `front`, the characters of the span, and `back`. -/
structure Cuts (p : Span) (front inside back : List Char) : Prop where
  /-- There is nothing else. -/
  chars_eq : p.source.chars = front ++ inside ++ back
  /-- The span begins behind `front`. -/
  offset_eq : p.offset = byteLength front
  /-- It ends with the last of its characters. -/
  stop_eq : p.stop = byteLength (front ++ inside)

theorem exists_cuts (hoffset : IsBoundary p.source.chars p.offset)
    (hstop : IsBoundary p.source.chars p.stop) : ∃ front inside back, p.Cuts front inside back := by
  obtain ⟨front, inside, back, hchars, hfront, hinside⟩ :=
    hoffset.exists_append hstop (Nat.le_add_right p.offset p.length)
  exact ⟨front, inside, back, hchars, hfront.symm, hinside.symm⟩

namespace Cuts

theorem contents_eq (h : p.Cuts front inside back) : p.contents = inside := by
  have hlength : p.length = byteLength inside := by
    have hstop := h.stop_eq
    rw [stop, h.offset_eq, byteLength_append] at hstop
    exact Nat.add_left_cancel hstop
  exact p.contents_of_append h.chars_eq h.offset_eq hlength

theorem before_offset (h : p.Cuts front inside back) :
    before p.offset p.source.chars = front := by
  rw [h.chars_eq, h.offset_eq, List.append_assoc, before_append]

theorem before_stop (h : p.Cuts front inside back) :
    before p.stop p.source.chars = front ++ inside := by
  rw [h.chars_eq, h.stop_eq, before_append]

theorem parts (h : p.Cuts front inside back) : p.Parts front inside back :=
  ⟨h.before_offset, h.before_stop, by rw [h.chars_eq, List.append_assoc]⟩

/-- A span has a line more than it has line ends. -/
theorem length_lines (h : p.Cuts front inside back) :
    p.lines.length = inside.count '\n' + 1 := by
  rw [p.length_lines, h.parts.lineAt_stop, Nat.add_sub_cancel_left]

theorem startColumn_eq (h : p.Cuts front inside back) :
    p.excerpt.startColumn = (lineBefore front).length := by
  rw [← h.before_offset, length_lineBefore]
  rfl

theorem endColumn_eq (h : p.Cuts front inside back) (hinside : '\n' ∉ inside) :
    p.excerpt.endColumn = (lineBefore front).length + inside.length := by
  rw [← List.length_append, ← lineBefore_append hinside, ← h.before_stop, length_lineBefore]
  rfl

end Cuts

theorem isMultiline_excerpt : p.excerpt.isMultiline = true ↔ p.lines.length ≠ 1 := by
  rw [Excerpt.isMultiline, bne_iff_ne]
  exact not_congr (by rw [excerpt, List.length_map])

/-! ## A span on a line -/

/-- The row of carets under a span: the gutter, the column of the span, and a caret for each of its
characters, or one if it has none. -/
def underline (p : Span) : String :=
  blank p.excerpt.gutterWidth ++ " | " ++ blank p.excerpt.startColumn ++
    String.ofList (List.replicate (max 1 p.contents.length) '^')

/-- The excerpt of the span is a line of the source with the characters of the span underlined. -/
structure IsUnderlinedIn (p : Span) (line : List Char) : Prop where
  /-- The excerpt has no other line. -/
  lines_eq : p.excerpt.lines = [String.ofList line]
  /-- It is a full line, with the number of the excerpt, and the span is not outside of it. -/
  isLineOf : ∃ front back, p.source.chars = front ++ (line ++ back) ∧ IsLineOf front line back ∧
    front.count '\n' = p.excerpt.firstLine ∧ byteLength front ≤ p.offset ∧
    p.stop ≤ byteLength (front ++ line)
  /-- The characters of the span begin at its column. -/
  contents_isPrefix : p.contents <+: line.drop p.excerpt.startColumn
  /-- The line is above the row of carets, and there is nothing else but the rows before it. -/
  render_eq : p.excerpt.render = rows [p.excerpt.header, p.excerpt.gutter,
    p.excerpt.quotedLine (String.ofList line), p.underline]
  /-- Each character of the span is above a caret. -/
  aligned : ∀ k (hk : k < p.contents.length),
    let place := p.excerpt.gutterWidth + 3 + p.excerpt.startColumn + k
    (p.excerpt.quotedLine (String.ofList line)).toList[place]? = some p.contents[k] ∧
      p.underline.toList[place]? = some '^'

theorem caretRow_excerpt (p : Span) :
    p.excerpt.caretRow (max 1 p.contents.length) = p.underline := by
  have hgutter : p.excerpt.gutter ++ " " = blank p.excerpt.gutterWidth ++ " | " :=
    String.append_assoc
  rw [underline, Excerpt.caretRow, hgutter]

namespace Cuts

theorem isLineOf_lineAround (front back : List Char) (hinside : '\n' ∉ inside) :
    IsLineOf (linesBefore front) (lineAround front inside back) (linesAfter (inside ++ back)) := by
  have hcut := isLineOf_cut front (inside ++ back)
  rwa [lineAfter_append hinside] at hcut

theorem chars_eq_lineAround (h : p.Cuts front inside back) (hinside : '\n' ∉ inside) :
    p.source.chars =
      linesBefore front ++ (lineAround front inside back ++ linesAfter (inside ++ back)) := by
  rw [lineAround, ← lineAfter_append hinside, ← append_eq_cut, h.chars_eq, List.append_assoc]

theorem firstLine_eq (h : p.Cuts front inside back) :
    p.excerpt.firstLine = (linesBefore front).count '\n' := by
  rw [count_linesBefore, ← h.before_offset]
  rfl

theorem lines_excerpt (h : p.Cuts front inside back) (hinside : '\n' ∉ inside) :
    p.excerpt.lines = [String.ofList (lineAround front inside back)] := by
  have hline := (isLineOf_lineAround front back hinside).unbroken
  have hlines : p.lines = [lineAround front inside back] :=
    h.parts.lines_eq.trans (List.splitOn_eq_singleton hline)
  rw [excerpt, hlines]
  rfl

theorem caretCount?_excerpt (h : p.Cuts front inside back) (hinside : '\n' ∉ inside) :
    p.excerpt.caretCount? = some (max 1 p.contents.length) := by
  have hsingle : ¬ p.excerpt.isMultiline = true := by
    rw [isMultiline_excerpt, h.length_lines, List.count_eq_zero.mpr hinside]
    exact not_not_intro rfl
  rw [Excerpt.caretCount?, if_neg hsingle, h.startColumn_eq, h.endColumn_eq hinside,
    Nat.add_sub_cancel_left, h.contents_eq]

theorem isUnderlinedIn (h : p.Cuts front inside back) (hinside : '\n' ∉ inside) :
    p.IsUnderlinedIn (lineAround front inside back) := by
  have hlines := h.lines_excerpt hinside
  have hline := isLineOf_lineAround front back hinside
  have hchars := h.chars_eq_lineAround hinside
  have hdrop : (lineAround front inside back).drop p.excerpt.startColumn =
      p.contents ++ lineAfter back := by
    rw [lineAround, h.startColumn_eq, List.drop_left, h.contents_eq]
  refine ⟨hlines, ⟨_, _, hchars, hline, h.firstLine_eq.symm, ?_, ?_⟩, ?_, ?_, ?_⟩
  · rw [h.offset_eq]
    exact byteLength_le_of_isPrefix ⟨_, linesBefore_append_lineBefore front⟩
  · rw [h.stop_eq]
    refine byteLength_le_of_isPrefix ⟨lineAfter back, ?_⟩
    rw [lineAround, ← List.append_assoc (linesBefore front), linesBefore_append_lineBefore,
      List.append_assoc]
  · rw [hdrop]
    exact List.prefix_append _ _
  · rw [Excerpt.render, Excerpt.rows_of_single hlines (h.caretCount?_excerpt hinside),
      ← caretRow_excerpt]
  · intro k hk
    constructor
    · rw [Nat.add_assoc _ p.excerpt.startColumn,
        Excerpt.getElem?_quotedLine (by rw [hlines]; rfl), ← List.getElem?_drop, hdrop,
        List.getElem?_append_left hk, List.getElem?_eq_getElem hk]
    · rw [← caretRow_excerpt]
      exact Excerpt.getElem?_caretRow (Nat.lt_of_lt_of_le hk (Nat.le_max_right _ _))

end Cuts

/-- **Excerpts underline.** The excerpt of a span between characters has several lines exactly if
the span has a line end. Otherwise the characters of the span are underlined in their line. -/
theorem excerpt_underlines (hoffset : IsBoundary p.source.chars p.offset)
    (hstop : IsBoundary p.source.chars p.stop) :
    (p.excerpt.isMultiline = true ↔ '\n' ∈ p.contents) ∧
      ('\n' ∉ p.contents → ∃ line, p.IsUnderlinedIn line) := by
  obtain ⟨front, inside, back, h⟩ := exists_cuts hoffset hstop
  rw [isMultiline_excerpt, h.length_lines, h.contents_eq]
  constructor
  · rw [Nat.succ_ne_succ_iff, ← Nat.pos_iff_ne_zero, List.count_pos_iff]
  · intro hinside
    exact ⟨_, h.isUnderlinedIn hinside⟩

/-- A character of two bytes on the second line. -/
theorem excerpt_underlines_accent :
    let p : Span := ⟨Source.ofString "x\nné +", 3, 2⟩
    IsBoundary p.source.chars p.offset ∧ IsBoundary p.source.chars p.stop ∧
      (p.excerpt.isMultiline = true ↔ '\n' ∈ p.contents) ∧ '\n' ∉ p.contents ∧
      ∃ line, p.IsUnderlinedIn line := by
  intro p
  have hoffset : IsBoundary p.source.chars p.offset :=
    ⟨['x', '\n', 'n'], ['é', ' ', '+'], by decide, by decide⟩
  have hstop : IsBoundary p.source.chars p.stop :=
    ⟨['x', '\n', 'n', 'é'], [' ', '+'], by decide, by decide⟩
  have hcontents : '\n' ∉ p.contents := by decide
  obtain ⟨hlines, hunderlined⟩ := excerpt_underlines hoffset hstop
  exact ⟨hoffset, hstop, hlines, hcontents, hunderlined hcontents⟩

example : (Span.mk (Source.ofString "x\nné +") 3 2).excerpt.render =
    "In ./source:2:2\n  |\n2 | né +\n  |  ^\n" := by decide +kernel

end Span

end InfixCompiler
