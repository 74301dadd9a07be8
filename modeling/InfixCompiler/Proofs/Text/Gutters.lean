import InfixCompiler.Proofs.Text.Excerpts
import InfixCompiler.Proofs.Text.Rows

/-!
# Gutters are straight

The gutter of an excerpt has one width, that of the number of the last line. It is computed before
any line is shown, from the number of lines, and a line is shown in one of two ways: a single one as
it is, several with blanks behind their numbers. Both leave the separator of the row in the same
column (`Excerpt.gutter_straight`), as numbers do not become narrower from line to line and a single
line has the last number.

An excerpt may be of any lines, not only of those of a span. So a line end in one of them would
break its row, and there must be none; a line end in the path breaks only the header.
-/

namespace InfixCompiler

open Text

namespace Excerpt

/-! ## Rows with a gutter -/

/-- The row shows a line behind its number, which is at the left of a gutter of this width and has
room there. -/
def IsNumbered (width number : Nat) (line row : List Char) : Prop :=
  ∃ (blanks : Nat) (separator : Char), (Nat.toDigits 10 number).length + blanks = width ∧
    (separator = '|' ∨ separator = '>') ∧
    row = Nat.toDigits 10 number ++ List.replicate blanks ' ' ++ [' ', separator, ' '] ++ line

/-- The separator of the row is behind a gutter of this width. -/
def IsSeparated (width : Nat) (row : List Char) : Prop :=
  row[width + 1]? = some '|' ∨ row[width + 1]? = some '>'

/-- The rows below the header of an excerpt. -/
structure IsStraight (e : Excerpt) (rows : List (List Char)) : Prop where
  /-- There is a row of the gutter alone, a row for each line, and one with carets below a single
  line. -/
  length_eq : rows.length = e.lines.length + if e.lines.length = 1 then 2 else 1
  /-- All have their separator in one column. -/
  separated : ∀ row ∈ rows, IsSeparated e.gutterWidth row
  /-- The lines are shown in order, with their numbers. -/
  numbered : ∀ k (hk : k < e.lines.length), ∃ row, rows[k + 1]? = some row ∧
    IsNumbered e.gutterWidth (e.firstLine + k + 1) e.lines[k].toList row
  /-- No number is wider than the gutter. -/
  fits : ∀ k < e.lines.length, (Nat.toDigits 10 (e.firstLine + k + 1)).length ≤ e.gutterWidth
  /-- The number of the last line is as wide. -/
  widest : ∀ k, k + 1 = e.lines.length →
    (Nat.toDigits 10 (e.firstLine + k + 1)).length = e.gutterWidth

variable {e : Excerpt} {width number : Nat} {l row : List Char}

theorem IsNumbered.isSeparated (h : IsNumbered width number l row) : IsSeparated width row := by
  obtain ⟨blanks, separator, hwidth, hseparator, rfl⟩ := h
  have hplace : (Nat.toDigits 10 number ++ List.replicate blanks ' ' ++ [' ', separator, ' '] ++
      l)[width + 1]? = some separator := by
    have hfront : (Nat.toDigits 10 number ++ List.replicate blanks ' ').length = width := by
      rw [List.length_append, List.length_replicate, hwidth]
    rw [List.append_assoc, ← hfront, List.getElem?_append_right (Nat.le_add_right _ 1),
      Nat.add_sub_cancel_left]
    rfl
  rcases hseparator with rfl | rfl
  · exact .inl hplace
  · exact .inr hplace

theorem IsNumbered.newline_notMem (h : IsNumbered width number l row) (hl : '\n' ∉ l) :
    '\n' ∉ row := by
  obtain ⟨blanks, separator, -, hseparator, rfl⟩ := h
  have hdigits := newline_notMem_toDigits number
  rcases hseparator with rfl | rfl <;> simp [hdigits, hl]

theorem toList_gutter (e : Excerpt) :
    e.gutter.toList = List.replicate e.gutterWidth ' ' ++ [' ', '|'] := by
  rw [gutter, String.toList_append, toList_blank]
  rfl

theorem isSeparated_append (rest : List Char) :
    IsSeparated width (List.replicate width ' ' ++ ([' ', '|'] ++ rest)) := by
  refine .inl ?_
  rw [List.getElem?_append_right (by rw [List.length_replicate]; exact Nat.le_add_right _ 1),
    List.length_replicate, Nat.add_sub_cancel_left]
  rfl

theorem isSeparated_gutter (e : Excerpt) : IsSeparated e.gutterWidth e.gutter.toList := by
  rw [toList_gutter, ← List.append_nil [' ', '|']]
  exact isSeparated_append []

theorem isSeparated_caretRow (e : Excerpt) (carets : Nat) :
    IsSeparated e.gutterWidth (e.caretRow carets).toList := by
  rw [toList_caretRow, List.append_assoc, List.append_assoc]
  exact isSeparated_append _

/-! ## Widths -/

theorem length_toDigits_le_gutterWidth {k : Nat} (hk : k < e.lines.length) :
    (Nat.toDigits 10 (e.firstLine + k + 1)).length ≤ e.gutterWidth :=
  length_toDigits_mono (by omega)

theorem isNumbered_numberedLine {s : String} (h : (Nat.toDigits 10 number).length ≤ width) :
    IsNumbered width number s.toList (numberedLine width number s).toList := by
  refine ⟨width - (Nat.toDigits 10 number).length, '>', Nat.add_sub_cancel' h, .inr rfl, ?_⟩
  rw [numberedLine, String.toList_append, String.toList_append, toList_alignLeft, toList_toString,
    length_toString]
  rfl

theorem isNumbered_quotedLine {s : String} (h : e.lines.length = 1) :
    IsNumbered e.gutterWidth (e.firstLine + 1) s.toList (e.quotedLine s).toList := by
  refine ⟨0, '|', ?_, .inl rfl, ?_⟩
  · rw [gutterWidth, h]
    rfl
  · have hquoted := e.toList_quotedLine s.toList
    rw [String.ofList_toList] at hquoted
    rw [hquoted, List.replicate_zero, List.append_nil]

/-! ## The rows of an excerpt -/

/-- The rows below the header. -/
def belowHeader (e : Excerpt) : List String := e.rows.tail

theorem rows_eq_cons (e : Excerpt) : e.rows = e.header :: e.belowHeader := by
  unfold belowHeader rows
  rfl

theorem belowHeader_of_single {s : String} (h : e.lines = [s]) :
    ∃ carets, e.belowHeader = [e.gutter, e.quotedLine s, e.caretRow carets] :=
  ⟨_, congrArg List.tail (rows_of_single h (caretCount?_of_single h))⟩

theorem belowHeader_of_multiline (h : e.lines.length ≠ 1) :
    e.belowHeader = e.gutter :: e.numberedLines :=
  congrArg List.tail (rows_of_multiline (bne_iff_ne.mpr h))

theorem getElem?_numberedLines {k : Nat} (hk : k < e.lines.length) :
    e.numberedLines[k]? = some (numberedLine e.gutterWidth (e.firstLine + k + 1) e.lines[k]) := by
  rw [numberedLines, List.getElem?_map, List.getElem?_zipIdx, List.getElem?_eq_getElem hk,
    Nat.add_right_comm]
  rfl

theorem length_numberedLines (e : Excerpt) : e.numberedLines.length = e.lines.length := by
  rw [numberedLines, List.length_map, List.length_zipIdx]

/-- Below the gutter alone each line is behind its number. -/
theorem exists_isNumbered {k : Nat} (hk : k < e.lines.length) :
    ∃ r, e.belowHeader[k + 1]? = some r ∧
      IsNumbered e.gutterWidth (e.firstLine + k + 1) e.lines[k].toList r.toList := by
  by_cases h : e.lines.length = 1
  · obtain ⟨s, hs⟩ := List.length_eq_one_iff.mp h
    obtain ⟨carets, hrows⟩ := belowHeader_of_single hs
    obtain rfl : k = 0 := by omega
    refine ⟨e.quotedLine s, by rw [hrows]; rfl, ?_⟩
    simp only [hs, List.getElem_cons_zero]
    exact isNumbered_quotedLine h
  · refine ⟨_, ?_, isNumbered_numberedLine (length_toDigits_le_gutterWidth hk)⟩
    rw [belowHeader_of_multiline h, List.getElem?_cons_succ, getElem?_numberedLines hk]

theorem length_belowHeader (e : Excerpt) :
    e.belowHeader.length = e.lines.length + if e.lines.length = 1 then 2 else 1 := by
  split
  · next h =>
    obtain ⟨s, hs⟩ := List.length_eq_one_iff.mp h
    obtain ⟨carets, hrows⟩ := belowHeader_of_single hs
    rw [hrows, h]
    rfl
  · next h => rw [belowHeader_of_multiline h, List.length_cons, length_numberedLines]

/-- A row below the header shows a line, or has nothing in front of its separator. -/
theorem isNumbered_or_of_mem {r : String} (hr : r ∈ e.belowHeader) :
    (∃ s ∈ e.lines, ∃ number, IsNumbered e.gutterWidth number s.toList r.toList) ∨
      r = e.gutter ∨ ∃ carets, r = e.caretRow carets := by
  by_cases h : e.lines.length = 1
  · obtain ⟨s, hs⟩ := List.length_eq_one_iff.mp h
    obtain ⟨carets, hrows⟩ := belowHeader_of_single hs
    rw [hrows, List.mem_cons, List.mem_cons, List.mem_singleton] at hr
    rcases hr with hr | rfl | hr
    · exact .inr (.inl hr)
    · exact .inl ⟨s, by rw [hs]; exact List.mem_singleton_self s, _, isNumbered_quotedLine h⟩
    · exact .inr (.inr ⟨carets, hr⟩)
  · rw [belowHeader_of_multiline h, List.mem_cons] at hr
    rcases hr with hr | hr
    · exact .inr (.inl hr)
    · obtain ⟨k, hk, rfl⟩ := List.mem_iff_getElem.mp hr
      have hk' : k < e.lines.length := by rwa [length_numberedLines] at hk
      have hline := getElem?_numberedLines hk'
      rw [List.getElem?_eq_getElem hk, Option.some.injEq] at hline
      rw [hline]
      exact .inl ⟨_, List.getElem_mem hk', _,
        isNumbered_numberedLine (length_toDigits_le_gutterWidth hk')⟩

theorem isStraight_belowHeader (e : Excerpt) :
    e.IsStraight (e.belowHeader.map String.toList) where
  length_eq := by rw [List.length_map, length_belowHeader]
  separated := by
    rw [List.forall_mem_map]
    intro r hr
    rcases isNumbered_or_of_mem hr with ⟨s, -, number, hnumbered⟩ | rfl | ⟨carets, rfl⟩
    · exact hnumbered.isSeparated
    · exact e.isSeparated_gutter
    · exact e.isSeparated_caretRow carets
  numbered := by
    intro k hk
    obtain ⟨r, hr, hnumbered⟩ := exists_isNumbered hk
    exact ⟨r.toList, by rw [List.getElem?_map, hr]; rfl, hnumbered⟩
  fits := fun _ hk ↦ length_toDigits_le_gutterWidth hk
  widest := by
    intro k hk
    rw [gutterWidth, ← hk, Nat.add_assoc]

theorem newline_notMem_belowHeader (h : ∀ s ∈ e.lines, '\n' ∉ s.toList) :
    ∀ r ∈ e.belowHeader, '\n' ∉ r.toList := by
  intro r hr
  rcases isNumbered_or_of_mem hr with ⟨s, hs, number, hnumbered⟩ | rfl | ⟨carets, rfl⟩
  · exact hnumbered.newline_notMem (h s hs)
  · simp [toList_gutter]
  · simp [toList_caretRow]

/-- **Gutters are straight.** If there is no line end in the lines of an excerpt, the lines of its
text behind the header are rows with their separators in one column. The lines quoted are in order
behind their numbers. These fit in the gutter, and the last one fills it. -/
theorem gutter_straight (h : ∀ s ∈ e.lines, '\n' ∉ s.toList) :
    ∃ rest rows, e.render.toList = e.header.toList ++ '\n' :: rest ∧
      Text.lines rest = rows ++ [[]] ∧ e.IsStraight rows := by
  refine ⟨_, _, ?_, lines_terminated (List.forall_mem_map.mpr (newline_notMem_belowHeader h)),
    e.isStraight_belowHeader⟩
  rw [render, rows_eq_cons, toList_rows, List.map_cons, terminated, List.flatMap_cons,
    List.append_assoc]
  rfl

/-- The numbers of the lines become wider from the second to the third. -/
theorem gutter_straight_nine :
    let e : Excerpt := ⟨"a", 7, ["func f() \x7b", "  return 1;", "\x7d"], 9, 1⟩
    (∀ s ∈ e.lines, '\n' ∉ s.toList) ∧
      ∃ rest rows, e.render.toList = e.header.toList ++ '\n' :: rest ∧
        Text.lines rest = rows ++ [[]] ∧ e.IsStraight rows := by
  intro e
  have h : ∀ s ∈ e.lines, '\n' ∉ s.toList := by decide
  exact ⟨h, gutter_straight h⟩

example : (Excerpt.mk "a" 7 ["func f() \x7b", "  return 1;", "\x7d"] 9 1).render =
    "In a:8:10\n   |\n8  > func f() \x7b\n9  >   return 1;\n10 > \x7d\n" := by
  decide +kernel

end Excerpt

end InfixCompiler
