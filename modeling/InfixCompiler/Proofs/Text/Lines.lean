import InfixCompiler.Text
import Mathlib.Data.List.DropRight
import Mathlib.Data.Prod.Lex
import Mathlib.Order.Bounds.Basic

/-!
# Lines of a text

A cut of a text, between two characters or at an end, is in the middle of a line: what is left of it
begins behind the last line end before the cut, and what is right of it goes up to the first line
end after the cut. With the two parts of its line split off, a cut is known to be on that line of
`Text.lines` which has as many lines before it as there are line ends before the cut
(`IsLineOf.getElem?_lines`), and these lines make up the text before the line
(`IsLineOf.take_lines`).

What is before a cut has an extent, the number of its line ends and of the characters behind the
last one. It grows with every character (`extent_lt_extent`): a line end adds to the first number,
any other character to the second.
-/

namespace InfixCompiler.Text

/-! ## Cuts -/

/-- Byte `i` is between two characters of the text, or at one of its ends. -/
def IsBoundary (cs : List Char) (i : Nat) : Prop :=
  ∃ front back, cs = front ++ back ∧ i = byteLength front

variable {cs front back left right line : List Char} {i j : Nat}

theorem before_of_le (h : byteLength cs ≤ i) : before i cs = cs := by
  have hall := before_append cs []
  have hle := (before_isPrefix_before h cs).length_le
  rw [List.append_nil] at hall
  rw [hall] at hle
  exact (before_isPrefix i cs).eq_of_length_le hle

theorem IsBoundary.byteLength_before (h : IsBoundary cs i) : byteLength (before i cs) = i := by
  obtain ⟨front, back, rfl, rfl⟩ := h
  rw [before_append]

theorem isBoundary_before (i : Nat) (cs : List Char) :
    IsBoundary cs (byteLength (before i cs)) := by
  obtain ⟨back, hback⟩ := before_isPrefix i cs
  exact ⟨before i cs, back, hback.symm, rfl⟩

/-- Two boundaries cut the text in three. -/
theorem IsBoundary.exists_append (hi : IsBoundary cs i) (hj : IsBoundary cs j) (h : i ≤ j) :
    ∃ front inside back, cs = front ++ inside ++ back ∧ byteLength front = i ∧
      byteLength (front ++ inside) = j := by
  obtain ⟨inside, hinside⟩ := before_isPrefix_before h cs
  obtain ⟨back, hback⟩ := before_isPrefix j cs
  refine ⟨before i cs, inside, back, ?_, hi.byteLength_before, ?_⟩
  · rw [hinside, hback]
  · rw [hinside, hj.byteLength_before]

/-- A place in the text is not behind the characters that start before it. -/
theorem min_le_byteLength_before (i : Nat) (cs : List Char) :
    min i (byteLength cs) ≤ byteLength (before i cs) := by
  induction cs generalizing i with
  | nil => exact Nat.min_le_right _ _
  | cons c cs ih =>
    cases i with
    | zero => simp
    | succ i =>
      have := ih (i + 1 - c.utf8Size)
      rw [before, byteLength_cons, byteLength_cons]
      omega

/-- The characters that start before a place end at the first boundary that is not before it. -/
theorem isLeast_byteLength_before (i : Nat) (cs : List Char) :
    IsLeast {n | IsBoundary cs n ∧ min i (byteLength cs) ≤ n} (byteLength (before i cs)) := by
  constructor
  · exact ⟨isBoundary_before i cs, min_le_byteLength_before i cs⟩
  · rintro n ⟨hn, hle⟩
    rcases Nat.le_total i (byteLength cs) with hi | hi
    · rw [Nat.min_eq_left hi] at hle
      rw [← hn.byteLength_before]
      exact byteLength_le_of_isPrefix (before_isPrefix_before hle cs)
    · rw [Nat.min_eq_right hi] at hle
      exact (byteLength_le_of_isPrefix (before_isPrefix i cs)).trans hle

/-! ## Lines -/

/-- Lines, each with its line end. -/
def terminated (ls : List (List Char)) : List Char := ls.flatMap (· ++ ['\n'])

theorem terminated_lines (cs : List Char) : terminated (lines cs) = cs ++ ['\n'] := by
  induction cs with
  | nil => rfl
  | cons c cs ih =>
    obtain ⟨l, ls, hls⟩ := List.exists_cons_of_ne_nil (List.splitOn_ne_nil '\n' cs)
    rw [lines, hls] at ih
    rw [lines, List.splitOn_cons_eq_if_modifyHead, hls]
    split
    · next hc =>
      rw [beq_iff_eq] at hc
      rw [hc, List.cons_append, ← ih]
      rfl
    · rw [List.cons_append, ← ih]
      rfl

theorem lines_append_newline (cs ds : List Char) :
    lines (cs ++ '\n' :: ds) = lines cs ++ lines ds :=
  List.splitOn_append_cons_self cs ds

/-- A part of a text between line ends has its own lines, and the lines before them make up what is
before the part. -/
theorem exists_lines_append (inside : List Char)
    (hbegins : front = [] ∨ ∃ earlier, front = earlier ++ ['\n'])
    (hends : back = [] ∨ ∃ later, back = '\n' :: later) :
    ∃ earlier later, lines (front ++ (inside ++ back)) = earlier ++ (lines inside ++ later) ∧
      earlier.length = front.count '\n' ∧ terminated earlier = front := by
  have hlater : ∃ later, lines (inside ++ back) = lines inside ++ later := by
    rcases hends with rfl | ⟨later, rfl⟩
    · exact ⟨[], by rw [List.append_nil, List.append_nil]⟩
    · exact ⟨lines later, lines_append_newline inside later⟩
  obtain ⟨later, hlater⟩ := hlater
  rcases hbegins with rfl | ⟨earlier, rfl⟩
  · exact ⟨[], later, hlater, rfl, rfl⟩
  · refine ⟨lines earlier, later, ?_, ?_, terminated_lines earlier⟩
    · rw [List.append_assoc, List.singleton_append, lines_append_newline, hlater]
    · rw [length_lines, List.count_append, List.count_singleton_self]

/-- The text `line` is a line if `front` is before it and `back` is after it. -/
structure IsLineOf (front line back : List Char) : Prop where
  /-- It begins the text, or is behind a line end. -/
  begins : front = [] ∨ ∃ earlier, front = earlier ++ ['\n']
  /-- It ends the text, or a line end is behind it. -/
  ends : back = [] ∨ ∃ later, back = '\n' :: later
  /-- There is no line end in it. -/
  unbroken : '\n' ∉ line

namespace IsLineOf

/-- A line of the text, with the lines that make up what is before it. -/
theorem exists_lines_eq_append (h : IsLineOf front line back) :
    ∃ earlier later, lines (front ++ (line ++ back)) = earlier ++ line :: later ∧
      earlier.length = front.count '\n' ∧ terminated earlier = front := by
  obtain ⟨earlier, later, hlines, hearlier⟩ := exists_lines_append line h.begins h.ends
  have hline : lines line = [line] := List.splitOn_eq_singleton h.unbroken
  rw [hline, List.singleton_append] at hlines
  exact ⟨earlier, later, hlines, hearlier⟩

theorem getElem?_lines (h : IsLineOf front line back) :
    (lines (front ++ (line ++ back)))[front.count '\n']? = some line := by
  obtain ⟨earlier, later, hlines, hlength, -⟩ := h.exists_lines_eq_append
  rw [hlines, ← hlength, List.getElem?_append_right le_rfl, Nat.sub_self, List.getElem?_cons_zero]

theorem take_lines (h : IsLineOf front line back) :
    terminated ((lines (front ++ (line ++ back))).take (front.count '\n')) = front := by
  obtain ⟨earlier, later, hlines, hlength, hfront⟩ := h.exists_lines_eq_append
  rw [hlines, ← hlength, List.take_left, hfront]

end IsLineOf

/-! ## The line of a cut -/

/-- The whole lines before a cut. -/
def linesBefore (front : List Char) : List Char := front.rdropWhile (· != '\n')

/-- What is between the start of its line and a cut. -/
def lineBefore (front : List Char) : List Char := front.rtakeWhile (· != '\n')

/-- What is between a cut and the end of its line. -/
def lineAfter (back : List Char) : List Char := back.takeWhile (· != '\n')

/-- What is from the end of its line on. -/
def linesAfter (back : List Char) : List Char := back.dropWhile (· != '\n')

theorem linesBefore_append_lineBefore (front : List Char) :
    linesBefore front ++ lineBefore front = front := List.rdropWhile_append_rtakeWhile

theorem lineAfter_append_linesAfter (back : List Char) :
    lineAfter back ++ linesAfter back = back := List.takeWhile_append_dropWhile

/-- A cut is between the two parts of its line, with whole lines on either side. -/
theorem append_eq_cut (front back : List Char) : front ++ back =
    linesBefore front ++ (lineBefore front ++ lineAfter back ++ linesAfter back) := by
  rw [List.append_assoc, lineAfter_append_linesAfter, ← List.append_assoc,
    linesBefore_append_lineBefore]

theorem newline_notMem_lineBefore (front : List Char) : '\n' ∉ lineBefore front := fun h ↦ by
  simpa using List.mem_rtakeWhile_imp h

theorem newline_notMem_lineAfter (back : List Char) : '\n' ∉ lineAfter back := fun h ↦ by
  simpa using List.mem_takeWhile_imp h

/-- A cut is in the middle of a line. -/
theorem isLineOf_cut (front back : List Char) :
    IsLineOf (linesBefore front) (lineBefore front ++ lineAfter back) (linesAfter back) := by
  refine ⟨?_, ?_, ?_⟩
  · by_cases hne : linesBefore front = []
    · exact .inl hne
    · have hlast := List.rdropWhile_last_not _ front hne
      rw [Bool.not_eq_true, bne_eq_false_iff_eq] at hlast
      exact .inr ⟨_, by rw [← hlast]; exact (List.dropLast_concat_getLast hne).symm⟩
  · by_cases hne : linesAfter back = []
    · exact .inl hne
    · have hhead := List.head_dropWhile_not _ hne
      rw [bne_eq_false_iff_eq] at hhead
      exact .inr ⟨_, by rw [← hhead]; exact (List.cons_head_tail hne).symm⟩
  · rw [List.mem_append, not_or]
    exact ⟨newline_notMem_lineBefore front, newline_notMem_lineAfter back⟩

theorem count_linesBefore (front : List Char) :
    (linesBefore front).count '\n' = front.count '\n' := by
  have hcount := congrArg (List.count '\n') (linesBefore_append_lineBefore front)
  rwa [List.count_append, List.count_eq_zero.mpr (newline_notMem_lineBefore front),
    Nat.add_zero] at hcount

theorem rtakeWhile_append_of_pos {α : Type*} {p : α → Bool} {xs ys : List α}
    (h : ∀ y ∈ ys, p y) : (xs ++ ys).rtakeWhile p = xs.rtakeWhile p ++ ys := by
  rw [List.rtakeWhile, List.reverse_append, List.takeWhile_append_of_pos
    fun y hy ↦ h y (List.mem_reverse.mp hy), List.reverse_append, List.reverse_reverse]
  rfl

theorem lineBefore_append (h : '\n' ∉ back) :
    lineBefore (front ++ back) = lineBefore front ++ back :=
  rtakeWhile_append_of_pos fun _ hc ↦ bne_iff_ne.mpr fun hnewline ↦ h (hnewline ▸ hc)

theorem lineAfter_append (h : '\n' ∉ front) :
    lineAfter (front ++ back) = front ++ lineAfter back :=
  List.takeWhile_append_of_pos fun _ hc ↦ bne_iff_ne.mpr fun hnewline ↦ h (hnewline ▸ hc)

theorem length_lineBefore (i : Nat) (cs : List Char) :
    (lineBefore (before i cs)).length = column i cs := List.length_reverse

/-! ## Extents -/

/-- The number of line ends, and of the characters behind the last one. -/
def extent (front : List Char) : Nat ×ₗ Nat :=
  toLex (front.count '\n', (lineBefore front).length)

theorem extent_lt_extent (hne : back ≠ []) : extent front < extent (front ++ back) := by
  rw [extent, extent, Prod.Lex.toLex_lt_toLex, List.count_append]
  by_cases hnewline : '\n' ∈ back
  · have hpos := List.count_pos_iff.mpr hnewline
    exact .inl (by omega)
  · refine .inr ⟨by rw [List.count_eq_zero.mpr hnewline, Nat.add_zero], ?_⟩
    rw [lineBefore_append hnewline, List.length_append]
    exact Nat.lt_add_of_pos_right (List.length_pos_iff.mpr hne)

theorem extent_le_extent (h : front <+: cs) : extent front ≤ extent cs := by
  obtain ⟨back, rfl⟩ := h
  rcases eq_or_ne back [] with rfl | hne
  · rw [List.append_nil]
  · exact (extent_lt_extent hne).le

end InfixCompiler.Text
