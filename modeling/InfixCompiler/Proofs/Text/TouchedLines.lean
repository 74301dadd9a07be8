import InfixCompiler.Proofs.Text.Utf8
import InfixCompiler.Span

/-!
# The lines that a span touches

A span may begin and end anywhere: inside a character, past the end of the text, or both ends behind
it. Its lines are taken from the lines of the text by two numbers, each a count of the line end
bytes before an end of the span. That these numbers are in range and in order, and that the lines so
taken are the right ones, is `Span.lines_touched`.

The right ones are said on bytes. From the first end go back to the last line end, from the second
go on to the next one: what is between is the lines, with line ends between them. The argument is on
the characters that start before an end of the span, of which the last may not be whole. What is
missing of it has no line end, so that looking for one from the middle of a character finds the same
one as from the end of the character (`Utf8.exists_take_append`).
-/

namespace InfixCompiler

open Text

/-! ## The next line ends, on bytes -/

namespace Utf8

/-- The byte behind the last line end before byte `i`, or the first byte. -/
def lineStart (i : Nat) (bs : List UInt8) : Nat := ((bs.take i).rdropWhile (· != newline)).length

/-- The first line end from byte `i` on, or the place behind the last byte. -/
def lineStop (i : Nat) (bs : List UInt8) : Nat := i + ((bs.drop i).takeWhile (· != newline)).length

variable {i : Nat} {cs back : List Char}

theorem newline_mem_bytes : newline ∈ bytes cs ↔ '\n' ∈ cs := by
  rw [← List.count_pos_iff, count_bytes, List.count_pos_iff]

theorem bne_newline_of_notMem {bs : List UInt8} (h : newline ∉ bs) :
    ∀ b ∈ bs, (b != newline) = true :=
  fun _ hb ↦ bne_iff_ne.mpr fun hnewline ↦ h (hnewline ▸ hb)

theorem rdropWhile_bytes (cs : List Char) :
    (bytes cs).rdropWhile (· != newline) = bytes (linesBefore cs) := by
  have hline := rtakeWhile_bytes cs List.not_mem_nil
  rw [List.append_nil, List.append_nil] at hline
  refine (List.append_left_inj (bytes (lineBefore cs))).mp ?_
  nth_rewrite 1 [← hline]
  rw [List.rdropWhile_append_rtakeWhile, ← bytes_append, linesBefore_append_lineBefore]

theorem takeWhile_bytes (cs : List Char) :
    (bytes cs).takeWhile (· != newline) = bytes (lineAfter cs) := by
  have hline := bne_newline_of_notMem (newline_mem_bytes.not.mpr (newline_notMem_lineAfter cs))
  have hrest : (bytes (linesAfter cs)).takeWhile (· != newline) = [] := by
    rcases (isLineOf_cut [] cs).ends with hnil | ⟨later, hlater⟩
    · rw [hnil]
      rfl
    · rw [hlater]
      rfl
  nth_rewrite 1 [← lineAfter_append_linesAfter cs]
  rw [bytes_append, List.takeWhile_append_of_pos hline, hrest, List.append_nil]

/-- A cut lacks a part, which has no line end, of the characters that start before it. -/
theorem exists_take_append (i : Nat) (cs : List Char) :
    ∃ rest, newline ∉ rest ∧ (bytes cs).take i ++ rest = bytes (before i cs) := by
  rcases take_bytes i cs with hwhole | ⟨front, c, piece, hbefore, ⟨k, hk, rfl⟩, hcut⟩
  · exact ⟨[], List.not_mem_nil, by rw [List.append_nil, hwhole]⟩
  · have hc : c ≠ '\n' := IsPieceOf.ne_newline ⟨k, hk, rfl⟩
    refine ⟨(String.utf8EncodeChar c).drop (k + 1), ?_, ?_⟩
    · intro hmem
      exact hc ((encodes_utf8EncodeChar c).eq_newline (List.mem_of_mem_drop hmem))
    · have hchar : bytes [c] = String.utf8EncodeChar c := List.append_nil _
      rw [hcut, hbefore, List.append_assoc, List.take_append_drop, bytes_append, hchar]

theorem lineStart_bytes (i : Nat) (cs : List Char) :
    lineStart i (bytes cs) = byteLength (linesBefore (before i cs)) := by
  obtain ⟨rest, hrest, htake⟩ := exists_take_append i cs
  have hdrop : ((bytes cs).take i ++ rest).rdropWhile (· != newline) =
      ((bytes cs).take i).rdropWhile (· != newline) := by
    rw [List.rdropWhile, List.reverse_append, List.dropWhile_append_of_pos
      fun b hb ↦ bne_newline_of_notMem hrest b (List.mem_reverse.mp hb)]
    rfl
  rw [lineStart, ← hdrop, htake, rdropWhile_bytes, length_bytes]

theorem lineStop_bytes (h : before i cs ++ back = cs) (hi : i ≤ byteLength cs) :
    lineStop i (bytes cs) = byteLength (before i cs ++ lineAfter back) := by
  obtain ⟨rest, hrest, htake⟩ := exists_take_append i cs
  have hdrop : (bytes cs).drop i = rest ++ bytes back := by
    refine (List.append_right_inj ((bytes cs).take i)).mp ?_
    rw [List.take_append_drop, ← List.append_assoc, htake, ← bytes_append, h]
  have hlength : i + rest.length = byteLength (before i cs) := by
    have := congrArg List.length htake
    rwa [List.length_append, length_bytes, List.length_take, length_bytes,
      Nat.min_eq_left hi] at this
  rw [lineStop, hdrop, List.takeWhile_append_of_pos (bne_newline_of_notMem hrest),
    takeWhile_bytes, List.length_append, length_bytes, ← Nat.add_assoc, hlength, byteLength_append]

end Utf8

/-- The members of a list with the indexes from `first` to `last`, if there are such indexes and the
list has them all. -/
def slice? {α : Type} (first last : Nat) (xs : List α) : Option (List α) :=
  if first ≤ last ∧ last < xs.length then some ((xs.drop first).take (last - first + 1)) else none

/-! ## Lines between two places -/

theorem Text.before_min_byteLength (i : Nat) (cs : List Char) :
    before (min i (byteLength cs)) cs = before i cs := by
  rcases Nat.le_total i (byteLength cs) with h | h
  · rw [Nat.min_eq_left h]
  · rw [Nat.min_eq_right h, before_of_le le_rfl, before_of_le h]

namespace Span

/-- What is touched by `inside` in full: the rest of its first line is before it, and that of its
last line behind it. -/
def lineAround (front inside back : List Char) : List Char :=
  lineBefore front ++ (inside ++ lineAfter back)

theorem append_eq_lineAround (front inside back : List Char) : front ++ (inside ++ back) =
    linesBefore front ++ (lineAround front inside back ++ linesAfter back) := by
  rw [lineAround, List.append_assoc, List.append_assoc, lineAfter_append_linesAfter,
    ← List.append_assoc (linesBefore front), linesBefore_append_lineBefore]

theorem length_lines_lineAround (front inside back : List Char) :
    (Text.lines (lineAround front inside back)).length = inside.count '\n' + 1 := by
  rw [Text.length_lines, lineAround, List.count_append, List.count_append,
    List.count_eq_zero.mpr (newline_notMem_lineBefore front),
    List.count_eq_zero.mpr (newline_notMem_lineAfter back), Nat.zero_add, Nat.add_zero]

/-- The lines around `inside`, taken from all lines by their numbers. -/
theorem take_drop_lines (front inside back : List Char) :
    ((Text.lines (front ++ (inside ++ back))).drop (front.count '\n')).take
      (inside.count '\n' + 1) = Text.lines (lineAround front inside back) := by
  obtain ⟨earlier, later, hlines, hlength, -⟩ :=
    exists_lines_append (lineAround front inside back) (isLineOf_cut front []).begins
      (isLineOf_cut [] back).ends
  rw [append_eq_lineAround, hlines, ← count_linesBefore front, ← hlength, List.drop_left,
    ← length_lines_lineAround front inside back, List.take_left]

/-! ## A span anywhere -/

/-- The characters that start before the span are `front`, and `inside` are those that start before
its end in addition. -/
structure Parts (s : Span) (front inside back : List Char) : Prop where
  /-- Before the span. -/
  before_offset : before s.offset s.source.chars = front
  /-- Before its end. -/
  before_stop : before s.stop s.source.chars = front ++ inside
  /-- There is nothing but these and `back`. -/
  chars_eq : s.source.chars = front ++ (inside ++ back)

theorem exists_parts (s : Span) : ∃ front inside back, s.Parts front inside back := by
  obtain ⟨inside, hinside⟩ := before_isPrefix_before (Nat.le_add_right s.offset s.length)
    s.source.chars
  obtain ⟨back, hback⟩ := before_isPrefix s.stop s.source.chars
  refine ⟨_, inside, back, rfl, hinside.symm, ?_⟩
  rw [← List.append_assoc, hinside]
  exact hback.symm

variable {s : Span} {front inside back : List Char}

namespace Parts

theorem lineAt_stop (h : s.Parts front inside back) :
    s.lineAt s.stop = s.lineAt s.offset + inside.count '\n' := by
  rw [lineAt, lineAt, line, line, h.before_stop, h.before_offset, List.count_append]

theorem lines_eq (h : s.Parts front inside back) :
    s.lines = Text.lines (lineAround front inside back) := by
  have hfirst : s.lineAt s.offset = front.count '\n' := by
    rw [lineAt, line, h.before_offset]
  rw [Span.lines, h.lineAt_stop, Nat.add_sub_cancel_left, hfirst, h.chars_eq, take_drop_lines]

theorem lineStart_eq (h : s.Parts front inside back) :
    Utf8.lineStart (min s.offset s.source.size) (Utf8.bytes s.source.chars) =
      byteLength (linesBefore front) := by
  rw [Utf8.lineStart_bytes, Source.size, before_min_byteLength, h.before_offset]

theorem lineStop_eq (h : s.Parts front inside back) :
    Utf8.lineStop (min s.stop s.source.size) (Utf8.bytes s.source.chars) =
      byteLength (linesBefore front ++ lineAround front inside back) := by
  have hstop : before (min s.stop s.source.size) s.source.chars = front ++ inside := by
    rw [Source.size, before_min_byteLength, h.before_stop]
  have hback : before (min s.stop s.source.size) s.source.chars ++ back = s.source.chars := by
    rw [hstop, h.chars_eq, List.append_assoc]
  rw [Utf8.lineStop_bytes hback (Nat.min_le_right _ _), hstop, lineAround, ← List.append_assoc,
    linesBefore_append_lineBefore, List.append_assoc]

/-- Between the two line ends there are the whole lines. -/
theorem drop_take_bytes (h : s.Parts front inside back) :
    ((Utf8.bytes s.source.chars).take (byteLength (linesBefore front ++
      lineAround front inside back))).drop (byteLength (linesBefore front)) =
        Utf8.bytes (lineAround front inside back) := by
  rw [h.chars_eq, append_eq_lineAround, ← List.append_assoc, Utf8.bytes_append,
    ← Utf8.length_bytes (linesBefore front ++ _), List.take_left, Utf8.bytes_append,
    ← Utf8.length_bytes, List.drop_left]

end Parts

/-- The line ends in a span are those between the lines that its ends are on. -/
theorem count_drop_take_bytes (s : Span) :
    (((Utf8.bytes s.source.chars).take (min s.stop s.source.size)).drop
      (min s.offset s.source.size)).count Utf8.newline = s.lineAt s.stop - s.lineAt s.offset := by
  have hcount (i : Nat) :
      ((Utf8.bytes s.source.chars).take (min i s.source.size)).count Utf8.newline = s.lineAt i := by
    have hline := Utf8.line_bytes (min i s.source.size) s.source.chars
    rw [line, Source.size, before_min_byteLength] at hline
    exact hline
  have horder : s.offset ≤ s.stop := Nat.le_add_right s.offset s.length
  have hle : min s.offset s.source.size ≤ min s.stop s.source.size := by omega
  have hsplit := congrArg (List.count Utf8.newline) (List.take_append_drop
    (min s.offset s.source.size) ((Utf8.bytes s.source.chars).take (min s.stop s.source.size)))
  rw [List.count_append, List.take_take, Nat.min_eq_left hle, hcount, hcount] at hsplit
  omega

/-- **The lines that a span touches.** The first and the last of them have numbers in range and in
order, wherever the span is. The lines are what there is between the line end before the span and
the one after it, and they are as many as there are line ends in the span, and one more. -/
theorem lines_touched (s : Span) :
    let bs := Utf8.bytes s.source.chars
    let all := Text.lines s.source.chars
    let first := min s.offset s.source.size
    let last := min s.stop s.source.size
    slice? (Utf8.line s.offset bs)
      (min (max (Utf8.line s.stop bs) (Utf8.line s.offset bs)) (all.length - 1)) all =
        some s.lines ∧
    s.lines ≠ [] ∧
    Utf8.bytes (['\n'].intercalate s.lines) =
      (bs.take (Utf8.lineStop last bs)).drop (Utf8.lineStart first bs) ∧
    s.lines.length = 1 + ((bs.take last).drop first).count Utf8.newline := by
  intro bs all first last
  obtain ⟨front, inside, back, h⟩ := s.exists_parts
  have hlength := s.length_lines
  refine ⟨?_, ?_, ?_, ?_⟩
  · have hfirst : Utf8.line s.offset bs = s.lineAt s.offset := Utf8.line_bytes _ _
    have hlast : Utf8.line s.stop bs = s.lineAt s.stop := Utf8.line_bytes _ _
    have horder := s.lineAt_offset_le_stop
    have hrange : s.lineAt s.stop < all.length := s.lineAt_lt s.stop
    rw [hfirst, hlast, Nat.max_eq_left horder, Nat.min_eq_left (Nat.le_sub_one_of_lt hrange),
      slice?, if_pos ⟨horder, hrange⟩]
    rfl
  · rw [← List.length_pos_iff, hlength]
    exact Nat.succ_pos _
  · have hjoin : ['\n'].intercalate s.lines = lineAround front inside back := by
      rw [h.lines_eq]
      exact List.intercalate_splitOn '\n'
    rw [hjoin, h.lineStart_eq, h.lineStop_eq, h.drop_take_bytes]
  · rw [hlength, s.count_drop_take_bytes, Nat.add_comm]

/-- From the middle of a character to a place past the end. -/
example : (Span.mk (Source.ofString "é\nb\n") 1 9).lines = [['é'], ['b'], []] := by decide

end Span

end InfixCompiler
