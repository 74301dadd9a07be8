import InfixCompiler.Proofs.Text.TouchedLines
import Mathlib.Order.Bounds.Basic
import Mathlib.Order.MinMax

/-!
# Combined spans

Spans of one source are ordered by what they cover: a greater one begins no later and ends no
earlier. A span keeps its length and not its end, but it is known from both ends, so that the order
is antisymmetric. The combination of two spans is the least one above both
(`Span.isLUB_combine`), whether they overlap, lie apart or have no characters at all. Its laws
follow from what is above it, which is what is above both (`Span.combine_le_iff`).

Lines grow with bytes. So the first line of a combination is the smaller one of the first lines of
its parts, and the last line the greater one of the last lines, also where a part is outside of the
text. The lines of any span are a slice of those of a greater one (`Span.slice?_lines_of_le`), and
this is all that is needed for the excerpt of a combination.
-/

namespace InfixCompiler

/-! ## Slices of lists -/

variable {α : Type} {xs ys : List α} {i j k l : Nat}

theorem slice?_eq_some_iff : slice? i j xs = some ys ↔
    i ≤ j ∧ j < xs.length ∧ (xs.drop i).take (j - i + 1) = ys := by
  rw [slice?]
  split
  · next h => simp [h]
  · next h => simp [← and_assoc, h]

/-- A slice of a slice is a slice of the whole. -/
theorem slice?_of_slice? (h : slice? i j xs = some ys) (hi : i ≤ k) (hj : l ≤ j) (hkl : k ≤ l) :
    slice? (k - i) (l - i) ys = slice? k l xs := by
  obtain ⟨-, hlength, rfl⟩ := slice?_eq_some_iff.mp h
  have hwidth : ((xs.drop i).take (j - i + 1)).length = j - i + 1 := by
    rw [List.length_take, List.length_drop]
    omega
  have hplace : i + (k - i) = k := Nat.add_sub_cancel' hi
  have hcount : min (l - i - (k - i) + 1) (j - i + 1 - (k - i)) = l - k + 1 := by omega
  rw [slice?, slice?, hwidth, if_pos ⟨by omega, by omega⟩, if_pos ⟨hkl, by omega⟩, List.drop_take,
    List.drop_drop, List.take_take, hplace, hcount]

namespace Span

variable {a b c s t : Span}

/-! ## The order -/

/-- A span is below those of its source that cover it. -/
instance : LE Span := ⟨fun s t ↦ s.source = t.source ∧ t.offset ≤ s.offset ∧ s.stop ≤ t.stop⟩

theorem le_iff : s ≤ t ↔ s.source = t.source ∧ t.offset ≤ s.offset ∧ s.stop ≤ t.stop := Iff.rfl

/-- A span is known from its source and its ends. -/
theorem eq_of_stop_eq (hsource : s.source = t.source) (hoffset : s.offset = t.offset)
    (hstop : s.stop = t.stop) : s = t := by
  cases s with | mk source offset length
  cases t with | mk source' offset' length'
  obtain rfl : source = source' := hsource
  obtain rfl : offset = offset' := hoffset
  obtain rfl : length = length' := Nat.add_left_cancel hstop
  rfl

instance : PartialOrder Span where
  le_refl s := ⟨rfl, le_rfl, le_rfl⟩
  le_trans _ _ _ h h' := ⟨h.1.trans h'.1, h'.2.1.trans h.2.1, h.2.2.trans h'.2.2⟩
  le_antisymm _ _ h h' := eq_of_stop_eq h.1 (le_antisymm h'.2.1 h.2.1) (le_antisymm h.2.2 h'.2.2)

/-- What covers a combination covers both of its parts, and there is nothing else to it. -/
theorem combine_le_iff (h : b.source = a.source) : a.combine b ≤ s ↔ a ≤ s ∧ b ≤ s := by
  rw [le_iff, le_iff, le_iff, combine_offset, combine_stop, Nat.le_min, Nat.max_le, h]
  exact ⟨fun ⟨hs, ho, he⟩ ↦ ⟨⟨hs, ho.1, he.1⟩, hs, ho.2, he.2⟩,
    fun ⟨ha, hb⟩ ↦ ⟨ha.1, ⟨ha.2.1, hb.2.1⟩, ha.2.2, hb.2.2⟩⟩

theorem isLUB_combine (h : b.source = a.source) : IsLUB {a, b} (a.combine b) := by
  rw [isLUB_iff_le_iff]
  intro s
  rw [combine_le_iff h, upperBounds_insert, upperBounds_singleton]
  rfl

theorem combine_self (a : Span) : a.combine a = a :=
  eq_of_forall_ge_iff fun s ↦ by rw [combine_le_iff rfl, and_self]

theorem combine_comm (h : b.source = a.source) : a.combine b = b.combine a :=
  eq_of_forall_ge_iff fun s ↦ by rw [combine_le_iff h, combine_le_iff h.symm, and_comm]

theorem combine_assoc (hb : b.source = a.source) (hc : c.source = a.source) :
    (a.combine b).combine c = a.combine (b.combine c) := by
  refine eq_of_forall_ge_iff fun s ↦ ?_
  have hleft : c.source = (a.combine b).source := hc
  have hright : (b.combine c).source = a.source := hb
  rw [combine_le_iff hleft, combine_le_iff hb, combine_le_iff hright,
    combine_le_iff (hc.trans hb.symm), and_assoc]

/-! ## Lines -/

theorem lineAt_eq (h : s.source = t.source) (i : Nat) : s.lineAt i = t.lineAt i := by
  rw [lineAt, lineAt, h]

theorem monotone_lineAt (s : Span) : Monotone s.lineAt := fun _ _ h ↦ Text.line_le_line h _

/-- The lines of a span are among all lines, from its first one to its last one. -/
theorem slice?_lines (s : Span) :
    slice? (s.lineAt s.offset) (s.lineAt s.stop) (Text.lines s.source.chars) = some s.lines :=
  slice?_eq_some_iff.mpr ⟨s.lineAt_offset_le_stop, s.lineAt_lt s.stop, rfl⟩

/-- The lines of a span are in a row among those of a greater one. -/
theorem slice?_lines_of_le (h : s ≤ t) :
    slice? (s.lineAt s.offset - t.lineAt t.offset) (s.lineAt s.stop - t.lineAt t.offset) t.lines =
      some s.lines := by
  obtain ⟨hsource, hoffset, hstop⟩ := h
  have hfirst : t.lineAt t.offset ≤ s.lineAt s.offset := by
    rw [← lineAt_eq hsource]
    exact s.monotone_lineAt hoffset
  have hlast : s.lineAt s.stop ≤ t.lineAt t.stop := by
    rw [← lineAt_eq hsource]
    exact s.monotone_lineAt hstop
  rw [slice?_of_slice? t.slice?_lines hfirst hlast s.lineAt_offset_le_stop, ← hsource,
    s.slice?_lines]

theorem lineAt_offset_combine (h : b.source = a.source) :
    (a.combine b).lineAt (a.combine b).offset = min (a.lineAt a.offset) (b.lineAt b.offset) := by
  rw [combine_offset, lineAt_eq h]
  exact a.monotone_lineAt.map_min

theorem lineAt_stop_combine (h : b.source = a.source) :
    (a.combine b).lineAt (a.combine b).stop = max (a.lineAt a.stop) (b.lineAt b.stop) := by
  rw [combine_stop, lineAt_eq h]
  exact a.monotone_lineAt.map_max

/-- **Combinations are joins.** On the spans of one source, combining is commutative, associative
and idempotent, and yields the least span that covers both. Its lines are all from the smaller one
of the first lines to the greater one of the last lines. The lines of each part are in a row among
them, behind as many as there are between the two first lines. -/
theorem combine_join (hb : b.source = a.source) (hc : c.source = a.source) :
    let first := min (a.lineAt a.offset) (b.lineAt b.offset)
    let last := max (a.lineAt a.stop) (b.lineAt b.stop)
    a.combine b = b.combine a ∧
    (a.combine b).combine c = a.combine (b.combine c) ∧
    a.combine a = a ∧
    IsLUB {a, b} (a.combine b) ∧
    slice? first last (Text.lines a.source.chars) = some (a.combine b).lines ∧
    slice? (a.lineAt a.offset - first) (a.lineAt a.stop - first) (a.combine b).lines =
      some a.lines ∧
    slice? (b.lineAt b.offset - first) (b.lineAt b.stop - first) (a.combine b).lines =
      some b.lines := by
  intro first last
  have hjoin := isLUB_combine hb
  have hfirst : (a.combine b).lineAt (a.combine b).offset = first := lineAt_offset_combine hb
  have hlast : (a.combine b).lineAt (a.combine b).stop = last := lineAt_stop_combine hb
  refine ⟨combine_comm hb, combine_assoc hb hc, combine_self a, hjoin, ?_, ?_, ?_⟩
  · rw [← hfirst, ← hlast]
    exact (a.combine b).slice?_lines
  · rw [← hfirst]
    exact slice?_lines_of_le (hjoin.1 (Set.mem_insert a {b}))
  · rw [← hfirst]
    exact slice?_lines_of_le (hjoin.1 (Set.mem_insert_of_mem a rfl))

/-- A span from inside a character to past the end, and an empty one on the line before. -/
theorem combine_join_past_end :
    let a : Span := ⟨Source.ofString "x\né\n+", 3, 9⟩
    let b : Span := ⟨Source.ofString "x\né\n+", 1, 0⟩
    let c : Span := ⟨Source.ofString "x\né\n+", 20, 1⟩
    b.source = a.source ∧ c.source = a.source ∧
    a.combine b = b.combine a ∧
    (a.combine b).combine c = a.combine (b.combine c) ∧
    a.combine a = a ∧
    IsLUB {a, b} (a.combine b) ∧
    slice? 0 2 (Text.lines a.source.chars) = some (a.combine b).lines ∧
    slice? 1 2 (a.combine b).lines = some a.lines ∧
    slice? 0 0 (a.combine b).lines = some b.lines := by
  intro a b c
  have ha : a.lineAt a.offset = 1 ∧ a.lineAt a.stop = 2 := by decide
  have hb : b.lineAt b.offset = 0 ∧ b.lineAt b.stop = 0 := by decide
  have hjoin := combine_join (a := a) (b := b) (c := c) rfl rfl
  rw [ha.1, ha.2, hb.1, hb.2] at hjoin
  exact ⟨rfl, rfl, hjoin⟩

example : (Span.combine ⟨Source.ofString "x\né\n+", 3, 9⟩ ⟨Source.ofString "x\né\n+", 1, 0⟩).lines =
    [['x'], ['é'], ['+']] := by decide

end Span

end InfixCompiler
