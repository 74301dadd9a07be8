/-!
# Text by bytes, lines and columns

Text is a list of characters. Places in it are *byte* offsets into its UTF-8 form, so every function
here converts between the two. For an offset between two characters, `before` and `after?` cut the
text in two. `before` is defined at every other offset as well: one inside a character belongs to
the place after that character, and one past the end to the end. Lines and columns are counted on
the characters before.
-/

namespace InfixCompiler.Text

/-! ## Bytes -/

/-- The number of bytes of `cs` in UTF-8. -/
def byteLength (cs : List Char) : Nat := cs.foldr (fun c n ↦ c.utf8Size + n) 0

@[simp] theorem byteLength_nil : byteLength [] = 0 := rfl

@[simp] theorem byteLength_cons (c : Char) (cs : List Char) :
    byteLength (c :: cs) = c.utf8Size + byteLength cs := rfl

@[simp] theorem byteLength_append (cs ds : List Char) :
    byteLength (cs ++ ds) = byteLength cs + byteLength ds := by
  induction cs with
  | nil => simp
  | cons c cs ih => simp [ih, Nat.add_assoc]

theorem byteLength_le_of_isPrefix {front cs : List Char} (h : front <+: cs) :
    byteLength front ≤ byteLength cs := by
  obtain ⟨back, rfl⟩ := h
  rw [byteLength_append]
  exact Nat.le_add_right _ _

/-- The characters that start before byte `i`. -/
def before : Nat → List Char → List Char
  | _, [] => []
  | 0, _ :: _ => []
  | i + 1, c :: cs => c :: before (i + 1 - c.utf8Size) cs

/-- The characters from byte `i` on, unless `i` is inside a character or past the end. -/
def after? : Nat → List Char → Option (List Char)
  | 0, cs => some cs
  | _ + 1, [] => none
  | i + 1, c :: cs => if c.utf8Size ≤ i + 1 then after? (i + 1 - c.utf8Size) cs else none

/-- The `length` bytes from byte `start` on; nothing if either end is out of the text or inside a
character. -/
def slice (start length : Nat) (cs : List Char) : List Char :=
  match after? start cs with
  | none => []
  | some back => if (after? length back).isSome then before length back else []

@[simp] theorem before_zero (cs : List Char) : before 0 cs = [] := by
  cases cs <;> rfl

/-- There is something after byte `i` exactly where `i` ends the characters before it. -/
theorem after?_eq_some_iff {i : Nat} {cs back : List Char} :
    after? i cs = some back ↔ before i cs ++ back = cs ∧ byteLength (before i cs) = i := by
  induction cs generalizing i with
  | nil =>
    cases i with
    | zero => simp [after?, eq_comm]
    | succ i => simp [after?, before]
  | cons c cs ih =>
    cases i with
    | zero => simp [after?, eq_comm]
    | succ i =>
      rw [after?, before]
      split
      · rw [ih, List.cons_append, List.cons.injEq, byteLength_cons]
        simp only [true_and]
        refine and_congr_right fun _ ↦ ?_
        omega
      · rw [byteLength_cons]
        refine iff_of_false (by simp) fun h ↦ ?_
        omega

theorem before_append (front back : List Char) :
    before (byteLength front) (front ++ back) = front := by
  induction front with
  | nil => exact before_zero back
  | cons c front ih =>
    obtain ⟨n, hn⟩ : ∃ n, byteLength (c :: front) = n + 1 :=
      Nat.exists_eq_succ_of_ne_zero (by have := c.utf8Size_pos; rw [byteLength_cons]; omega)
    rw [hn, List.cons_append, before, ← hn, byteLength_cons, Nat.add_sub_cancel_left, ih]

theorem after?_append (front back : List Char) :
    after? (byteLength front) (front ++ back) = some back :=
  after?_eq_some_iff.mpr (by rw [before_append]; exact ⟨rfl, rfl⟩)

/-- A slice between two characters is what lies between its ends. -/
theorem slice_append (front inside back : List Char) :
    slice (byteLength front) (byteLength inside) (front ++ inside ++ back) = inside := by
  rw [slice, List.append_assoc, after?_append]
  simp only [after?_append, before_append, Option.isSome_some, if_true]

/-! ## Lines and columns -/

/-- The text without its line ends, as one list per line. A text that ends with a line end has an
empty last line. -/
def lines (cs : List Char) : List (List Char) := cs.splitOn '\n'

/-- The number, from zero, of the line that byte `i` is on. -/
def line (i : Nat) (cs : List Char) : Nat := (before i cs).count '\n'

/-- The number of characters between the start of its line and byte `i`. -/
def column (i : Nat) (cs : List Char) : Nat :=
  ((before i cs).reverse.takeWhile (· != '\n')).length

theorem before_isPrefix_before {i j : Nat} (h : i ≤ j) (cs : List Char) :
    before i cs <+: before j cs := by
  induction cs generalizing i j with
  | nil => exact List.prefix_rfl
  | cons c cs ih =>
    cases i with
    | zero => exact before_zero (c :: cs) ▸ List.nil_prefix
    | succ i =>
      obtain ⟨j, rfl⟩ : ∃ k, j = k + 1 := ⟨j - 1, by omega⟩
      rw [before, before, List.prefix_cons_inj]
      exact ih (by omega)

theorem before_isPrefix (i : Nat) (cs : List Char) : before i cs <+: cs := by
  induction cs generalizing i with
  | nil => exact List.prefix_rfl
  | cons c cs ih =>
    cases i with
    | zero => exact List.nil_prefix
    | succ i => exact (List.prefix_cons_inj c).mpr (ih _)

theorem line_le_line {i j : Nat} (h : i ≤ j) (cs : List Char) : line i cs ≤ line j cs :=
  (before_isPrefix_before h cs).sublist.count_le '\n'

/-- There is one line more than there are line ends. -/
theorem length_lines (cs : List Char) : (lines cs).length = cs.count '\n' + 1 := by
  rw [lines]
  induction cs with
  | nil => rfl
  | cons c cs ih =>
    rw [List.splitOn_cons_eq_if_modifyHead, List.count_cons]
    split
    · rw [List.length_cons, ih]
    · rw [List.length_modifyHead, ih, Nat.add_zero]

/-- Every byte is on a line of the text, and so is every place past the end. -/
theorem line_lt_length_lines (i : Nat) (cs : List Char) : line i cs < (lines cs).length := by
  rw [length_lines, Nat.lt_succ_iff]
  exact (before_isPrefix i cs).sublist.count_le '\n'

end InfixCompiler.Text
