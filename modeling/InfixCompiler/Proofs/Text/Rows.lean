import InfixCompiler.Proofs.Text.Lines
import InfixCompiler.Text.Layout

/-!
# Rows of a text

Output is made of rows, each with its line end. Rows without a line end in them are the lines of the
text that they make up, before a last empty one. So they can be had back from it
(`Text.rows_injective`), and whatever is known of them is known of the lines of the text.

Numbers in front of a row are decimal. Their width grows with them, and a number in a row that
begins with it ends at the first character that is no digit.
-/

namespace InfixCompiler.Text

/-! ## Parts in a row -/

/-- Two parts are known from both in a row, if the second is the first place where some property
fails. -/
theorem append_inj_of_head? {α : Type} {p : α → Prop} {front front' rest rest' : List α}
    (h : ∀ a ∈ front, p a) (h' : ∀ a ∈ front', p a) (hrest : ∀ a ∈ rest.head?, ¬ p a)
    (hrest' : ∀ a ∈ rest'.head?, ¬ p a) (heq : front ++ rest = front' ++ rest') :
    front = front' ∧ rest = rest' := by
  induction front generalizing front' with
  | nil =>
    cases front' with
    | nil => exact ⟨rfl, heq⟩
    | cons a front' =>
      rw [List.nil_append] at heq
      exact absurd (h' a List.mem_cons_self) (hrest a (heq ▸ rfl))
  | cons a front ih =>
    obtain ⟨ha, h⟩ := List.forall_mem_cons.mp h
    cases front' with
    | nil =>
      rw [List.nil_append] at heq
      exact absurd ha (hrest' a (heq ▸ rfl))
    | cons b front' =>
      obtain ⟨-, h'⟩ := List.forall_mem_cons.mp h'
      rw [List.cons_append, List.cons_append, List.cons.injEq] at heq
      obtain ⟨rfl, rfl⟩ := ih h h' heq.2
      exact ⟨congrArg (· :: front) heq.1, rfl⟩

theorem notMem_toList_append {c : Char} {s s' : String} :
    c ∉ (s ++ s').toList ↔ c ∉ s.toList ∧ c ∉ s'.toList := by
  rw [String.toList_append, List.mem_append, not_or]

/-! ## Rows and lines -/

variable {ls ls' : List (List Char)} {rs rs' : List String}

theorem toList_rows (rs : List String) : (rows rs).toList = terminated (rs.map String.toList) := by
  rw [rows, String.toList_join, List.flatMap_map, terminated, List.flatMap_map]
  congr 1
  funext r
  rw [row, String.toList_append]
  rfl

theorem rows_cons (r : String) (rs : List String) : rows (r :: rs) = row r ++ rows rs := by
  rw [rows, List.map_cons, String.join_cons, rows]

theorem rows_flatMap {α : Type} (f : α → List String) (xs : List α) :
    rows (xs.flatMap f) = String.join (xs.map fun x ↦ rows (f x)) := by
  induction xs with
  | nil => rfl
  | cons x xs ih =>
    rw [List.flatMap_cons, rows, List.map_append, String.join_append, ← rows, ← rows, ih,
      List.map_cons, String.join_cons]

theorem lines_terminated_append (h : ∀ l ∈ ls, '\n' ∉ l) (rest : List Char) :
    lines (terminated ls ++ rest) = ls ++ lines rest := by
  induction ls with
  | nil => rfl
  | cons l ls ih =>
    obtain ⟨hl, hls⟩ := List.forall_mem_cons.mp h
    have hline : lines l = [l] := List.splitOn_eq_singleton hl
    have hcons : terminated (l :: ls) ++ rest = l ++ '\n' :: (terminated ls ++ rest) := by
      simp [terminated]
    rw [hcons, lines_append_newline, hline, ih hls, List.singleton_append, List.cons_append]

/-- The rows of a text are its lines, but for the last one, which is empty. -/
theorem lines_terminated (h : ∀ l ∈ ls, '\n' ∉ l) : lines (terminated ls) = ls ++ [[]] := by
  have hlines := lines_terminated_append h []
  rwa [List.append_nil] at hlines

theorem rows_injective (h : ∀ r ∈ rs, '\n' ∉ r.toList) (h' : ∀ r ∈ rs', '\n' ∉ r.toList)
    (heq : rows rs = rows rs') : rs = rs' := by
  have hlines : lines (rows rs).toList = lines (rows rs').toList := by rw [heq]
  rw [toList_rows, toList_rows, lines_terminated (List.forall_mem_map.mpr h),
    lines_terminated (List.forall_mem_map.mpr h')] at hlines
  have htexts := List.append_cancel_right hlines
  exact List.map_injective_iff.mpr (fun _ _ ↦ String.toList_inj.mp) htexts

/-! ## Blanks and numbers -/

theorem toList_blank (n : Nat) : (blank n).toList = List.replicate n ' ' := String.toList_ofList

theorem toList_alignLeft (width : Nat) (s : String) :
    (alignLeft width s).toList = s.toList ++ List.replicate (width - s.length) ' ' := by
  rw [alignLeft, String.toList_append, toList_blank]

theorem toList_toString (n : Nat) : (toString n).toList = Nat.toDigits 10 n := by
  rw [Nat.toString_eq_repr, Nat.toList_repr]

theorem length_toString (n : Nat) : (toString n).length = (Nat.toDigits 10 n).length := by
  rw [← String.length_toList, toList_toString]

theorem isDigit_of_mem_toDigits {n : Nat} {c : Char} (h : c ∈ Nat.toDigits 10 n) : c.isDigit :=
  Nat.isDigit_of_mem_toDigits (by omega) le_rfl h

theorem newline_notMem_toDigits (n : Nat) : '\n' ∉ Nat.toDigits 10 n :=
  fun h ↦ absurd (isDigit_of_mem_toDigits h) (by decide)

/-- A greater number is no narrower. -/
theorem length_toDigits_mono {m n : Nat} (h : m ≤ n) :
    (Nat.toDigits 10 m).length ≤ (Nat.toDigits 10 n).length := by
  have hn := (Nat.length_toDigits_le_iff (b := 10) (n := n) (by omega)
    Nat.length_toDigits_pos).mp le_rfl
  exact (Nat.length_toDigits_le_iff (by omega) Nat.length_toDigits_pos).mpr (h.trans_lt hn)

end InfixCompiler.Text
