import InfixCompiler.Diagnostic
import Mathlib.Data.List.Forall2

/-!
# Notes with and without hints

The rows of a single line are written in two places: in the excerpt of a span, and again for a note
with a hint, which is in the row of carets. They must not differ in what they say of the place.

What both have to say of it is spelled out in `Excerpt.shown`, character by character up to the last
caret or to the end of the last of several lines. Both texts are that and an end of their own
(`Excerpt.render_of_single`, `Excerpt.renderWithHint_of_single`). Without a hint there is only the
end of the row of carets left, so that a hint is put in front of the last line end of the excerpt,
or behind it (`Diagnostic.render_notes`).
-/

namespace InfixCompiler

open Text

theorem Text.toString_eq_self (s : String) : toString s = s := rfl

namespace Excerpt

variable {e : Excerpt}

/-- The text of an excerpt up to its last caret, or to the end of the last of several lines. -/
def shown (e : Excerpt) : String :=
  s!"In {e.path}:{e.firstLine + 1}:{e.startColumn + 1}\n" ++ blank e.gutterWidth ++ " |\n" ++
    match e.lines with
    | [line] => s!"{e.firstLine + 1} | {line}\n" ++ blank e.gutterWidth ++ " | " ++
        blank e.startColumn ++
        String.ofList (List.replicate (max 1 (e.endColumn - e.startColumn)) '^')
    | lines => String.join ((lines.zipIdx (e.firstLine + 1)).map fun (line, number) ↦
        alignLeft e.gutterWidth (toString number) ++ " > " ++ line ++ "\n")

/-- The text of an excerpt with a hint or without. -/
structure IsNotedAs (e : Excerpt) (hint? : Option String) (text : String) : Prop where
  /-- The text of the excerpt alone has no more than the end of the row of carets. -/
  render_eq : e.render = e.shown ++ if e.isMultiline then "" else "\n"
  /-- Without a hint it is that. -/
  plain : hint? = none → text = e.render
  /-- Below a single line the hint is in front of the last line end, right behind the carets, and a
  row of the gutter alone follows. -/
  single : ∀ hint ∈ hint?, e.isMultiline = false →
    text = e.shown ++ (" note: " ++ hint) ++ "\n" ++ (blank e.gutterWidth ++ " |\n")
  /-- Below several lines the hint is on a row of its own. -/
  multiline : ∀ hint ∈ hint?, e.isMultiline = true →
    text = e.render ++ (blank e.gutterWidth ++ " |- note: " ++ hint ++ "\n")

/-! ## The text of an excerpt -/

theorem exists_lines_eq (h : e.isMultiline = false) : ∃ l, e.lines = [l] := by
  rw [isMultiline, bne_eq_false_iff_eq] at h
  exact List.length_eq_one_iff.mp h

theorem render_of_single (h : e.isMultiline = false) : e.render = e.shown ++ "\n" := by
  obtain ⟨l, hl⟩ := exists_lines_eq h
  rw [render, rows_of_single hl (caretCount?_of_single hl), shown, hl]
  simp [Text.rows, row, header, gutter, quotedLine, caretRow, toString_eq_self,
    String.append_assoc]

theorem render_of_multiline (h : e.isMultiline = true) : e.render = e.shown := by
  rw [render, rows_of_multiline h, shown]
  split
  · next l hl => exact absurd (congrArg List.length hl) (bne_iff_ne.mp h)
  · rw [numberedLines]
    simp [Text.rows, row, header, gutter, numberedLine, toString_eq_self, String.append_assoc,
      Function.comp_def]

/-! ## The text of an excerpt with a hint -/

variable {hint : String}

theorem renderWithHint_none (e : Excerpt) : e.renderWithHint none = e.render := by
  unfold renderWithHint
  rfl

theorem renderWithHint_of_single (h : e.isMultiline = false) : e.renderWithHint (some hint) =
    e.shown ++ (" note: " ++ hint) ++ "\n" ++ (blank e.gutterWidth ++ " |\n") := by
  obtain ⟨l, hl⟩ := exists_lines_eq h
  have hcarets := caretCount?_of_single hl
  unfold renderWithHint
  split
  · next hhint hcarets' =>
    obtain rfl := Option.some.inj hhint
    obtain rfl := Option.some.inj (hcarets.symm.trans hcarets')
    simp [Text.rows, row, shown, hl, toString_eq_self, String.append_assoc]
  · next hnone => exact absurd (hcarets.symm.trans hnone) (Option.some_ne_none _)
  · next hnone => exact absurd hnone (Option.some_ne_none _)

theorem renderWithHint_of_multiline (h : e.isMultiline = true) : e.renderWithHint (some hint) =
    e.render ++ (blank e.gutterWidth ++ " |- note: " ++ hint ++ "\n") := by
  have hcarets := caretCount?_of_multiline h
  unfold renderWithHint
  split
  · next hsome => exact absurd (hsome.symm.trans hcarets) (Option.some_ne_none _)
  · next hhint _ =>
    obtain rfl := Option.some.inj hhint
    simp [row, toString_eq_self]
  · next hnone => exact absurd hnone (Option.some_ne_none _)

/-- Both ways to write an excerpt say the same of the place. -/
theorem isNotedAs_renderWithHint (e : Excerpt) (hint? : Option String) :
    e.IsNotedAs hint? (e.renderWithHint hint?) where
  render_eq := by
    split
    · next h => rw [render_of_multiline h, String.append_empty]
    · next h => exact render_of_single (Bool.eq_false_iff.mpr h)
  plain h := by rw [h, renderWithHint_none]
  single hint hhint h := by rw [hhint, renderWithHint_of_single h]
  multiline hint hhint h := by rw [hhint, renderWithHint_of_multiline h]

end Excerpt

/-! ## The text of a diagnostic -/

/-- **Hints change nothing of a place.** A diagnostic is rendered as the texts of its notes, one
after the other, and then its kind and its reason. The text of a note is its excerpt, whose
location, lines and carets stay what they are with a hint after them. -/
theorem Diagnostic.render_notes (d : Diagnostic) :
    ∃ texts,
      List.Forall₂ (fun note ↦ note.span.excerpt.IsNotedAs note.hint?) d.notes texts ∧
      d.render = String.join texts ++ (d.kind.title ++ ": " ++ d.reason) := by
  refine ⟨d.notes.map Note.render, ?_, ?_⟩
  · rw [List.forall₂_map_right_iff, List.forall₂_same]
    exact fun note _ ↦ note.span.excerpt.isNotedAs_renderWithHint note.hint?
  · rw [render, String.append_assoc, String.append_assoc, String.append_assoc]

example : (Diagnostic.mk .parsing "no" [⟨⟨Source.ofString "é ;", 3, 1⟩, some "here"⟩,
      ⟨⟨Source.ofString "a\nb", 1, 9⟩, some "and here"⟩]).render =
    "In ./source:1:3\n  |\n1 | é ;\n  |   ^ note: here\n  |\n" ++
    "In ./source:1:2\n  |\n1 > a\n2 > b\n  |- note: and here\nParsing Error: no" := by
  decide +kernel

end InfixCompiler
