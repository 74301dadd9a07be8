import InfixCompiler.Proofs.Compilation

/-!
# Formulas that are printed and read again

A formula has numbers and operators and no parentheses. To print it is to choose where parentheses
and blanks go: a `Layout` is such a choice, and `Prints` says which layouts a formula has. An
operand must be in parentheses if it would otherwise be taken apart by the operator next to it;
anything else may be, any number of times.

Whatever the choice, the program that returns the printed formula is read as the formula
(`Source.program_printed`). Between the two lies the phrase of the layout, which has a lexeme for
each that is printed, at the byte where it is printed. The scan has the tokens of these lexemes, and
the phrase is one by the rules of the grammar since the parentheses are where they must be.
-/

namespace InfixCompiler

open Text Grammar

/-! ## Formulas -/

/-- The operators that have a level: `=`, `||`, `&&`, `==`, `!=`, `<`, `<=`, `>`, `>=`, `+`, `-`,
`*` and `/`. -/
abbrev Operator := {s : Symbol // s ∈ levels.flatten}

/-- Decimal digits, one at least. -/
abbrev Digits := {ds : List Char // ds ≠ [] ∧ ds.all Char.isDigit}

/-- Characters between lexemes, or none. -/
abbrev Blanks := {ws : List Char // ws.all isBlank}

theorem Digits.exists_eq_cons (digits : Digits) :
    ∃ d ds, digits.1 = d :: ds ∧ d.isDigit ∧ ∀ c ∈ ds, c.isDigit := by
  obtain ⟨_ | ⟨d, ds⟩, hne, hds⟩ := digits
  · exact absurd rfl hne
  · exact ⟨d, ds, rfl, List.forall_mem_cons.mp (List.all_eq_true.mp hds)⟩

theorem Blanks.isBlank (ws : Blanks) : ∀ c ∈ ws.1, isBlank c := List.all_eq_true.mp ws.2

/-- The level of an operator. The loosest one is zero. -/
def Operator.level (o : Operator) : Nat := levels.findIdx fun symbols ↦ o.1 ∈ symbols

/-- The way an operator is written. -/
def Operator.text (o : Operator) : List Char := o.1.spelling.toList

theorem Operator.isOperator_level (o : Operator) : IsOperator o.level (.symbol o.1) := by
  obtain ⟨s, hs⟩ := o
  refine ⟨s, ?_, rfl⟩
  revert hs
  cases s <;> decide

theorem Operator.level_lt (o : Operator) : o.level < levels.length :=
  (isOperator_iff.mp o.isOperator_level).1

/-- Digits, or an operator between two formulas. -/
inductive Formula where
  /-- A number. -/
  | number (digits : Digits)
  /-- An operator between two formulas. -/
  | binary (left : Formula) (operator : Operator) (right : Formula)

namespace Formula

/-- The level of the operator of a formula. A number is above every operator. -/
def level : Formula → Nat
  | number _ => levels.length
  | binary _ o _ => o.level

/-- The tree is the formula as an operand, with operators that may be anywhere. -/
inductive IsOperand : Formula → Tree → Prop
  | number {digits : Digits} {x : Binary64} (hx : Binary64.read? digits.1 = some x) :
      IsOperand (number digits) (.value x)
  | binary {e f : Formula} {t u : Tree} (o : Operator) (start : Nat) (ht : IsOperand e t)
      (hu : IsOperand f u) :
      IsOperand (binary e o f)
        (.operation (.binary t ⟨.symbol o.1, start, byteLength o.text⟩ u))

/-- The operation is the formula as the result of a function, with operators that may be anywhere.
A number is an operation without an operator. -/
inductive IsResult : Formula → Operation → Prop
  | number {digits : Digits} {x : Binary64} (hx : Binary64.read? digits.1 = some x) :
      IsResult (number digits) (.ofOperand (.value x))
  | binary {e f : Formula} {t u : Tree} (o : Operator) (start : Nat) (ht : IsOperand e t)
      (hu : IsOperand f u) :
      IsResult (binary e o f) (.binary t ⟨.symbol o.1, start, byteLength o.text⟩ u)

theorem level_le (e : Formula) : e.level ≤ levels.length := by
  cases e with
  | number digits => exact Nat.le_refl _
  | binary left o right => exact o.level_lt.le

end Formula

/-! ## Layouts -/

/-- A formula with the parentheses and blanks that are printed. -/
inductive Layout where
  /-- A number. -/
  | number (digits : Digits)
  /-- A layout in parentheses. -/
  | group (before : Blanks) (inner : Layout) (after : Blanks)
  /-- An operator between two layouts. -/
  | binary (left : Layout) (before : Blanks) (operator : Operator) (after : Blanks)
      (right : Layout)

namespace Layout

/-- What is printed. -/
def text : Layout → List Char
  | number digits => digits.1
  | group before inner after => ['('] ++ (before.1 ++ (inner.text ++ (after.1 ++ [')'])))
  | binary left before operator after right =>
    left.text ++ (before.1 ++ (operator.text ++ (after.1 ++ right.text)))

/-- The number of layouts that are open at once while the text is read. -/
def nesting : Layout → Nat
  | number _ => 1
  | group _ inner _ => 1 + inner.nesting
  | binary left _ _ _ right => max left.nesting (1 + right.nesting)

/-- The number of operators on the longest way down. -/
def height : Layout → Nat
  | number _ => 0
  | group _ inner _ => inner.height
  | binary left _ _ _ right => 1 + max left.height right.height

/-- Whether the layout is in parentheses. -/
def isGroup : Layout → Bool
  | group .. => true
  | _ => false

end Layout

/-- The layouts of a formula. -/
inductive Prints : Formula → Layout → Prop
  | number (digits : Digits) : Prints (.number digits) (.number digits)
  | group {e : Formula} {l : Layout} (before after : Blanks) (h : Prints e l) :
      Prints e (.group before l after)
  | binary {e f : Formula} {l m : Layout} {o : Operator} (before after : Blanks) (hl : Prints e l)
      (hm : Prints f m) (hleft : e.level < o.level → l.isGroup)
      (hright : f.level ≤ o.level → m.isGroup) :
      Prints (.binary e o f) (.binary l before o after m)

/-! ## The phrase of a layout -/

/-- The terminal that is written as `text` at byte `offset`. -/
def Grammar.Terminal.written (k : Kind) (offset : Nat) (text : List Char) : Terminal k :=
  ⟨.written k offset text, rfl⟩

namespace Layout

/-- The phrase of a layout that is printed from byte `offset` on. -/
def phrase : Layout → (offset : Nat) → Phrase
  | number digits, offset => .number (.written _ offset digits.1)
  | group before inner after, offset =>
    let start := offset + byteLength ['('] + byteLength before.1
    .group (.written _ offset ['(']) (inner.phrase start)
      (.written _ (start + byteLength inner.text + byteLength after.1) [')'])
  | binary left before o after right, offset =>
    let start := offset + byteLength left.text + byteLength before.1
    .binary (left.phrase offset) (.written (.symbol o.1) start o.text)
      (right.phrase (start + byteLength o.text + byteLength after.1))

theorem nesting_phrase (l : Layout) (offset : Nat) : (l.phrase offset).nesting = l.nesting := by
  induction l generalizing offset with
  | number digits => rfl
  | group before inner after ih => simp only [phrase, Phrase.nesting, nesting, ih]
  | binary left before o after right ihl ihr =>
    simp only [phrase, Phrase.nesting, nesting, ihl, ihr]

theorem height_phrase (l : Layout) (offset : Nat) : (l.phrase offset).height = l.height := by
  induction l generalizing offset with
  | number digits => rfl
  | group before inner after ih => simp only [phrase, Phrase.height, height, ih]
  | binary left before o after right ihl ihr =>
    simp only [phrase, Phrase.height, height, ihl, ihr]

end Layout

/-! ## What the phrase of a layout says -/

namespace Prints

variable {e : Formula} {l : Layout}

/-- The parentheses are where the rules of the grammar need them. -/
theorem atLevel (h : Prints e l) (offset : Nat) : (l.phrase offset).AtLevel e.level ∧
    (l.isGroup → (l.phrase offset).AtLevel levels.length) := by
  induction h generalizing offset with
  | number digits => exact ⟨.number _, nofun⟩
  | @group e l before after _ ih =>
    have hgroup : (Layout.phrase (.group before l after) offset).AtLevel levels.length :=
      .group _ _ ((ih _).1.mono (Nat.zero_le _))
    exact ⟨hgroup.mono e.level_le, fun _ ↦ hgroup⟩
  | @binary e f l m o before after _ _ hleft hright ihl ihr =>
    refine ⟨.binary o.isOperator_level ?_ ?_, nofun⟩
    · rcases Nat.lt_or_ge e.level o.level with hlt | hge
      · exact ((ihl _).2 (hleft hlt)).mono o.level_lt.le
      · exact (ihl _).1.mono hge
    · rcases Nat.lt_or_ge o.level f.level with hlt | hge
      · exact (ihr _).1.mono hlt
      · exact ((ihr _).2 (hright hge)).mono o.level_lt

theorem read?_digits (digits : Digits) (offset : Nat) :
    Binary64.read? digits.1 = some (numberValue (.written .number offset digits.1)) := by
  obtain ⟨d, ds, hdigits, hd, hds⟩ := digits.exists_eq_cons
  obtain ⟨x, hx⟩ := Option.isSome_iff_exists.mp (isSome_read?_of_isDigit hd hds)
  rw [← hdigits] at hx
  simp [numberValue, Lexeme.written, hx]

theorem isOperand (h : Prints e l) (offset : Nat) : e.IsOperand (l.phrase offset).operand := by
  induction h generalizing offset with
  | number digits => exact .number (read?_digits digits offset)
  | group before after _ ih => exact ih _
  | @binary e f l m o before after _ _ _ _ ihl ihr => exact .binary o _ (ihl _) (ihr _)

theorem isResult (h : Prints e l) (offset : Nat) : e.IsResult (l.phrase offset).result := by
  induction h generalizing offset with
  | number digits => exact .number (read?_digits digits offset)
  | group before after _ ih => exact ih _
  | @binary e f l m o before after hl hm _ _ _ _ =>
    exact .binary o _ (hl.isOperand _) (hm.isOperand _)

end Prints

namespace Layout

/-! ## The lexemes of a layout -/

theorem exists_text_eq_cons (l : Layout) :
    ∃ y back, l.text = y :: back ∧ (y.isDigit ∨ y = '(') := by
  induction l with
  | number digits =>
    obtain ⟨d, ds, hdigits, hd, -⟩ := digits.exists_eq_cons
    exact ⟨d, ds, hdigits, .inl hd⟩
  | group before inner after => exact ⟨'(', _, rfl, .inr rfl⟩
  | binary left before o after right ihl =>
    obtain ⟨y, back, hleft, hy⟩ := ihl
    exact ⟨y, _, by rw [text, hleft, List.cons_append], hy⟩

theorem exists_text_eq_concat (l : Layout) :
    ∃ front x, l.text = front ++ [x] ∧ (x.isDigit ∨ x = ')') := by
  induction l with
  | number digits =>
    obtain ⟨ds, hne, hds⟩ := digits
    obtain ⟨front, x, rfl⟩ := (List.eq_nil_or_concat' ds).resolve_left hne
    exact ⟨front, x, rfl, .inl (List.all_eq_true.mp hds x (by simp))⟩
  | group before inner after =>
    exact ⟨'(' :: (before.1 ++ (inner.text ++ after.1)), ')', by simp [text], .inr rfl⟩
  | binary left before o after right _ ihr =>
    obtain ⟨front, x, hright, hx⟩ := ihr
    exact ⟨left.text ++ (before.1 ++ (o.text ++ (after.1 ++ front))), x, by simp [text, hright], hx⟩

/-- Blanks and what comes after them do not begin with a character of a name, if that does not. -/
theorem not_isNameChar_of_head?_append {ws b : List Char} (hws : ∀ c ∈ ws, isBlank c)
    (hb : ∀ y ∈ b.head?, ¬ isNameChar y) : ∀ y ∈ (ws ++ b).head?, ¬ isNameChar y := by
  rcases ws with _ | ⟨w, ws⟩
  · exact hb
  · rintro y ⟨⟩
    exact (isCloser_of_isBlank (hws w List.mem_cons_self)).1

/-- A layout has its tokens for itself, unless a name or a number follows. -/
theorem apart_text (l : Layout) {b : List Char} (hb : ∀ y ∈ b.head?, ¬ isNameChar y) :
    Apart l.text b := by
  refine apart_of_not (.inr hb) (.inl fun x hx ↦ ?_)
  obtain ⟨front, y, hl, hy⟩ := l.exists_text_eq_concat
  rw [hl, List.getLast?_concat] at hx
  obtain rfl := Option.some.inj hx
  rcases hy with hy | rfl
  · exact not_precedesInSymbol_of_isNameChar (isNameChar_of_isDigit hy)
  · decide

end Layout

theorem Operator.not_isNameChar (o : Operator) : ∀ x ∈ o.text, ¬ isNameChar x := by
  have hall (s : Symbol) : s.spelling.toList.all fun x ↦ !isNameChar x := by
    cases s <;> decide
  intro x hx
  simpa using List.all_eq_true.mp (hall o.1) x hx

/-- An operator has its token for itself before an operand. -/
theorem Operator.apart_text {o : Operator} {ws : List Char} (hws : ∀ c ∈ ws, isBlank c)
    (l : Layout) : Apart o.text (ws ++ l.text) := by
  refine apart_of_not (.inl fun x hx ↦ o.not_isNameChar x (List.mem_of_getLast? hx))
    (.inr fun y hy hfollows ↦ ?_)
  have hprecedes := precedesInSymbol_of_followsInSymbol hfollows
  rcases ws with _ | ⟨w, ws⟩
  · obtain ⟨d, back, hl, hd⟩ := l.exists_text_eq_cons
    rw [List.nil_append, hl] at hy
    obtain rfl := Option.some.inj hy
    rcases hd with hd | rfl
    · exact not_precedesInSymbol_of_isNameChar (isNameChar_of_isDigit hd) hprecedes
    · exact absurd hprecedes (by decide)
  · obtain rfl := Option.some.inj hy
    exact (isCloser_of_isBlank (hws w List.mem_cons_self)).2 hprecedes

namespace Layout

/-- The text of a layout is scanned as the lexemes of its phrase. -/
theorem lexes (l : Layout) (front : List Char) :
    Lexes front l.text (l.phrase (byteLength front)).lexemes := by
  induction l generalizing front with
  | number digits =>
    obtain ⟨d, ds, hdigits, hd, hds⟩ := digits.exists_eq_cons
    have hlexeme : IsLexeme digits.1 .number := hdigits ▸ .number hd hds
    exact .lexeme hlexeme
  | group before inner after ih =>
    have hclosing (front : List Char) : Lexes front (after.1 ++ [')'])
        [.written (.symbol .rightParen) (byteLength (front ++ after.1)) [')']] :=
      .after_blanks after.isBlank (.lexeme (.symbol .rightParen))
    have hinner := (ih _).append (hclosing (front ++ ['('] ++ before.1 ++ inner.text))
      (inner.apart_text (not_isNameChar_of_head?_append after.isBlank (by simp; decide)))
    have hopening : Lexes front ['('] [.written (.symbol .leftParen) (byteLength front) ['(']] :=
      .lexeme (.symbol .leftParen)
    have := hopening.append (.after_blanks before.isBlank hinner)
      (apart_of_isCloser (by simp [IsCloser]; decide))
    simpa [phrase, Phrase.lexemes, text, Terminal.written, Nat.add_assoc] using this
  | binary left before o after right ihl ihr =>
    have hright (front : List Char) : Lexes front (after.1 ++ right.text)
        (right.phrase (byteLength (front ++ after.1))).lexemes :=
      .after_blanks after.isBlank (ihr _)
    have hoperator (front : List Char) : Lexes front o.text
        [.written (.symbol o.1) (byteLength front) o.text] := .lexeme (.symbol o.1)
    have hrest := (hoperator (front ++ left.text ++ before.1)).append (hright _)
      (Operator.apart_text after.isBlank right)
    have := (ihl front).append (.after_blanks before.isBlank hrest) (left.apart_text
      (not_isNameChar_of_head?_append before.isBlank ?_))
    · simpa [phrase, Phrase.lexemes, text, Terminal.written, Nat.add_assoc] using this
    · intro y hy
      rw [List.head?_append_of_ne_nil o.text o.1.spelling_ne_nil] at hy
      exact o.not_isNameChar y (List.mem_of_head? hy)

end Layout

/-! ## The function that returns a formula -/

namespace Layout

variable (l : Layout) (before after : Blanks)

/-- The text before a result. -/
def opening : List Char := "func f() \x7b return ".toList

/-- The text after a result. -/
def closing : List Char := "; \x7d".toList

/-- The statement that returns a layout, from its first byte on. -/
def statement (h : ∀ offset, (l.phrase offset).AtLevel 0) : Statement :=
  let start := byteLength opening + byteLength before.1
  ⟨.written _ 11 "return".toList, l.phrase start,
    .written _ (start + byteLength l.text + byteLength after.1) ";".toList, h _⟩

/-- The function that returns a layout. -/
def declaration (h : ∀ offset, (l.phrase offset).AtLevel 0) : Declaration where
  keyword := .written _ 0 "func".toList
  name := .written _ 5 "f".toList
  opening := .written _ 6 "(".toList
  params? := none
  closing := .written _ 7 ")".toList
  leftBrace := .written _ 9 "\x7b".toList
  body := [l.statement before after h]
  rightBrace := .written _ (byteLength opening + byteLength before.1 + byteLength l.text +
    byteLength after.1 + 2) "\x7d".toList

theorem lexes_opening : Lexes [] opening
    [.written (.keyword .func) 0 "func".toList, .written .identifier 5 "f".toList,
      .written (.symbol .leftParen) 6 "(".toList, .written (.symbol .rightParen) 7 ")".toList,
      .written (.symbol .leftBrace) 9 "\x7b".toList,
      .written (.keyword .return) 11 "return".toList] :=
  ⟨by decide +kernel, by decide +kernel⟩

theorem lexes_closing : Lexes [] closing
    [.written (.symbol .semicolon) 0 ";".toList, .written (.symbol .rightBrace) 2 "\x7d".toList] :=
  ⟨by decide +kernel, by decide +kernel⟩

/-- The text of the function is scanned as the lexemes of its declaration. -/
theorem lexes_declaration (h : ∀ offset, (l.phrase offset).AtLevel 0) :
    Lexes [] (opening ++ (before.1 ++ (l.text ++ (after.1 ++ closing))))
      (l.declaration before after h).lexemes := by
  have hclosing := lexes_closing.shift (opening ++ before.1 ++ l.text ++ after.1)
  have hresult := (l.lexes (opening ++ before.1)).append (.after_blanks after.isBlank hclosing)
    (l.apart_text (not_isNameChar_of_head?_append after.isBlank (by simp [closing]; decide)))
  have hblank : ∀ x ∈ opening.getLast?, IsCloser x := by
    intro x hx
    obtain rfl : ' ' = x := Option.some.inj hx
    exact isCloser_of_isBlank rfl
  have := lexes_opening.append (.after_blanks before.isBlank hresult) (apart_of_isCloser hblank)
  simpa [declaration, statement, Declaration.lexemes, Declaration.header, Statement.lexemes,
    parameterLexemes, Terminal.written, Lexeme.written, Lexeme.shift, Token.shift,
    Nat.add_assoc, Nat.add_comm, Nat.add_left_comm] using this

end Layout

theorem Source.chars_ofString_append (front back : String) (cs : List Char) :
    (Source.ofString (front ++ String.ofList cs ++ back)).chars
      = front.toList ++ (cs ++ back.toList) := by
  simp [Source.chars, Source.ofString]

/-- **Printed formulas are read again.** The program that returns a formula, printed with whatever
parentheses and blanks, is read as that formula if the nesting and the height of what is printed are
within the limit. -/
theorem Source.program_printed {e : Formula} {l : Layout} (h : Prints e l)
    (hnesting : l.nesting ≤ 256) (hheight : l.height ≤ 256) (before after : Blanks) :
    ∃ (p : Program) (result : Operation),
      (Source.ofString ("func f() \x7b return " ++
        String.ofList (before.1 ++ (l.text ++ after.1)) ++ "; \x7d")).program = .ok p ∧
      p.tree = .root [.function "f" [] [.ret result]] ∧ e.IsResult result := by
  have hlevel (offset : Nat) : (l.phrase offset).AtLevel 0 :=
    (h.atLevel offset).1.mono e.level.zero_le
  let declaration := l.declaration before after hlevel
  generalize hs : Source.ofString ("func f() \x7b return " ++
    String.ofList (before.1 ++ (l.text ++ after.1)) ++ "; \x7d") = s
  have hchars :
      s.chars = Layout.opening ++ (before.1 ++ (l.text ++ (after.1 ++ Layout.closing))) := by
    rw [← hs, Source.chars_ofString_append, List.append_assoc, List.append_assoc]
    rfl
  let d : Derivation := ⟨[declaration], ⟨⟨.endAt s.size, ""⟩, rfl⟩⟩
  have hlexemes : d.lexemes = declaration.lexemes ++ [⟨.endAt s.size, ""⟩] := by
    simp [Derivation.lexemes, d]
  have hwithin : d.Within defaultLimit := by
    intro f hf r hr
    obtain rfl := List.mem_singleton.mp hf
    obtain rfl := List.mem_singleton.mp hr
    rw [show (l.statement before after hlevel).result = l.phrase _ from rfl, l.nesting_phrase,
      l.height_phrase]
    exact ⟨hnesting, hheight⟩
  have hprogram : s.program = .ok d.program := Source.program_eq_ok_iff.mpr
    ⟨declaration.lexemes, d, hchars ▸ l.lexes_declaration before after hlevel, hlexemes, hwithin,
      rfl⟩
  exact ⟨_, _, hprogram, d.tree_program, h.isResult _⟩

/-- The parentheses around a difference are necessary before a product, those around a number are
not. Both are in the text, and neither is in the tree. -/
theorem Source.program_printed_difference : ∃ (p : Program) (result : Operation),
    (Source.ofString ("func f() \x7b return " ++ String.ofList "(1 - 2)* (3)".toList ++
      "; \x7d")).program = .ok p ∧ p.tree = .root [.function "f" [] [.ret result]] ∧
      Formula.IsResult (.binary
        (.binary (.number ⟨['1'], by decide⟩) ⟨.minus, by decide⟩ (.number ⟨['2'], by decide⟩))
        ⟨.star, by decide⟩ (.number ⟨['3'], by decide⟩)) result := by
  let space : Blanks := ⟨[' '], by decide⟩
  let empty : Blanks := ⟨[], by decide⟩
  have hdifference := Prints.binary (o := ⟨.minus, by decide⟩) space space
    (.number ⟨['1'], by decide⟩) (.number ⟨['2'], by decide⟩) (by decide) (by decide)
  have hproduct := Prints.binary (o := ⟨.star, by decide⟩) empty space
    (.group empty empty hdifference) (.group empty empty (.number ⟨['3'], by decide⟩))
    (by decide) (by decide)
  exact Source.program_printed hproduct (by decide) (by decide) empty empty

end InfixCompiler
