import InfixCompiler.Program.Parser
import Mathlib.Tactic.FinCases

/-!
# The grammar of programs

```text
Program    := Function* End
Function   := func Name ( [Name {, Name} [,]] ) { Return* }
Return     := return E₀ ;
Eₙ         := Eₙ₊₁ | Eₙ operatorₙ Eₙ₊₁           for each level n of operators
E_last     := Number | ( E₀ )
```

A derivation is data: a tree with the lexemes at its leaves, in the order of the text. The kinds of
the leaves are part of their types, so there is nothing left to check about them; what remains of
the rules is the nesting of the levels, which is the predicate `Phrase.AtLevel`. A list of lexemes
is in the grammar if it is `Derivation.lexemes` of something.

Levels are numbers here, and `levels` says which operators each has. That the levels of
`Precedence` are the same ones is `isOperator_iff`, and nothing below it needs to know.

## Two measures

What a reader with a limited depth can read depends on two numbers. The *nesting* of a phrase is
the number of phrases that are open at once when it is read from left to right: a right operand or
the inside of a parenthesis is read while its surroundings wait, a left operand is not. The *height*
counts the operators on the longest way down, for which parentheses are nothing.
-/

namespace InfixCompiler.Grammar

/-! ## Terminals -/

/-- A lexeme of the kind `k`. -/
abbrev Terminal (k : Kind) := {l : Lexeme // l.kind = k}

namespace Terminal

/-- Some lexeme of the kind `k`, with the text of a number. -/
def sample (k : Kind) : Terminal k := ⟨⟨⟨k, 0, 0⟩, "0"⟩, rfl⟩

/-- The image of a terminal under a renaming that keeps kinds. -/
def map {k : Kind} (f : Lexeme → Lexeme) (hf : ∀ l, (f l).kind = l.kind) (t : Terminal k) :
    Terminal k := ⟨f t.1, (hf t.1).trans t.2⟩

end Terminal

/-! ## Levels -/

/-- The operators of each level, the loosest level first. -/
def levels : List (List Symbol) :=
  [[.equal], [.or], [.and], [.equalEq, .bangEq], [.less, .lessEq, .greater, .greaterEq],
    [.plus, .minus], [.star, .slash]]

/-- Whether a lexeme of kind `k` is an operator of level `n`. -/
def IsOperator (n : Nat) (k : Kind) : Prop := ∃ s ∈ levels.getD n [], k = .symbol s

/-- What may come after a phrase of level `n`: an end of expressions, or a looser operator. -/
def Follows (n : Nat) (k : Kind) : Prop :=
  k = .symbol .semicolon ∨ k = .symbol .rightParen ∨ ∃ m < n, IsOperator m k

theorem Follows.mono {m n : Nat} {k : Kind} (h : Follows m k) (hmn : m ≤ n) : Follows n k := by
  rcases h with h | h | ⟨i, hi, ho⟩
  · exact .inl h
  · exact .inr (.inl h)
  · exact .inr (.inr ⟨i, by omega, ho⟩)

/-- The levels of the grammar are those of `Precedence` between `none` and `unary`. -/
theorem isOperator_iff {n : Nat} {k : Kind} :
    IsOperator n k ↔ n < levels.length ∧ (Precedence.betweenOperands k).level = n + 1 := by
  constructor
  · rintro ⟨s, hs, rfl⟩
    have hn : n < levels.length := by
      by_contra hn
      rw [List.getD_eq_getElem?_getD, List.getElem?_eq_none (by omega)] at hs
      simp at hs
    refine ⟨hn, ?_⟩
    -- levels are few, and so are the operators of each
    have : n = 0 ∨ n = 1 ∨ n = 2 ∨ n = 3 ∨ n = 4 ∨ n = 5 ∨ n = 6 := by
      simp only [levels, List.length_cons, List.length_nil] at hn
      omega
    rcases this with rfl | rfl | rfl | rfl | rfl | rfl | rfl <;> fin_cases hs <;> rfl
  · rintro ⟨hn, h⟩
    obtain rfl : n = (Precedence.betweenOperands k).level - 1 := by omega
    cases k with
    | symbol s =>
      refine ⟨s, ?_, rfl⟩
      revert hn h
      cases s <;> decide
    | _ => simp [Precedence.betweenOperands, Precedence.level] at h

/-- Above each level of operators there is one more level to ask for. -/
theorem level_tighter_of_le {p : Precedence} (h : p.level ≤ levels.length) :
    p.tighter.level = p.level + 1 := by
  rw [show levels.length = 7 from rfl] at h
  rw [Precedence.level_tighter]
  omega

theorem Follows.ne_endOfSource {n : Nat} {k : Kind} (h : Follows n k) : k ≠ .endOfSource := by
  rcases h with rfl | rfl | ⟨m, _, s, _, rfl⟩ <;> simp

/-- Whether a list begins with what may come after a phrase of level `n`. -/
def Stops (n : Nat) : List Lexeme → Prop
  | [] => False
  | l :: _ => Follows n l.kind

theorem Stops.mono {m n : Nat} {ls : List Lexeme} (h : Stops m ls) (hmn : m ≤ n) : Stops n ls := by
  cases ls with
  | nil => exact h
  | cons l ls => exact Follows.mono h hmn

theorem Terminal.stops_rightParen {n : Nat} (t : Terminal (.symbol .rightParen))
    (ls : List Lexeme) : Stops n (t.1 :: ls) := .inr (.inl t.2)

theorem Terminal.stops_semicolon {n : Nat} (t : Terminal (.symbol .semicolon))
    (ls : List Lexeme) : Stops n (t.1 :: ls) := .inl t.2

theorem IsOperator.stops {m n : Nat} {l : Lexeme} (h : IsOperator m l.kind) (hmn : m < n)
    (ls : List Lexeme) : Stops n (l :: ls) := .inr (.inr ⟨m, hmn, h⟩)

/-- An operator of a level is no end of a phrase of that level or a looser one. -/
theorem IsOperator.not_follows {m n : Nat} {k : Kind} (h : IsOperator n k) (hmn : m ≤ n) :
    ¬ Follows m k := by
  have hl := (isOperator_iff.mp h).2
  rintro (rfl | rfl | ⟨i, hi, ho⟩)
  · simp [Precedence.betweenOperands, Precedence.level] at hl
  · simp [Precedence.betweenOperands, Precedence.level] at hl
  · have := (isOperator_iff.mp ho).2
    omega

/-! ## Expressions -/

/-- The number that a lexeme spells, if it spells one. -/
def numberValue (l : Lexeme) : Binary64 := (Binary64.read? l.text.toList).getD .zero

/-- Whether a lexeme spells a number in case it is one. -/
def Readable (l : Lexeme) : Prop := l.kind = .number → (Binary64.read? l.text.toList).isSome

/-- An expression with its lexemes. -/
inductive Phrase where
  /-- A number. -/
  | number (literal : Terminal .number)
  /-- A phrase in parentheses. -/
  | group (opening : Terminal (.symbol .leftParen)) (inner : Phrase)
      (closing : Terminal (.symbol .rightParen))
  /-- An operator between two phrases. -/
  | binary (left : Phrase) (operator : Lexeme) (right : Phrase)

namespace Phrase

/-- The rules for expressions. Operators of one level associate to the left: the level of an
operation is allowed on its left side and not on its right side. -/
inductive AtLevel : Nat → Phrase → Prop
  | number (literal : Terminal .number) : AtLevel levels.length (.number literal)
  | group {inner : Phrase} (opening : Terminal (.symbol .leftParen))
      (closing : Terminal (.symbol .rightParen)) (h : AtLevel 0 inner) :
      AtLevel levels.length (.group opening inner closing)
  | binary {n : Nat} {left right : Phrase} {operator : Lexeme} (ho : IsOperator n operator.kind)
      (hl : AtLevel n left) (hr : AtLevel (n + 1) right) : AtLevel n (.binary left operator right)
  | looser {n : Nat} {d : Phrase} (h : AtLevel (n + 1) d) : AtLevel n d

/-- The lexemes of a phrase in the order of the text. -/
def lexemes : Phrase → List Lexeme
  | number literal => [literal.1]
  | group opening inner closing => opening.1 :: (inner.lexemes ++ [closing.1])
  | binary left operator right => left.lexemes ++ operator :: right.lexemes

/-- The number of phrases that are open at once while the phrase is read. -/
def nesting : Phrase → Nat
  | number _ => 1
  | group _ inner _ => 1 + inner.nesting
  | binary left _ right => max left.nesting (1 + right.nesting)

/-- The number of operators on the longest way down. -/
def height : Phrase → Nat
  | number _ => 0
  | group _ inner _ => inner.height
  | binary left _ right => 1 + max left.height right.height

/-- What the phrase says. -/
def expression : Phrase → Expression
  | number literal => .number (numberValue literal.1)
  | group _ inner _ => inner.expression
  | binary left operator right => .binary left.expression operator.token right.expression

/-- The phrase as an operand of a tree: parentheses leave no node, and every operation has its
operator and both operands. -/
def operand : Phrase → Tree
  | number literal => .value (numberValue literal.1)
  | group _ inner _ => inner.operand
  | binary left operator right => .operation (.binary left.operand operator.token right.operand)

/-- The phrase as what a function returns: only a number, in parentheses or not, is an operation
without an operator. -/
def result : Phrase → Operation
  | number literal => .ofOperand (.value (numberValue literal.1))
  | group _ inner _ => inner.result
  | binary left operator right => .binary left.operand operator.token right.operand

/-- The image of a phrase under a renaming that keeps kinds. -/
def map (f : Lexeme → Lexeme) (hf : ∀ l, (f l).kind = l.kind) : Phrase → Phrase
  | number literal => .number (literal.map f hf)
  | group opening inner closing => .group (opening.map f hf) (inner.map f hf) (closing.map f hf)
  | binary left operator right => .binary (left.map f hf) (f operator) (right.map f hf)

theorem AtLevel.mono {m n : Nat} {d : Phrase} (h : AtLevel n d) (hmn : m ≤ n) : AtLevel m d := by
  induction n, hmn using Nat.le_induction with
  | base => exact h
  | succ n _ ih => exact ih h.looser

/-- A phrase may stand to the left of any operator that comes after it, unless that is tighter. -/
theorem AtLevel.of_follows {n : Nat} {d : Phrase} {k : Kind} (h : AtLevel n d)
    (hk : Follows (n + 1) k) {m : Nat} (hm : IsOperator m k) : AtLevel m d := by
  rcases Nat.lt_or_ge n m with hlt | hge
  · exact absurd hk (hm.not_follows hlt)
  · exact h.mono hge

theorem AtLevel.map {n : Nat} {d : Phrase} (h : AtLevel n d) (f : Lexeme → Lexeme)
    (hf : ∀ l, (f l).kind = l.kind) : AtLevel n (d.map f hf) := by
  induction h with
  | number literal => exact .number _
  | group opening closing _ ih => exact .group _ _ ih
  | binary ho _ _ ihl ihr => exact .binary ((hf _).symm ▸ ho) ihl ihr
  | looser _ ih => exact ih.looser

theorem lexemes_map (f : Lexeme → Lexeme) (hf : ∀ l, (f l).kind = l.kind) (d : Phrase) :
    (d.map f hf).lexemes = d.lexemes.map f := by
  induction d with
  | number literal => rfl
  | group opening inner closing ih => simp [Phrase.map, lexemes, ih, Terminal.map]
  | binary left operator right ihl ihr => simp [Phrase.map, lexemes, ihl, ihr]

theorem nesting_pos (d : Phrase) : 0 < d.nesting := by
  cases d <;> simp only [nesting] <;> omega

theorem height_expression (d : Phrase) : d.expression.height = d.height := by
  induction d with
  | number literal => rfl
  | group opening inner closing ih => exact ih
  | binary left operator right ihl ihr =>
    rw [expression, Expression.height, height, ihl, ihr, Nat.add_comm]

theorem tree_expression (d : Phrase) : d.expression.tree = d.operand := by
  induction d with
  | number literal => rfl
  | group opening inner closing ih => exact ih
  | binary left operator right ihl ihr => rw [expression, Expression.tree, operand, ihl, ihr]

theorem result_expression (d : Phrase) : d.expression.result = d.result := by
  induction d with
  | number literal => rfl
  | group opening inner closing ih => exact ih
  | binary left operator right =>
    rw [expression, Expression.result, result, tree_expression, tree_expression]

end Phrase

/-! ## Statements and functions -/

/-- The word `return`, a phrase and a semicolon. -/
@[ext]
structure Statement where
  /-- The word. -/
  keyword : Terminal (.keyword .return)
  /-- What is returned. -/
  result : Phrase
  /-- The semicolon. -/
  semicolon : Terminal (.symbol .semicolon)
  /-- What is returned follows the rules from the loosest level on. -/
  atLevel : result.AtLevel 0

namespace Statement

variable (r : Statement)

/-- The lexemes of a statement in the order of the text. -/
def lexemes : List Lexeme := r.keyword.1 :: (r.result.lexemes ++ [r.semicolon.1])

/-- The statement as a node of a tree. -/
def tree : Tree := .ret r.result.result

/-- The image of a statement under a renaming that keeps kinds. -/
def map (f : Lexeme → Lexeme) (hf : ∀ l, (f l).kind = l.kind) : Statement :=
  ⟨r.keyword.map f hf, r.result.map f hf, r.semicolon.map f hf, r.atLevel.map f hf⟩

theorem lexemes_map (f : Lexeme → Lexeme) (hf : ∀ l, (f l).kind = l.kind) :
    (r.map f hf).lexemes = r.lexemes.map f := by
  simp [map, lexemes, Phrase.lexemes_map, Terminal.map]

end Statement

/-- One name at least, commas between the names, and perhaps one after the last. -/
@[ext]
structure Parameters where
  /-- The first name. -/
  first : Terminal .identifier
  /-- The other names, each with the comma before it. -/
  others : List (Terminal (.symbol .comma) × Terminal .identifier)
  /-- The comma after the last name. -/
  trailing? : Option (Terminal (.symbol .comma))

namespace Parameters

variable (ps : Parameters)

/-- The lexemes of the parameters in the order of the text. -/
def lexemes : List Lexeme :=
  ps.first.1 :: (ps.others.flatMap (fun p ↦ [p.1.1, p.2.1]) ++ (ps.trailing?.map (·.1)).toList)

/-- The names of the parameters. -/
def names : List String := ps.first.1.text :: ps.others.map (·.2.1.text)

/-- The image of parameters under a renaming that keeps kinds. -/
def map (f : Lexeme → Lexeme) (hf : ∀ l, (f l).kind = l.kind) : Parameters :=
  ⟨ps.first.map f hf, ps.others.map fun p ↦ (p.1.map f hf, p.2.map f hf),
    ps.trailing?.map (·.map f hf)⟩

theorem lexemes_map (f : Lexeme → Lexeme) (hf : ∀ l, (f l).kind = l.kind) :
    (ps.map f hf).lexemes = ps.lexemes.map f := by
  rcases ps with ⟨first, others, _ | comma⟩ <;>
    simp [map, lexemes, Terminal.map, List.flatMap_map, List.map_flatMap]

end Parameters

/-- The lexemes of a list of parameters, which may be empty. -/
def parameterLexemes (ps? : Option Parameters) : List Lexeme := ps?.elim [] Parameters.lexemes

/-- The names in a list of parameters, which may be empty. -/
def parameterNames (ps? : Option Parameters) : List String := ps?.elim [] Parameters.names

namespace Parameters

/-- A name and a comma before other parameters, or as the only ones. -/
def cons (name : Terminal .identifier) (comma : Terminal (.symbol .comma)) :
    Option Parameters → Parameters
  | none => ⟨name, [], some comma⟩
  | some ps => ⟨name, (comma, ps.first) :: ps.others, ps.trailing?⟩

theorem lexemes_cons (name : Terminal .identifier) (comma : Terminal (.symbol .comma))
    (ps? : Option Parameters) :
    (cons name comma ps?).lexemes = name.1 :: comma.1 :: parameterLexemes ps? := by
  cases ps? <;> simp [cons, lexemes, parameterLexemes]

theorem names_cons (name : Terminal .identifier) (comma : Terminal (.symbol .comma))
    (ps? : Option Parameters) :
    (cons name comma ps?).names = name.1.text :: parameterNames ps? := by
  cases ps? <;> simp [cons, names, parameterNames]

end Parameters

/-- A function with its lexemes. -/
@[ext]
structure Declaration where
  /-- The word `func`. -/
  keyword : Terminal (.keyword .func)
  /-- The name of the function. -/
  name : Terminal .identifier
  /-- The parenthesis before the parameters. -/
  opening : Terminal (.symbol .leftParen)
  /-- The parameters, if there are any. -/
  params? : Option Parameters
  /-- The parenthesis after the parameters. -/
  closing : Terminal (.symbol .rightParen)
  /-- The brace before the body. -/
  leftBrace : Terminal (.symbol .leftBrace)
  /-- The statements. -/
  body : List Statement
  /-- The brace after the body. -/
  rightBrace : Terminal (.symbol .rightBrace)

namespace Declaration

variable (d : Declaration)

/-- The lexemes before the brace that opens the body. -/
def header : List Lexeme :=
  d.keyword.1 :: d.name.1 :: d.opening.1 :: (parameterLexemes d.params? ++ [d.closing.1])

/-- The lexemes of a function in the order of the text. -/
def lexemes : List Lexeme :=
  d.header ++ d.leftBrace.1 :: (d.body.flatMap Statement.lexemes ++ [d.rightBrace.1])

/-- What the function says. -/
def function : Function :=
  ⟨d.name.1.text, parameterNames d.params?, d.body.map fun r ↦ r.result.expression⟩

/-- The function as a node of a tree. -/
def tree : Tree := .function d.name.1.text (parameterNames d.params?) (d.body.map Statement.tree)

/-- The image of a function under a renaming that keeps kinds. -/
def map (f : Lexeme → Lexeme) (hf : ∀ l, (f l).kind = l.kind) : Declaration :=
  ⟨d.keyword.map f hf, d.name.map f hf, d.opening.map f hf, d.params?.map (·.map f hf),
    d.closing.map f hf, d.leftBrace.map f hf, d.body.map (·.map f hf), d.rightBrace.map f hf⟩

theorem lexemes_map (f : Lexeme → Lexeme) (hf : ∀ l, (f l).kind = l.kind) :
    (d.map f hf).lexemes = d.lexemes.map f := by
  rcases d with ⟨keyword, name, opening, _ | ps, closing, leftBrace, body, rightBrace⟩ <;>
    simp [map, lexemes, header, parameterLexemes, Terminal.map, Parameters.lexemes_map,
      List.flatMap_map, List.map_flatMap, Statement.lexemes_map]

theorem tree_function : d.function.tree = d.tree := by
  simp only [Function.tree, function, tree, statements, List.map_map]
  congr 1
  apply List.map_congr_left
  intro r _
  simp only [Function.comp_apply, Phrase.result_expression, Statement.tree]

end Declaration

/-! ## Programs -/

/-- A program with its lexemes. -/
@[ext]
structure Derivation where
  /-- The functions. -/
  declarations : List Declaration
  /-- The end. -/
  last : Terminal .endOfSource

namespace Derivation

variable (d : Derivation)

/-- The lexemes of a program in the order of the text. -/
def lexemes : List Lexeme := d.declarations.flatMap Declaration.lexemes ++ [d.last.1]

/-- What the program says. -/
def program : Program := ⟨d.declarations.map Declaration.function⟩

/-- The program as a tree. -/
def tree : Tree := .root (d.declarations.map Declaration.tree)

/-- Whether neither the nesting nor the height of what is returned passes `limit`. -/
def Within (limit : Nat) : Prop :=
  ∀ f ∈ d.declarations, ∀ r ∈ f.body, r.result.nesting ≤ limit ∧ r.result.height ≤ limit

/-- The image of a program under a renaming that keeps kinds. -/
def map (f : Lexeme → Lexeme) (hf : ∀ l, (f l).kind = l.kind) : Derivation :=
  ⟨d.declarations.map (·.map f hf), d.last.map f hf⟩

theorem lexemes_map (f : Lexeme → Lexeme) (hf : ∀ l, (f l).kind = l.kind) :
    (d.map f hf).lexemes = d.lexemes.map f := by
  simp [map, lexemes, Terminal.map, List.flatMap_map, List.map_flatMap, Declaration.lexemes_map]

theorem tree_program : d.program.tree = d.tree := by
  simp only [Program.tree, program, tree, List.map_map]
  congr 1
  exact List.map_congr_left fun f _ ↦ f.tree_function

end Derivation

end InfixCompiler.Grammar
