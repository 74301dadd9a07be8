import InfixCompiler.Compilation
import InfixCompiler.Proofs.Lexing.Concatenation
import InfixCompiler.Proofs.Reading.Derivations
import InfixCompiler.Proofs.Reading.Parametricity

/-!
# Sources and their programs

What the stages do one after the other. A source spells a program if it has lexemes, and these are
in the grammar and within the limit (`Source.program_eq_ok_iff`). Its module is what the tree of the
program is lowered to. Code has no places, so that programs which are the same but for places have
the same code.
-/

namespace InfixCompiler

open Grammar

/-! ## Programs and code -/

theorem Expression.lower_result (e : Expression) : e.result.lower = e.tree.lowerOperand := by
  cases e <;> rfl

namespace Program

variable {p : Program}

theorem lower_tree_eq_ok_iff {m : Module} : p.tree.lower = .ok m ↔
    (assemble (p.functions.map Function.tree)).fault? = none ∧
      m = ⟨"main", (assemble (p.functions.map Function.tree)).chunks⟩ := by
  rw [tree, Tree.lower]
  split
  · next h => simp [h, eq_comm]
  · next h => simp [h]

theorem lower_tree_eq_error_iff {fault : LoweringFault} : p.tree.lower = .error fault ↔
    (assemble (p.functions.map Function.tree)).fault? = some fault := by
  rw [tree, Tree.lower]
  split
  · next h => simp [h]
  · next h => simp [h]

end Program

section Alike

variable {R : Token → Token → Prop} (hR : KeepsKinds R)
include hR

theorem Expression.Alike.lowerOperand_tree {e e' : Expression} (h : e.Alike R e') :
    e.tree.lowerOperand = e'.tree.lowerOperand := by
  induction h with
  | number x => rfl
  | binary _ ho _ ihe ihf =>
    rw [Expression.tree, Expression.tree, Tree.lowerOperand, Tree.lowerOperand, Operation.binary,
      Operation.binary, Operation.lower, Operation.lower, ihe, ihf, hR ho]

theorem lowerBody_congr {es es' : List Expression} (h : List.Forall₂ (Expression.Alike R) es es') :
    lowerBody (statements es) = lowerBody (statements es') := by
  induction h with
  | nil => rfl
  | @cons e e' es es' he _ ih =>
    rw [statements_cons, statements_cons, lowerBody_cons, lowerBody_cons, ih, Tree.lowerStatement,
      Tree.lowerStatement, Expression.lower_result, Expression.lower_result,
      he.lowerOperand_tree hR]

theorem assemble_congr {fs fs' : List Function} (h : List.Forall₂ (Function.Alike R) fs fs') :
    assemble (fs.map Function.tree) = assemble (fs'.map Function.tree) := by
  induction h with
  | nil => rfl
  | cons hf _ ih =>
    rw [List.map_cons, List.map_cons, Function.tree, Function.tree, assemble, assemble, hf.name,
      lowerBody_congr hR hf.returns, ih]

end Alike

/-! ## Sources and programs -/

namespace Source

variable {s : Source} {ls : List Lexeme}

/-- The cursor at the first lexeme of a source. -/
theorem ofTokens_of_lexes (h : Lexes [] s.chars ls) :
    Cursor.ofTokens s (ls.map Lexeme.token ++ [.endAt s.size]) = ⟨ls, s.size, 0, 0⟩ ∧
      ∀ l ∈ ls, IsLexeme l.text.toList l.kind := by
  obtain ⟨ls', hls', hcursor, hlexemes⟩ := exists_ofTokens (tokens_of_lexes h)
  obtain ⟨rfl, -⟩ := List.append_inj' ((lexemes_of_lexes h).symm.trans hlexemes) rfl
  exact ⟨hcursor, hls'⟩

/-- What reading the tokens of a source comes to. -/
theorem program_of_lexes (h : Lexes [] s.chars ls) :
    s.program = match (Parser.program defaultLimit).run ⟨ls, s.size, 0, 0⟩ with
      | .ok p _ => .ok p
      | .error fault _ => .error (.parsing fault) := by
  rw [program, tokens_of_lexes h]
  dsimp only
  rw [Program.ofTokens, (ofTokens_of_lexes h).1]
  cases (Parser.program defaultLimit).run ⟨ls, s.size, 0, 0⟩ with
  | ok p c => rfl
  | error fault c => rfl

/-- A source spells the programs of the derivations of its lexemes. -/
theorem program_eq_ok_iff {p : Program} : s.program = .ok p ↔
    ∃ (ls : List Lexeme) (d : Derivation), Lexes [] s.chars ls ∧
      d.lexemes = ls ++ [⟨.endAt s.size, ""⟩] ∧ d.Within defaultLimit ∧ p = d.program := by
  constructor
  · intro hp
    cases htokens : s.tokens with
    | error failure =>
      rw [program, htokens] at hp
      exact absurd hp (by simp)
    | ok tokens =>
      obtain ⟨ls, hls, -⟩ := exists_lexes_of_tokens htokens
      rw [program_of_lexes hls] at hp
      split at hp
      · next p' c hrun =>
        obtain rfl := Except.ok.inj hp
        obtain ⟨d, hd⟩ := Derivation.exists_of_run (ofTokens_of_lexes hls).2 hrun
        exact ⟨ls, d, hls, hd⟩
      · exact absurd hp (by simp)
  · rintro ⟨ls, d, hls, hd, hlimit, rfl⟩
    obtain ⟨c, hrun⟩ := Derivation.run_program (ofTokens_of_lexes hls).2 hd hlimit
    rw [program_of_lexes hls, hrun]

/-- A source spells no program if it has no tokens, or its tokens are no program. -/
theorem program_eq_error_iff {fault : CompileFault} : s.program = .error fault ↔
    (∃ failure, s.tokens = .error failure ∧ fault = .lexing failure) ∨
      ∃ tokens f, s.tokens = .ok tokens ∧ Program.ofTokens defaultLimit s tokens = .error f ∧
        fault = .parsing f := by
  rw [program]
  cases s.tokens with
  | error failure => simp [eq_comm]
  | ok tokens =>
    cases h : Program.ofTokens defaultLimit s tokens with
    | error f => simp [h, Except.mapError, eq_comm]
    | ok p => simp [h, Except.mapError]

/-- A source has a module if it spells a program that has one. -/
theorem compile_eq_ok_iff {m : Module} :
    s.compile = .ok m ↔ ∃ p, s.program = .ok p ∧ p.tree.lower = .ok m := by
  rw [compile]
  cases s.program with
  | error fault => simp
  | ok p =>
    cases h : p.tree.lower with
    | error fault => simp [h, Except.mapError]
    | ok m' => simp [h, Except.mapError]

/-- A source has no module if it spells no program, or one without code. -/
theorem compile_eq_error_iff {fault : CompileFault} : s.compile = .error fault ↔
    s.program = .error fault ∨
      ∃ p f, s.program = .ok p ∧ p.tree.lower = .error f ∧ fault = .lowering f := by
  rw [compile]
  cases s.program with
  | error fault => simp
  | ok p =>
    cases h : p.tree.lower with
    | error f => simp [h, Except.mapError, eq_comm]
    | ok m => simp [h, Except.mapError]

/-- A module is that of a derivation of the lexemes of its source. -/
theorem exists_derivation_of_compile {m : Module} (h : s.compile = .ok m) :
    ∃ (ls : List Lexeme) (d : Derivation), Lexes [] s.chars ls ∧
      (∀ l ∈ ls, IsLexeme l.text.toList l.kind) ∧
      d.lexemes = ls ++ [⟨.endAt s.size, ""⟩] ∧ d.tree.lower = .ok m := by
  obtain ⟨p, hp, hm⟩ := compile_eq_ok_iff.mp h
  obtain ⟨ls, d, hls, hd, -, rfl⟩ := program_eq_ok_iff.mp hp
  exact ⟨ls, d, hls, (ofTokens_of_lexes hls).2, hd, d.tree_program ▸ hm⟩

end Source

end InfixCompiler
