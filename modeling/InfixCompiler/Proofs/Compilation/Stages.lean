import InfixCompiler.Compilation.Log
import InfixCompiler.Proofs.Compilation
import InfixCompiler.Proofs.Session.Position

/-!
# Stages and their logs

The stages that log what they do come to the same as those that do not (`Stage.outcome_compile`), so
a log is about the compilation that it was written by. Each stage is described by what it logs and
what it comes to, once for failure and once for success, and nothing is logged after a failure. So
the log of a source is that of the first stage, of two, or of all three.

The code of declarations is logged declaration by declaration, and that of the last one up to its
fault. This is what an assembly of chunks has, by induction on the declarations
(`Stage.lowerDeclarations_eq`).
-/

namespace InfixCompiler

namespace Stage

variable {s : Source} {tokens : List Token} {p : Program}

/-! ## Tokens and programs -/

theorem lex_of_error {failure : LexFailure} (h : s.tokens = .error failure) :
    lex s = ⟨.lexing s.path s.size :: s.scan.tokens.map .token, .error (.lexing failure)⟩ := by
  simp [lex, h, Except.mapError, ofExcept]

theorem lex_of_ok (h : s.tokens = .ok tokens) : lex s =
    ⟨.lexing s.path s.size :: s.scan.tokens.map .token ++ [.lexed tokens.length],
      .ok tokens⟩ := by
  simp [lex, h, Except.mapError, pure, ofExcept]

theorem parse_of_error {fault : ParseFault}
    (h : Program.ofTokens defaultLimit s tokens = .error fault) :
    parse s tokens = ⟨[.parsing (s.capped tokens).length], .error (.parsing fault)⟩ := by
  simp [parse, h, Except.mapError, ofExcept, Cursor.tokens_ofTokens]

theorem parse_of_ok (h : Program.ofTokens defaultLimit s tokens = .ok p) : parse s tokens =
    ⟨[.parsing (s.capped tokens).length, .parsed p.functions.length], .ok p⟩ := by
  simp [parse, h, Except.mapError, pure, ofExcept, Cursor.tokens_ofTokens]

/-! ## Code -/

/-- The events of the code of chunks. -/
def emissions (chunks : List Chunk) : List LogEvent :=
  chunks.flatMap fun c ↦ c.code.map (.emitted c.name)

/-- Each declaration logs what was emitted of it, the one with a fault as well. -/
theorem lowerDeclarations_eq (declarations : List Tree) : lowerDeclarations declarations =
    ⟨emissions (assemble declarations).chunks,
      match (assemble declarations).fault? with
      | none => .ok (assemble declarations).chunks
      | some fault => .error (.lowering fault)⟩ := by
  induction declarations with
  | nil => rfl
  | cons t declarations ih =>
    cases t with
    | function name params body =>
      rw [lowerDeclarations, lowerDeclaration, lowerFunction, assemble, ih]
      cases hbody : (lowerBody body).fault? with
      | some fault => simp [emissions, Except.mapError, ofExcept]
      | none =>
        cases hothers : (assemble declarations).fault? <;>
          simp [emissions, Except.mapError, pure, ofExcept]
    | _ => rfl

variable {declarations : List Tree}

theorem lower_of_fault {fault : LoweringFault} (h : (assemble declarations).fault? = some fault) :
    lower (.root declarations) =
      ⟨.generating declarations.length :: emissions (assemble declarations).chunks,
        .error (.lowering fault)⟩ := by
  simp [lower, lowerDeclarations_eq, h]

theorem lower_of_no_fault (h : (assemble declarations).fault? = none) :
    lower (.root declarations) =
      ⟨.generating declarations.length :: emissions (assemble declarations).chunks ++
          [.generated (assemble declarations).chunks.length],
        .ok ⟨"main", (assemble declarations).chunks⟩⟩ := by
  simp [lower, lowerDeclarations_eq, h, pure, ofExcept]

/-! ## Outcomes -/

theorem outcome_lower (t : Tree) : (lower t).outcome = t.lower.mapError .lowering := by
  cases t with
  | root declarations =>
    rw [Tree.lower]
    split
    · next h => rw [lower_of_no_fault h, Except.mapError]
    · next h => rw [lower_of_fault h, Except.mapError]
  | _ => rfl

/-- The log changes nothing of what a source is compiled to. -/
theorem outcome_compile (s : Source) : (compile s).outcome = s.compile := by
  rw [compile, Source.compile, Source.program]
  cases htokens : s.tokens with
  | error failure => rw [lex_of_error htokens, mk_error_bind]
  | ok tokens =>
    rw [lex_of_ok htokens, mk_ok_bind]
    dsimp only
    cases hprogram : Program.ofTokens defaultLimit s tokens with
    | error fault => rw [parse_of_error hprogram, mk_error_bind, Except.mapError]
    | ok p =>
      rw [parse_of_ok hprogram, mk_ok_bind, Except.mapError]
      exact outcome_lower p.tree

end Stage

/-! ## The log of a source -/

namespace Source

open Stage

variable {s : Source} {tokens : List Token} {p : Program}

theorem log_of_tokens_error {failure : LexFailure} (h : s.tokens = .error failure) :
    s.log = .lexing s.path s.size :: s.scan.tokens.map .token := by
  rw [log, Stage.compile, lex_of_error h, mk_error_bind]

theorem log_of_parse_error {fault : ParseFault} (h : s.tokens = .ok tokens)
    (hp : Program.ofTokens defaultLimit s tokens = .error fault) :
    s.log = .lexing s.path s.size :: s.scan.tokens.map .token ++
      [.lexed tokens.length, .parsing (s.capped tokens).length] := by
  rw [log, Stage.compile, lex_of_ok h, mk_ok_bind, parse_of_error hp, mk_error_bind]
  simp

theorem log_of_program (h : s.tokens = .ok tokens)
    (hp : Program.ofTokens defaultLimit s tokens = .ok p) :
    s.log = .lexing s.path s.size :: s.scan.tokens.map .token ++
      [.lexed tokens.length, .parsing (s.capped tokens).length, .parsed p.functions.length] ++
      (lower p.tree).log := by
  rw [log, Stage.compile, lex_of_ok h, mk_ok_bind, parse_of_ok hp, mk_ok_bind]
  simp

end Source

end InfixCompiler
