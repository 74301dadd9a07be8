import InfixCompiler.Program.Parser
import InfixCompiler.Token.Lexer
import InfixCompiler.Tree.Lowering

/-!
# Compiling a source

Text to tokens, tokens to a program, the tree of the program to a module. The first stage that fails
ends the work, and its fault is the fault of the whole.
-/

namespace InfixCompiler

/-- Why a source has no module. -/
inductive CompileFault where
  /-- The text is no sequence of tokens. -/
  | lexing (failure : LexFailure)
  /-- The tokens are no program. -/
  | parsing (fault : ParseFault)
  /-- The program has no code. -/
  | lowering (fault : LoweringFault)
deriving DecidableEq

/-- The fault as a reader is told of it. -/
def CompileFault.diagnostic (source : Source) : CompileFault → Diagnostic
  | lexing failure => failure.diagnostic source
  | parsing fault => fault.diagnostic source
  | lowering fault => fault.diagnostic

namespace Source

variable (s : Source)

/-- The program that a source spells. -/
def program : Except CompileFault Program :=
  match s.tokens with
  | .error failure => .error (.lexing failure)
  | .ok tokens => (Program.ofTokens defaultLimit s tokens).mapError .parsing

/-- The code of the program that a source spells. -/
def compile : Except CompileFault Module :=
  match s.program with
  | .error fault => .error fault
  | .ok p => p.tree.lower.mapError .lowering

end Source

end InfixCompiler
