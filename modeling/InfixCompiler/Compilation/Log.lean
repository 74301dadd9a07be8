import InfixCompiler.Compilation

/-!
# The log of a compilation

Each stage says what it was given and, if it comes to its end, what it made of it. In between are
the tokens as they are found and the instructions as they are emitted, so that the log of a
compilation that failed ends where the failure was met.

A `Stage` is what was logged and what came of it, and the stages of a compilation are bound one to
the next. Scans and emissions keep what was done before a failure, which is what is logged of it.
-/

namespace InfixCompiler

/-- How much a line of the log matters. -/
inductive LogLevel where
  /-- The progress of the whole. -/
  | debug
  /-- The progress of a stage. -/
  | trace
deriving DecidableEq

/-- What a line of the log tells. -/
inductive LogEvent where
  /-- A source is to be read as tokens. -/
  | lexing (path : String) (size : Nat)
  /-- A token was found. -/
  | token (t : Token)
  /-- So many tokens were found, with the end. -/
  | lexed (tokens : Nat)
  /-- So many tokens are to be read as a program. -/
  | parsing (tokens : Nat)
  /-- So many declarations were read. -/
  | parsed (declarations : Nat)
  /-- So many declarations are to be lowered. -/
  | generating (declarations : Nat)
  /-- An instruction was put at the end of a chunk. -/
  | emitted (chunk : String) (i : Instruction)
  /-- So many chunks were made. -/
  | generated (chunks : Nat)
deriving DecidableEq

namespace LogEvent

/-- The level of a line. -/
def level : LogEvent → LogLevel
  | token _ | emitted .. => .trace
  | _ => .debug

/-- The text of a line. -/
def text : LogEvent → String
  | lexing path size => s!"lexing {path} ({size} bytes)"
  | token t => t.render
  | lexed tokens => s!"lexed {tokens} tokens"
  | parsing tokens => s!"parsing {tokens} tokens"
  | parsed declarations => s!"parsed {declarations} declarations"
  | generating declarations => s!"generating bytecode for {declarations} declarations"
  | emitted chunk i => s!"{chunk}: emit {i.render}"
  | generated chunks => s!"generated {chunks} chunks"

end LogEvent

/-! ## Work that is logged -/

/-- A part of a compilation, whose log there is whether it comes to its end or not. -/
structure Stage (α : Type) where
  /-- The events in order. -/
  log : List LogEvent
  /-- What was made, or why there is nothing. -/
  outcome : Except CompileFault α

namespace Stage

/-- Events that are logged. -/
def tell (events : List LogEvent) : Stage Unit := ⟨events, .ok ()⟩

/-- An outcome without a log. -/
def ofExcept {α : Type} (outcome : Except CompileFault α) : Stage α := ⟨[], outcome⟩

/-- Nothing is logged after a failure. -/
instance : Monad Stage where
  pure a := ofExcept (.ok a)
  bind x f :=
    match x.outcome with
    | .error fault => ⟨x.log, .error fault⟩
    | .ok a => ⟨x.log ++ (f a).log, (f a).outcome⟩

section Binding

variable {α β : Type} (f : α → Stage β) (a : α) (log : List LogEvent) (fault : CompileFault)

@[simp] theorem mk_ok_bind :
    (Stage.mk log (.ok a)) >>= f = ⟨log ++ (f a).log, (f a).outcome⟩ := rfl

@[simp] theorem mk_error_bind : (Stage.mk log (.error fault)) >>= f = ⟨log, .error fault⟩ := rfl

@[simp] theorem tell_bind (f : Unit → Stage β) :
    tell log >>= f = ⟨log ++ (f ()).log, (f ()).outcome⟩ := rfl

@[simp] theorem ofExcept_ok_bind : ofExcept (.ok a) >>= f = f a := rfl

@[simp] theorem ofExcept_error_bind :
    ofExcept (.error fault) >>= f = ofExcept (.error fault) := rfl

end Binding

/-! ## The stages -/

/-- A source is read as tokens. Those that were found before a failure are logged as well. -/
def lex (s : Source) : Stage (List Token) := do
  tell [.lexing s.path s.size]
  tell (s.scan.tokens.map .token)
  let tokens ← ofExcept (s.tokens.mapError .lexing)
  tell [.lexed tokens.length]
  return tokens

/-- Tokens are read as a program. Those that the cursor goes over are counted, with the end that it
has at their end. -/
def parse (s : Source) (tokens : List Token) : Stage Program := do
  tell [.parsing (Cursor.ofTokens s tokens).tokens.length]
  let p ← ofExcept ((Program.ofTokens defaultLimit s tokens).mapError .parsing)
  tell [.parsed p.functions.length]
  return p

/-- A declaration is lowered. -/
def lowerDeclaration : Tree → Stage Chunk
  | .function name _ body => do
    tell ((lowerBody body).code.map (.emitted name))
    ofExcept ((lowerFunction name body).mapError .lowering)
  | t => ofExcept (.error (.lowering (.noFunction t.form)))

/-- Declarations are lowered one after the other. -/
def lowerDeclarations : List Tree → Stage (List Chunk)
  | [] => return []
  | t :: declarations => do
    let chunk ← lowerDeclaration t
    let chunks ← lowerDeclarations declarations
    return chunk :: chunks

/-- A root is lowered. -/
def lower : Tree → Stage Module
  | .root declarations => do
    tell [.generating declarations.length]
    let chunks ← lowerDeclarations declarations
    tell [.generated chunks.length]
    return ⟨"main", chunks⟩
  | t => ofExcept (.error (.lowering (.noRoot t.form)))

/-- A source is compiled. -/
def compile (s : Source) : Stage Module := do
  let tokens ← lex s
  let p ← parse s tokens
  lower p.tree

end Stage

/-- The log of compiling a source. -/
def Source.log (s : Source) : List LogEvent := (Stage.compile s).log

end InfixCompiler
