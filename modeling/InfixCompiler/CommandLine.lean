import InfixCompiler.Compilation
import InfixCompiler.Tree.Outline

/-!
# The command line

The program takes the path of a source and prints what each stage makes of it: the tokens, the tree
and the module. If a stage fails, what the stages before it made is printed all the same, and the
diagnostic goes to the other output.
-/

namespace InfixCompiler

/-- What a run of the program leaves behind. -/
structure Outcome where
  /-- The exit code. -/
  code : UInt32
  /-- What is printed. -/
  output : String
  /-- What is printed as an error. -/
  errors : String
deriving DecidableEq

namespace CommandLine

/-- The tokens of a source, printed. -/
def tokenDump (tokens : List Token) : String :=
  Text.rows ("-- tokens --" :: tokens.map Token.render)

/-- The tree of a program, printed. -/
def treeDump (p : Program) : String :=
  Text.row "-- syntax tree --" ++ Text.row p.tree.render

/-- What is printed of the stages of a source before its module. -/
def stages (s : Source) : String :=
  match s.tokens with
  | .error _ => ""
  | .ok tokens =>
    tokenDump tokens ++
      match s.program with
      | .error _ => ""
      | .ok p => treeDump p

/-- The outcome of compiling a source. -/
def report (s : Source) : Outcome :=
  match s.compile with
  | .ok m => ⟨0, stages s ++ m.render, ""⟩
  | .error fault => ⟨1, stages s, Text.row (fault.diagnostic s).render⟩

/-- The outcome without a path. -/
def usage : Outcome := ⟨2, "", Text.row "Usage: winter <path>"⟩

/-- The outcome for a path without a source. -/
def unreadable : Outcome := ⟨1, "", Text.row "Error: File could not be read"⟩

/-- The outcome of a run. Of the arguments only the first counts. -/
def run {m : Type → Type} [Monad m] (read : String → m (Except ReadFault Source)) :
    (args : List String) → m Outcome
  | [] => return usage
  | path :: _ => do
    match ← read path with
    | .ok s => return report s
    | .error _ => return unreadable

end CommandLine

end InfixCompiler
