import InfixCompiler.Tree

/-!
# Programs

What reading a text yields. A program is a list of functions, and a function is its name, its
parameters and the expressions that it returns one after the other. Expressions are numbers and
binary operations, so there is no ill-formed program; each is also a `Tree`, which is what is
printed and lowered.

Parentheses leave no trace. An operator keeps its token, and with it its place in the text.
-/

namespace InfixCompiler

/-- A number, or an operator between two expressions. -/
inductive Expression where
  /-- A number. -/
  | number (x : Binary64)
  /-- An operator between two expressions. -/
  | binary (left : Expression) (operator : Token) (right : Expression)
deriving DecidableEq

namespace Expression

/-- The number of operators on the longest way down. -/
def height : Expression → Nat
  | number _ => 0
  | binary left _ right => max left.height right.height + 1

/-- The expression as an operand of a tree. -/
def tree : Expression → Tree
  | number x => .value x
  | binary left operator right => .operation (.binary left.tree operator right.tree)

/-- The expression as the result of a function. A number alone is wrapped. -/
def result : Expression → Operation
  | number x => .ofOperand (.value x)
  | binary left operator right => .binary left.tree operator right.tree

end Expression

/-- A function of a program. -/
structure Function where
  /-- Its name. -/
  name : String
  /-- The names of its parameters. -/
  params : List String
  /-- What it returns, one result after the other. -/
  returns : List Expression
deriving DecidableEq

/-- The statements that return expressions. -/
def statements (returns : List Expression) : List Tree := returns.map fun e ↦ .ret e.result

theorem statements_cons (e : Expression) (returns : List Expression) :
    statements (e :: returns) = .ret e.result :: statements returns := rfl

/-- The function as a tree. -/
def Function.tree (f : Function) : Tree := .function f.name f.params (statements f.returns)

/-- Functions in the order of the text. -/
structure Program where
  /-- The functions. -/
  functions : List Function
deriving DecidableEq

/-- The program as a tree. -/
def Program.tree (p : Program) : Tree := .root (p.functions.map Function.tree)

end InfixCompiler
