import InfixCompiler.Binary64
import InfixCompiler.Token

/-!
# Trees

The tree of a program as any tool may build it. Nothing here keeps a tree well formed: a function
may stand where an operand belongs, and an operation may lack its operator or its right operand.
What lowering accepts of them it decides itself. The trees of programs that were read from text are
`Program.tree`.

An operation stands below a return as well as among the operands, so it is a type of its own beside
the trees. One that has neither operator nor right operand stands for its left operand alone.
-/

namespace InfixCompiler

mutual

/-- A node of a tree with all below it. -/
inductive Tree where
  /-- A whole program. -/
  | root (declarations : List Tree)
  /-- A function, whose body is a block. -/
  | function (name : String) (params : List String) (body : List Tree)
  /-- Statements in order. -/
  | block (statements : List Tree)
  /-- The end of a function, with its result. -/
  | ret (result : Operation)
  /-- An operation as an operand. -/
  | operation (operation : Operation)
  /-- A number as an operand. -/
  | value (x : Binary64)

/-- An operator and its operands. -/
structure Operation where
  /-- The token of the operator. -/
  operator? : Option Token
  /-- What is before the operator. -/
  left : Tree
  /-- What is after the operator. -/
  right? : Option Tree

end

/-- An operation that stands for its only operand. -/
def Operation.ofOperand (operand : Tree) : Operation := ⟨none, operand, none⟩

/-- An operator between two operands. -/
def Operation.binary (left : Tree) (operator : Token) (right : Tree) : Operation :=
  ⟨some operator, left, some right⟩

/-- The forms that a node can have. -/
inductive Tree.Form where
  | root | function | block | ret | operation | value
deriving DecidableEq

/-- What messages call a node of a form. -/
def Tree.Form.describe : Tree.Form → String
  | root => "a root node"
  | function => "a function declaration"
  | block => "a block"
  | ret => "a return statement"
  | operation => "an expression"
  | value => "a value"

/-- The form of the topmost node. -/
def Tree.form : Tree → Tree.Form
  | .root _ => .root
  | .function .. => .function
  | .block _ => .block
  | .ret _ => .ret
  | .operation _ => .operation
  | .value _ => .value

/-! ## Equality

Two trees are equal if they have the same shape, names and operators and equal numbers. Tokens are
equal only if they are at the same place. A tree that holds a NaN is unequal to itself. -/

mutual

/-- Equality of trees, with numbers compared as numbers. -/
def Tree.ieeeEq : Tree → Tree → Bool
  | .root ds, .root es => Tree.ieeeEqList ds es
  | .function f ps b, .function g qs c => f == g && ps == qs && Tree.ieeeEqList b c
  | .block b, .block c => Tree.ieeeEqList b c
  | .ret e, .ret f => e.ieeeEq f
  | .operation e, .operation f => e.ieeeEq f
  | .value x, .value y => x.ieeeEq y
  | _, _ => false

/-- Equality of operations, with numbers compared as numbers. -/
def Operation.ieeeEq : Operation → Operation → Bool
  | ⟨o, l, some r⟩, ⟨p, m, some s⟩ => o == p && l.ieeeEq m && r.ieeeEq s
  | ⟨o, l, none⟩, ⟨p, m, none⟩ => o == p && l.ieeeEq m
  | _, _ => false

/-- Equality of lists of trees, with numbers compared as numbers. -/
def Tree.ieeeEqList : List Tree → List Tree → Bool
  | [], [] => true
  | t :: ts, u :: us => t.ieeeEq u && Tree.ieeeEqList ts us
  | _, _ => false

end

end InfixCompiler
