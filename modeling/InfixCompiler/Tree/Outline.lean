import InfixCompiler.Binary64.Shortest
import InfixCompiler.Tree

/-!
# Outlines of trees

The outline of a tree lists its nodes from the top down and from left to right, each with its depth
and a label of its own. Printed, a node takes one line, indented by two spaces for each level, so a
tree can be read back from its outline.
-/

namespace InfixCompiler

/-- What a node shows apart from what is below it. -/
inductive Tree.Label where
  /-- A whole program. -/
  | root
  /-- A function with its name and its parameters. -/
  | function (name : String) (params : List String)
  /-- A block. -/
  | block
  /-- A return. -/
  | ret
  /-- An operation with its operator. -/
  | operation (operator? : Option Token)
  /-- A number. -/
  | value (x : Binary64)
deriving DecidableEq

/-- The text of a label. An operator is shown by its spelling, if its kind has one. -/
def Tree.Label.text : Tree.Label → String
  | .root => "Root"
  | .function name params => s!"Func {name}(" ++ String.intercalate ", " params ++ ")"
  | .block => "Block"
  | .ret => "Return"
  | .operation operator? =>
    match operator?.bind fun t ↦ t.kind.spelling? with
    | some spelling => "Expr " ++ spelling
    | none => "Expr"
  | .value x => "Value " ++ x.render

mutual

/-- The labels of a tree at a depth. -/
def Tree.outline (depth : Nat) : Tree → List (Nat × Tree.Label)
  | .root ds => (depth, .root) :: Tree.outlines (depth + 1) ds
  | .function name params body =>
    (depth, .function name params) :: (depth + 1, .block) :: Tree.outlines (depth + 2) body
  | .block b => (depth, .block) :: Tree.outlines (depth + 1) b
  | .ret e => (depth, .ret) :: e.outline (depth + 1)
  | .operation e => e.outline depth
  | .value x => [(depth, .value x)]

/-- The labels of an operation at a depth. -/
def Operation.outline (depth : Nat) : Operation → List (Nat × Tree.Label)
  | ⟨operator?, left, some right⟩ =>
    (depth, .operation operator?) :: (left.outline (depth + 1) ++ right.outline (depth + 1))
  | ⟨operator?, left, none⟩ => (depth, .operation operator?) :: left.outline (depth + 1)

/-- The labels of trees that are all at a depth. -/
def Tree.outlines (depth : Nat) : List Tree → List (Nat × Tree.Label)
  | [] => []
  | t :: ts => t.outline depth ++ Tree.outlines depth ts

end

/-- The tree with one line for each node. -/
def Tree.render (t : Tree) : String :=
  Text.rows ((t.outline 0).map fun (depth, label) ↦ Text.blank (2 * depth) ++ label.text)

end InfixCompiler
