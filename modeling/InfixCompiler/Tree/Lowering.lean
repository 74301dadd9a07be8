import InfixCompiler.Chunk
import InfixCompiler.Diagnostic
import InfixCompiler.Tree

/-!
# Lowering trees to code

A function becomes a chunk, a return its operation followed by `ret`, and an operation its left
operand, its right operand and its opcode: each part leaves one more number on the stack than it
found there.

Trees need not be well formed. Lowering goes through a tree in the order of the code and stops at
the first part that has none; what was emitted before it is kept in an `Emission`, so that a log can
show how far lowering came. An operation is looked at after its left operand and before its right
one, and its operator last.
-/

namespace InfixCompiler

/-! ## Faults -/

/-- Why a tree has no code. -/
inductive LoweringFault where
  /-- What is to be a module is no root. -/
  | noRoot (found : Tree.Form)
  /-- What is to be a chunk is no function. -/
  | noFunction (found : Tree.Form)
  /-- A statement other than a return. -/
  | noReturn (found : Tree.Form)
  /-- What is to be an operand is neither a number nor an operation. -/
  | noOperand (found : Tree.Form)
  /-- An operator with nothing after it. -/
  | noRight (operator : Kind)
  /-- Two operands with nothing between them. -/
  | noOperator
  /-- An operator that the machine does not have. -/
  | noOpcode (operator : Kind)
deriving DecidableEq

namespace LoweringFault

/-- The fault in words. -/
def reason : LoweringFault → String
  | noRoot found => s!"Expected a root node, found {found.describe}"
  | noFunction found =>
    s!"Only function declarations can be lowered at the top level, found {found.describe}"
  | noReturn found => s!"Statements of this kind can not be lowered yet: found {found.describe}"
  | noOperand found => s!"Expected an operand, found {found.describe}"
  | noRight operator => s!"Operator {operator.describe} is missing its right operand"
  | noOperator => "Expression has a right operand but no operator"
  | noOpcode operator => s!"Operator {operator.describe} has no bytecode lowering"

/-- The fault as a reader is told of it. A tree knows no places. -/
def diagnostic (f : LoweringFault) : Diagnostic := ⟨.generation, f.reason, []⟩

end LoweringFault

/-! ## Emissions -/

/-- Code, and what stopped it from going on. -/
structure Emission where
  /-- The instructions in order. -/
  code : List Instruction
  /-- What is wrong after them. -/
  fault? : Option LoweringFault
deriving DecidableEq

namespace Emission

/-- No code. -/
def empty : Emission := ⟨[], none⟩

/-- One instruction. -/
def emit (i : Instruction) : Emission := ⟨[i], none⟩

/-- A fault without code. -/
def fail (f : LoweringFault) : Emission := ⟨[], some f⟩

/-- What comes after an emission, unless that has a fault. -/
def andThen (e e' : Emission) : Emission :=
  match e.fault? with
  | none => ⟨e.code ++ e'.code, e'.fault?⟩
  | some _ => e

/-- Emissions one after the other, up to the first fault. -/
def sequence (es : List Emission) : Emission := es.foldr andThen empty

theorem empty_andThen (e : Emission) : empty.andThen e = e := rfl

theorem andThen_empty (e : Emission) : e.andThen empty = e := by
  rcases e with ⟨code, _ | f⟩ <;> simp [andThen, empty]

theorem andThen_assoc (e e' e'' : Emission) :
    (e.andThen e').andThen e'' = e.andThen (e'.andThen e'') := by
  rcases e with ⟨code, _ | f⟩ <;> rcases e' with ⟨code', _ | f'⟩ <;> simp [andThen]

end Emission

/-! ## Expressions -/

/-- The opcode of an operator. -/
def lowerOperator (operator : Kind) : Emission :=
  match Opcode.ofOperator operator with
  | .nil => .fail (.noOpcode operator)
  | opcode => .emit (.plain opcode)

/-- Whether a token between two operands is an operator of arithmetic. -/
def Kind.IsArithmetic (k : Kind) : Prop :=
  k ∈ [Kind.symbol .plus, .symbol .minus, .symbol .star, .symbol .slash]

instance (k : Kind) : Decidable k.IsArithmetic := inferInstanceAs (Decidable (k ∈ _))

section Operators

variable {k : Kind}

theorem Kind.isArithmetic_iff : k.IsArithmetic ↔
    k = .symbol .plus ∨ k = .symbol .minus ∨ k = .symbol .star ∨ k = .symbol .slash := by
  simp [IsArithmetic]

/-- The operators of arithmetic have an opcode each, and no other token has one. -/
theorem lowerOperator_eq (k : Kind) : lowerOperator k =
    if k.IsArithmetic then .emit (.plain (.ofOperator k)) else .fail (.noOpcode k) := by
  rcases k with s | _ | _ | _ | _ | _ | _
  · cases s <;> rfl
  all_goals rfl

theorem lowerOperator_of_isArithmetic (h : k.IsArithmetic) :
    lowerOperator k = .emit (.plain (.ofOperator k)) :=
  (lowerOperator_eq k).trans (if_pos h)

theorem lowerOperator_of_not_isArithmetic (h : ¬ k.IsArithmetic) :
    lowerOperator k = .fail (.noOpcode k) :=
  (lowerOperator_eq k).trans (if_neg h)

theorem isArithmetic_of_fault?_eq_none (h : (lowerOperator k).fault? = none) :
    k.IsArithmetic := by
  rw [lowerOperator_eq] at h
  split at h
  · next hk => exact hk
  · exact absurd h (Option.some_ne_none _)

end Operators

mutual

/-- The code that leaves the value of an operand. -/
def Tree.lowerOperand : Tree → Emission
  | .value x => .emit (.constant x)
  | .operation e => e.lower
  | .root _ => .fail (.noOperand .root)
  | .function .. => .fail (.noOperand .function)
  | .block _ => .fail (.noOperand .block)
  | .ret _ => .fail (.noOperand .ret)

/-- The code that leaves the value of an operation. -/
def Operation.lower : Operation → Emission
  | ⟨some operator, left, some right⟩ =>
    (left.lowerOperand.andThen right.lowerOperand).andThen (lowerOperator operator.kind)
  | ⟨none, left, none⟩ => left.lowerOperand
  | ⟨some operator, left, none⟩ => left.lowerOperand.andThen (.fail (.noRight operator.kind))
  | ⟨none, left, some _⟩ => left.lowerOperand.andThen (.fail .noOperator)

end

/-! ## Statements and declarations -/

/-- The code of a statement. -/
def Tree.lowerStatement : Tree → Emission
  | .ret e => e.lower.andThen (.emit (.plain .ret))
  | t => .fail (.noReturn t.form)

/-- The code of statements, one after the other. -/
def lowerBody (statements : List Tree) : Emission :=
  .sequence (statements.map Tree.lowerStatement)

theorem lowerBody_cons (t : Tree) (body : List Tree) :
    lowerBody (t :: body) = t.lowerStatement.andThen (lowerBody body) := rfl

/-- The chunk of a function. -/
def lowerFunction (name : String) (body : List Tree) : Except LoweringFault Chunk :=
  match (lowerBody body).fault? with
  | none => .ok ⟨name, (lowerBody body).code⟩
  | some fault => .error fault

/-- Chunks, and what stopped them from going on. -/
structure Assembly where
  /-- The chunks in order. If there is a fault in a function, its chunk is the last, up to it. -/
  chunks : List Chunk
  /-- What is wrong after them. -/
  fault? : Option LoweringFault
deriving DecidableEq

/-- The chunks of declarations, up to the first fault. -/
def assemble : List Tree → Assembly
  | [] => ⟨[], none⟩
  | .function name _ body :: declarations =>
    let e := lowerBody body
    match e.fault? with
    | none =>
      let others := assemble declarations
      ⟨⟨name, e.code⟩ :: others.chunks, others.fault?⟩
    | some fault => ⟨[⟨name, e.code⟩], some fault⟩
  | t :: _ => ⟨[], some (.noFunction t.form)⟩

/-- The module of a root. -/
def Tree.lower : Tree → Except LoweringFault Module
  | .root declarations =>
    match (assemble declarations).fault? with
    | none => .ok ⟨"main", (assemble declarations).chunks⟩
    | some fault => .error fault
  | t => .error (.noRoot t.form)

end InfixCompiler
