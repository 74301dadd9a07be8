import InfixCompiler.Token.Kind

/-!
# Opcodes

What an instruction of the stack machine does, and the byte that stands for it. The machine itself
is elsewhere; here its code is only written and read.
-/

namespace InfixCompiler

/-- The operations of the stack machine. -/
inductive Opcode where
  /-- Adds the two topmost numbers. -/
  | add
  /-- Takes the topmost number from the one beneath it. -/
  | sub
  /-- Multiplies the two topmost numbers. -/
  | mul
  /-- Divides the number beneath the topmost one by it. -/
  | div
  /-- Puts the operand on the stack. -/
  | storeConst
  /-- Puts a copy of a number that is on the stack on top of it. -/
  | storeStack
  /-- Ends the function with the topmost number as its result. -/
  | ret
  /-- Does nothing. It stands for the operators that have no code. -/
  | nil
deriving DecidableEq

namespace Opcode

/-- Every opcode, in the order of the bytes. -/
def all : List Opcode := [add, sub, mul, div, storeConst, storeStack, ret, nil]

/-- The byte of an opcode. -/
def byte : Opcode → UInt8
  | add => 0
  | sub => 1
  | mul => 2
  | div => 3
  | storeConst => 4
  | storeStack => 5
  | ret => 6
  | nil => 7

/-- The opcode of a byte, if it has one. -/
def ofByte? (b : UInt8) : Option Opcode := all[b.toNat]?

/-- The mnemonic of an opcode. -/
def name : Opcode → String
  | add => "ADD"
  | sub => "SUB"
  | mul => "MUL"
  | div => "DIV"
  | storeConst => "STORE_CONST"
  | storeStack => "STORE_STACK"
  | ret => "RET"
  | nil => "NIL"

/-- Whether an operand follows the opcode. -/
def hasOperand (op : Opcode) : Bool := op == storeConst

/-- What a token between two operands does to their values. -/
def ofOperator : Kind → Opcode
  | .symbol .plus => add
  | .symbol .minus => sub
  | .symbol .star => mul
  | .symbol .slash => div
  | _ => nil

theorem ofByte?_byte (op : Opcode) : ofByte? op.byte = some op := by cases op <;> rfl

theorem byte_of_ofByte? {b : UInt8} {op : Opcode} (h : ofByte? b = some op) : op.byte = b := by
  have hb : b.toNat < 8 := by
    rw [ofByte?, List.getElem?_eq_some_iff] at h
    exact h.1
  apply UInt8.toNat_inj.mp
  rw [ofByte?] at h
  generalize b.toNat = n at h hb
  have : n = 0 ∨ n = 1 ∨ n = 2 ∨ n = 3 ∨ n = 4 ∨ n = 5 ∨ n = 6 ∨ n = 7 := by omega
  rcases this with rfl | rfl | rfl | rfl | rfl | rfl | rfl | rfl <;>
    · simp only [all, List.getElem?_cons_succ, List.getElem?_cons_zero, Option.some.injEq] at h
      subst h
      rfl

end Opcode

end InfixCompiler
