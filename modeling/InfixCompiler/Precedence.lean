import InfixCompiler.Token.Kind

/-!
# Precedences

How tightly an operator holds its operands, as one of eleven levels. An expression is read for a
least level: operators below it are left for whoever asked. The right operand of an operator is read
for the next tighter level, so that operators of one level associate to the left.

The levels above the arithmetic ones have no operators that can be read so far, but a token shows
its level all the same.
-/

namespace InfixCompiler

/-- Levels of operators, the loosest first. -/
inductive Precedence where
  /-- No operator. -/
  | none
  /-- `=` -/
  | assignment
  /-- `||` -/
  | disjunction
  /-- `&&` -/
  | conjunction
  /-- `==` and `!=` -/
  | equality
  /-- `<`, `<=`, `>` and `>=` -/
  | comparison
  /-- `+` and `-` -/
  | sum
  /-- `*` and `/` -/
  | product
  /-- `!` and `-` before an operand. -/
  | unary
  /-- Calls and members. -/
  | call
  /-- Above every operator. -/
  | top
deriving DecidableEq

namespace Precedence

/-- The level as a number. -/
def level : Precedence → Nat
  | none => 0
  | assignment => 1
  | disjunction => 2
  | conjunction => 3
  | equality => 4
  | comparison => 5
  | sum => 6
  | product => 7
  | unary => 8
  | call => 9
  | top => 10

/-- The next level up. There is none above the top. -/
def tighter : Precedence → Precedence
  | none => assignment
  | assignment => disjunction
  | disjunction => conjunction
  | conjunction => equality
  | equality => comparison
  | comparison => sum
  | sum => product
  | product => unary
  | unary => call
  | call => top
  | top => top

/-- Every level, the loosest first. -/
def all : List Precedence :=
  [none, assignment, disjunction, conjunction, equality, comparison, sum, product, unary, call, top]

/-- The level of a token between operands. -/
def betweenOperands : Kind → Precedence
  | .symbol .equal => assignment
  | .symbol .or => disjunction
  | .symbol .and => conjunction
  | .symbol .equalEq | .symbol .bangEq => equality
  | .symbol .less | .symbol .lessEq | .symbol .greater | .symbol .greaterEq => comparison
  | .symbol .plus | .symbol .minus => sum
  | .symbol .star | .symbol .slash => product
  | .symbol .leftParen | .symbol .dot => call
  | _ => none

/-- The level of a token before an operand. -/
def beforeOperand : Kind → Precedence
  | .symbol .bang | .symbol .minus => unary
  | _ => none

theorem level_injective {p q : Precedence} (h : p.level = q.level) : p = q := by
  cases p <;> cases q <;> simp_all [level]

theorem level_tighter (p : Precedence) : p.tighter.level = min (p.level + 1) 10 := by
  cases p <;> rfl

end Precedence

end InfixCompiler
