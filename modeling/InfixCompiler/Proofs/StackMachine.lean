import InfixCompiler.Chunk
import Mathlib.Logic.Relation

/-!
# The stack machine

The machine that code is for, as the opcodes describe it. What its four operations do with numbers
is left open: an `Arithmetic` is any choice of four functions.

A configuration is the code that is left to run and the stack, with its top in front. A step runs
the first instruction. There is no step from a `ret`, which ends the run with the topmost number as
its result, nor where an instruction lacks the numbers that it needs.

Of a run it matters not only where it comes to but also what it touches on the way. `Passes` is a
run with a condition on all configurations that it leaves, so that such conditions can be proved
along the code; as steps are a function, they then hold of everything that can be reached
(`Passes.of_reaches`).
-/

namespace InfixCompiler

/-- What the operations of the machine do with numbers. -/
structure Arithmetic where
  /-- The function of `add`. -/
  add : Binary64 → Binary64 → Binary64
  /-- The function of `sub`. -/
  sub : Binary64 → Binary64 → Binary64
  /-- The function of `mul`. -/
  mul : Binary64 → Binary64 → Binary64
  /-- The function of `div`. -/
  div : Binary64 → Binary64 → Binary64

/-- The function of an opcode. Its first argument is the number beneath the topmost one. -/
def Arithmetic.ofOpcode? (ar : Arithmetic) : Opcode → Option (Binary64 → Binary64 → Binary64)
  | .add => some ar.add
  | .sub => some ar.sub
  | .mul => some ar.mul
  | .div => some ar.div
  | _ => none

/-- How many numbers on the stack an opcode needs. -/
def Opcode.needs : Opcode → Nat
  | .add | .sub | .mul | .div => 2
  | .ret => 1
  | .storeConst | .storeStack | .nil => 0

/-! ## Runs -/

/-- Code that is left to run, and a stack. -/
structure Configuration where
  /-- The instructions that are left. -/
  code : List Instruction
  /-- The numbers on the stack, the topmost one first. -/
  stack : List Binary64
deriving DecidableEq

namespace Configuration

/-- The configuration after the next instruction. -/
def step? (ar : Arithmetic) : Configuration → Option Configuration
  | ⟨⟨.storeConst, some x⟩ :: code, stack⟩ => some ⟨code, x :: stack⟩
  | ⟨⟨opcode, _⟩ :: code, b :: a :: stack⟩ =>
    (ar.ofOpcode? opcode).map fun g ↦ ⟨code, g a b :: stack⟩
  | _ => none

/-- Above `base` the stack has at most `bound` numbers, and those that the next instruction needs
are all among them. -/
def Within (base : List Binary64) (bound : Nat) (c : Configuration) : Prop :=
  ∃ above, c.stack = above ++ base ∧ above.length ≤ bound ∧
    ∀ i ∈ c.code.head?, i.opcode.needs ≤ above.length

end Configuration

variable {ar : Arithmetic} {P : Configuration → Prop} {c c' c'' : Configuration}

/-- The configurations that a run from `c` comes to. -/
abbrev Reaches (ar : Arithmetic) : Configuration → Configuration → Prop :=
  Relation.ReflTransGen fun c c' ↦ c.step? ar = some c'

/-- A run of `code` on `stack` ends at a `ret`, with the result `v`. -/
def Returns (ar : Arithmetic) (code : List Instruction) (stack : List Binary64) (v : Binary64) :
    Prop :=
  ∃ later below, Reaches ar ⟨code, stack⟩ ⟨.plain .ret :: later, v :: below⟩

/-- A run from `c` comes to `c'`, and `P` holds of all configurations before `c'`. -/
inductive Passes (ar : Arithmetic) (P : Configuration → Prop) : Configuration → Configuration → Prop
  | refl (c : Configuration) : Passes ar P c c
  | step {c c' c'' : Configuration} (hc : P c) (hstep : c.step? ar = some c')
      (h : Passes ar P c' c'') : Passes ar P c c''

namespace Passes

theorem single (hc : P c) (hstep : c.step? ar = some c') : Passes ar P c c' :=
  .step hc hstep (.refl c')

theorem trans (h : Passes ar P c c') (h' : Passes ar P c' c'') : Passes ar P c c'' := by
  induction h with
  | refl => exact h'
  | step hc hstep _ ih => exact .step hc hstep (ih h')

theorem reaches (h : Passes ar P c c') : Reaches ar c c' := by
  induction h with
  | refl => exact .refl
  | step _ hstep _ ih => exact .head hstep ih

/-- A run that comes to an end has nothing but its end and what was passed on the way to it. -/
theorem of_reaches (h : Passes ar P c c') (hend : c'.step? ar = none) (hc : Reaches ar c c'') :
    P c'' ∨ c'' = c' := by
  induction h with
  | refl c =>
    rcases Relation.ReflTransGen.cases_head hc with rfl | ⟨d, hd, -⟩
    · exact .inr rfl
    · rw [hend] at hd
      exact absurd hd (by simp)
  | step hP hstep _ ih =>
    rcases Relation.ReflTransGen.cases_head hc with rfl | ⟨d, hd, hc⟩
    · exact .inl hP
    · rw [hstep] at hd
      obtain rfl := Option.some.inj hd
      exact ih hend hc

end Passes

/-! ## Single instructions -/

section

variable (code : List Instruction) (base above : List Binary64) {bound : Nat}

theorem passes_constant (x : Binary64) (h : above.length ≤ bound) :
    Passes ar (Configuration.Within base bound) ⟨.constant x :: code, above ++ base⟩
      ⟨code, x :: above ++ base⟩ := by
  refine .single ⟨above, rfl, h, ?_⟩ rfl
  intro i hi
  obtain rfl := Option.some.inj hi
  exact Nat.zero_le _

theorem passes_plain {opcode : Opcode} {g : Binary64 → Binary64 → Binary64}
    (hg : ar.ofOpcode? opcode = some g) (a b : Binary64) (h : above.length + 2 ≤ bound) :
    Passes ar (Configuration.Within base bound) ⟨.plain opcode :: code, b :: a :: above ++ base⟩
      ⟨code, g a b :: above ++ base⟩ := by
  refine .single ⟨b :: a :: above, rfl, h, ?_⟩ ?_
  · intro i hi
    obtain rfl := Option.some.inj hi
    cases opcode <;> simp [Arithmetic.ofOpcode?] at hg <;> simp [Instruction.plain, Opcode.needs]
  · cases opcode <;> simp [Arithmetic.ofOpcode?] at hg <;> subst hg <;> rfl

end

/-- A run does not go on at a `ret`. -/
theorem step?_ret (code : List Instruction) (stack : List Binary64) :
    Configuration.step? ar ⟨.plain .ret :: code, stack⟩ = none := by
  rcases stack with _ | ⟨b, _ | ⟨a, stack⟩⟩ <;> rfl

/-- A run has one result at most. -/
theorem Returns.unique {code : List Instruction} {stack : List Binary64} {v w : Binary64}
    (hv : Returns ar code stack v) (hw : Returns ar code stack w) : v = w := by
  obtain ⟨later, below, hv⟩ := hv
  obtain ⟨later', below', hw⟩ := hw
  have hright : Relator.RightUnique fun c c' : Configuration ↦ c.step? ar = some c' :=
    fun c d e hd he ↦ Option.some.inj (hd.symm.trans he)
  -- from a `ret` nothing else is reached
  have hend {code code' : List Instruction} {s s' : List Binary64}
      (h : Reaches ar ⟨.plain .ret :: code, s⟩ ⟨code', s'⟩) : s' = s := by
    rcases Relation.ReflTransGen.cases_head h with heq | ⟨c, hc, -⟩
    · exact (Configuration.mk.inj heq).2.symm
    · rw [step?_ret] at hc
      exact absurd hc (by simp)
  rcases Relation.ReflTransGen.total_of_right_unique hright hv hw with h | h
  · exact (List.cons.inj (hend h)).1.symm
  · exact (List.cons.inj (hend h)).1

end InfixCompiler
