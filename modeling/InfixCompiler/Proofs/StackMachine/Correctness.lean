import InfixCompiler.Proofs.StackMachine
import InfixCompiler.Tree.Lowering
import Mathlib.Data.List.Forall2

/-!
# What lowered code computes

The code of a tree that lowering accepts leaves the value of the tree on the stack, on top of all
that was there before, which it neither uses nor changes. The number of places it takes above is one
more than the number of operations on the longest way down the tree.

Trees are any trees. An operation without an operator and a right operand has the value of its left
operand and no code of its own, and counts as an operation on the way down all the same.
-/

namespace InfixCompiler

/-! ## Values -/

/-- The function of an operator, with its left operand as the first argument. -/
def Arithmetic.ofOperator? (ar : Arithmetic) : Kind → Option (Binary64 → Binary64 → Binary64)
  | .symbol .plus => some ar.add
  | .symbol .minus => some ar.sub
  | .symbol .star => some ar.mul
  | .symbol .slash => some ar.div
  | _ => none

mutual

/-- The value of an operand. -/
def Tree.value? (ar : Arithmetic) : Tree → Option Binary64
  | .value x => some x
  | .operation e => e.value? ar
  | _ => none

/-- The value of an operation. -/
def Operation.value? (ar : Arithmetic) : Operation → Option Binary64
  | ⟨some operator, left, some right⟩ => do
    let a ← left.value? ar
    let b ← right.value? ar
    let g ← ar.ofOperator? operator.kind
    return g a b
  | ⟨none, left, none⟩ => left.value? ar
  | _ => none

end

mutual

/-- The number of operations on the longest way down from an operand. -/
def Tree.depth : Tree → Nat
  | .operation e => e.depth
  | _ => 0

/-- The number of operations on the longest way down from an operation, itself included. -/
def Operation.depth : Operation → Nat
  | ⟨_, left, some right⟩ => max left.depth right.depth + 1
  | ⟨_, left, none⟩ => left.depth + 1

end

/-! ## Emissions -/

namespace Emission

variable {e e' : Emission}

theorem fault?_andThen_eq_none : (e.andThen e').fault? = none ↔
    e.fault? = none ∧ e'.fault? = none := by
  rcases e with ⟨code, _ | f⟩ <;> simp [andThen]

theorem code_andThen (h : e.fault? = none) : (e.andThen e').code = e.code ++ e'.code := by
  rcases e with ⟨code, _ | f⟩
  · rfl
  · exact absurd h (by simp)

theorem forall_mem_andThen {P : Instruction → Prop} (h : ∀ i ∈ e.code, P i)
    (h' : ∀ i ∈ e'.code, P i) : ∀ i ∈ (e.andThen e').code, P i := by
  rcases e with ⟨code, _ | fault⟩
  · exact List.forall_mem_append.mpr ⟨h, h'⟩
  · exact h

end Emission

/-- No operator ends a function or has an operand. -/
theorem Opcode.ofOperator_ne (operator : Kind) :
    ofOperator operator ≠ .ret ∧ (ofOperator operator).hasOperand = false := by
  rcases operator with s | _ | _ | _ | _ | _ | _
  · cases s <;> decide
  all_goals exact ⟨by simp [ofOperator], rfl⟩

/-- An operator of arithmetic has the function of its opcode. -/
theorem Arithmetic.exists_of_isArithmetic (ar : Arithmetic) {operator : Kind}
    (h : operator.IsArithmetic) :
    ∃ g, ar.ofOpcode? (.ofOperator operator) = some g ∧ ar.ofOperator? operator = some g := by
  rcases Kind.isArithmetic_iff.mp h with rfl | rfl | rfl | rfl <;> exact ⟨_, rfl, rfl⟩

/-- What an operation with an operator has been lowered to. -/
theorem Operation.lowered_binary {operator : Token} {left right : Tree}
    (h : (Operation.mk (some operator) left (some right)).lower.fault? = none) :
    left.lowerOperand.fault? = none ∧ right.lowerOperand.fault? = none ∧
      operator.kind.IsArithmetic ∧
      (Operation.mk (some operator) left (some right)).lower.code = left.lowerOperand.code ++
        right.lowerOperand.code ++ [.plain (.ofOperator operator.kind)] := by
  rw [Operation.lower, Emission.fault?_andThen_eq_none, Emission.fault?_andThen_eq_none] at h
  obtain ⟨⟨hl, hr⟩, ho⟩ := h
  have ho := isArithmetic_of_fault?_eq_none ho
  refine ⟨hl, hr, ho, ?_⟩
  rw [Operation.lower, Emission.code_andThen (Emission.fault?_andThen_eq_none.mpr ⟨hl, hr⟩),
    Emission.code_andThen hl, lowerOperator_of_isArithmetic ho, Emission.emit]

/-! ## Operands and operations -/

/-- The emission `e` is code for the value `v`: over any stack it leaves `v`, without a `ret`, and
takes `depth + 1` places at most. -/
def Emission.Computes (ar : Arithmetic) (e : Emission) (depth : Nat) (v : Binary64) : Prop :=
  ∀ (base above : List Binary64) (bound : Nat) (code : List Instruction),
    above.length + depth + 1 ≤ bound →
      Passes ar (Configuration.Within base bound) ⟨e.code ++ code, above ++ base⟩
        ⟨code, v :: above ++ base⟩

mutual

theorem Tree.exists_computes (ar : Arithmetic) : ∀ t : Tree, t.lowerOperand.fault? = none →
    ∃ v, t.value? ar = some v ∧ t.lowerOperand.Computes ar t.depth v
  | .value x, _ => ⟨x, rfl, fun base above bound code h ↦ passes_constant _ _ _ _ (by omega)⟩
  | .operation e, h => e.exists_computes ar h
  | .root _, h => absurd h (by simp [Tree.lowerOperand, Emission.fail])
  | .function .., h => absurd h (by simp [Tree.lowerOperand, Emission.fail])
  | .block _, h => absurd h (by simp [Tree.lowerOperand, Emission.fail])
  | .ret _, h => absurd h (by simp [Tree.lowerOperand, Emission.fail])

theorem Operation.exists_computes (ar : Arithmetic) : ∀ e : Operation, e.lower.fault? = none →
    ∃ v, e.value? ar = some v ∧ e.lower.Computes ar e.depth v
  | ⟨some operator, left, some right⟩, h => by
    obtain ⟨hl, hr, ho, hcode⟩ := Operation.lowered_binary h
    obtain ⟨a, ha, hleft⟩ := left.exists_computes ar hl
    obtain ⟨b, hb, hright⟩ := right.exists_computes ar hr
    obtain ⟨g, hg, hg'⟩ := ar.exists_of_isArithmetic ho
    refine ⟨g a b, by simp [Operation.value?, ha, hb, hg'], ?_⟩
    intro base above bound code hbound
    rw [Operation.depth] at hbound
    rw [hcode, List.append_assoc, List.append_assoc]
    have hl := hleft base above bound
      (right.lowerOperand.code ++ ([.plain (.ofOperator operator.kind)] ++ code)) (by omega)
    -- while the right operand runs, the value of the left one is above the base as well
    have hr := hright base (a :: above) bound ([.plain (.ofOperator operator.kind)] ++ code)
      (by rw [List.length_cons]; omega)
    exact hl.trans (hr.trans (passes_plain code base above hg a b (by omega)))
  | ⟨none, left, none⟩, h => by
    rw [Operation.lower] at h
    obtain ⟨v, hv, hleft⟩ := left.exists_computes ar h
    refine ⟨v, by rw [Operation.value?, hv], ?_⟩
    intro base above bound code hbound
    rw [Operation.depth] at hbound
    exact hleft base above bound code (by omega)
  | ⟨some operator, left, none⟩, h => by
    rw [Operation.lower, Emission.fault?_andThen_eq_none] at h
    exact absurd h.2 (by simp [Emission.fail])
  | ⟨none, left, some _⟩, h => by
    rw [Operation.lower, Emission.fault?_andThen_eq_none] at h
    exact absurd h.2 (by simp [Emission.fail])

end

theorem forall_mem_lowerOperator {P : Instruction → Prop}
    (hoperator : ∀ operator, P (.plain (.ofOperator operator))) (operator : Kind) :
    ∀ i ∈ (lowerOperator operator).code, P i := by
  rw [lowerOperator_eq]
  split
  · exact List.forall_mem_singleton.mpr (hoperator operator)
  · exact List.forall_mem_nil _

mutual

/-- The code of an operand is made of constants and of opcodes of operators. -/
theorem Tree.forall_mem_lowerOperand {P : Instruction → Prop} (hconstant : ∀ x, P (.constant x))
    (hoperator : ∀ operator, P (.plain (.ofOperator operator))) :
    ∀ t : Tree, ∀ i ∈ t.lowerOperand.code, P i
  | .value x => List.forall_mem_singleton.mpr (hconstant x)
  | .operation e => e.forall_mem_lower hconstant hoperator
  | .root _ => List.forall_mem_nil _
  | .function .. => List.forall_mem_nil _
  | .block _ => List.forall_mem_nil _
  | .ret _ => List.forall_mem_nil _

/-- The code of an operation is made of constants and of opcodes of operators. -/
theorem Operation.forall_mem_lower {P : Instruction → Prop} (hconstant : ∀ x, P (.constant x))
    (hoperator : ∀ operator, P (.plain (.ofOperator operator))) :
    ∀ e : Operation, ∀ i ∈ e.lower.code, P i
  | ⟨some operator, left, some right⟩ => by
    rw [Operation.lower]
    exact Emission.forall_mem_andThen (Emission.forall_mem_andThen
      (left.forall_mem_lowerOperand hconstant hoperator)
      (right.forall_mem_lowerOperand hconstant hoperator))
      (forall_mem_lowerOperator hoperator operator.kind)
  | ⟨none, left, none⟩ => by
    rw [Operation.lower]
    exact left.forall_mem_lowerOperand hconstant hoperator
  | ⟨some operator, left, none⟩ => by
    rw [Operation.lower]
    exact Emission.forall_mem_andThen (left.forall_mem_lowerOperand hconstant hoperator)
      (List.forall_mem_nil _)
  | ⟨none, left, some _⟩ => by
    rw [Operation.lower]
    exact Emission.forall_mem_andThen (left.forall_mem_lowerOperand hconstant hoperator)
      (List.forall_mem_nil _)

end

theorem Operation.ne_ret_of_mem_lower (e : Operation) : ∀ i ∈ e.lower.code, i.opcode ≠ .ret := by
  refine e.forall_mem_lower (fun x ↦ ?_) fun operator ↦ (Opcode.ofOperator_ne operator).1
  simp [Instruction.constant]

/-! ## Functions -/

/-- The code of a return of `e`. Wherever it stands, it ends at its only `ret` with the value of `e`
on top of the stack, and all that it uses on the way is at most `e.depth + 1` numbers of its own. -/
structure IsSegment (e : Operation) (segment : List Instruction) : Prop where
  /-- There is one `ret`, at the end. -/
  ends : ∃ code, segment = code ++ [.plain .ret] ∧ ∀ i ∈ code, i.opcode ≠ .ret
  /-- The value is there at the end. -/
  computes : ∀ ar : Arithmetic, ∃ v, e.value? ar = some v ∧
    ∀ (base : List Binary64) (later : List Instruction),
      Reaches ar ⟨segment ++ later, base⟩ ⟨.plain .ret :: later, v :: base⟩
  /-- Nothing else is touched. -/
  within : ∀ (ar : Arithmetic) (base : List Binary64) (later : List Instruction)
    (c : Configuration), Reaches ar ⟨segment ++ later, base⟩ c → c.Within base (e.depth + 1)

theorem isSegment_lower {e : Operation} (h : e.lower.fault? = none) :
    IsSegment e (e.lower.code ++ [.plain .ret]) := by
  have hpasses (ar : Arithmetic) : ∃ v, e.value? ar = some v ∧
      ∀ (base : List Binary64) (later : List Instruction),
        Passes ar (Configuration.Within base (e.depth + 1))
          ⟨e.lower.code ++ [.plain .ret] ++ later, base⟩ ⟨.plain .ret :: later, v :: base⟩ := by
    obtain ⟨v, hv, hcomputes⟩ := e.exists_computes ar h
    refine ⟨v, hv, fun base later ↦ ?_⟩
    rw [List.append_assoc]
    exact hcomputes base [] (e.depth + 1) (.plain .ret :: later) (by simp)
  refine ⟨⟨_, rfl, e.ne_ret_of_mem_lower⟩, ?_, ?_⟩
  · intro ar
    obtain ⟨v, hv, hv'⟩ := hpasses ar
    exact ⟨v, hv, fun base later ↦ (hv' base later).reaches⟩
  · intro ar base later c hc
    obtain ⟨v, -, hv⟩ := hpasses ar
    rcases (hv base later).of_reaches (step?_ret _ _) hc with hc | rfl
    · exact hc
    · refine ⟨[v], rfl, by simp, ?_⟩
      intro i hi
      obtain rfl := Option.some.inj hi
      exact Nat.le_refl 1

/-- The code of statements is that of returns, one after the other. -/
theorem exists_segments {body : List Tree} (h : (lowerBody body).fault? = none) :
    ∃ (results : List Operation) (segments : List (List Instruction)), body = results.map .ret ∧
      (lowerBody body).code = segments.flatten ∧ List.Forall₂ IsSegment results segments := by
  induction body with
  | nil => exact ⟨[], [], rfl, rfl, .nil⟩
  | cons t body ih =>
    rw [lowerBody_cons, Emission.fault?_andThen_eq_none] at h
    obtain ⟨ht, hbody⟩ := h
    obtain ⟨results, segments, rfl, hcode, hsegments⟩ := ih hbody
    rw [lowerBody_cons, Emission.code_andThen ht, hcode]
    cases t with
    | ret e =>
      rw [Tree.lowerStatement, Emission.fault?_andThen_eq_none] at ht
      refine ⟨e :: results, _ :: segments, rfl, rfl, .cons ?_ hsegments⟩
      rw [Tree.lowerStatement, Emission.code_andThen ht.1]
      exact isSegment_lower ht.1
    | _ => exact absurd ht (by simp [Tree.lowerStatement, Emission.fail])

/-- **Compiled functions compute their results.** The code of a function is one segment for each
return, in order. Run on an empty stack it returns the value of the first one. -/
theorem lowerFunction_correct {name : String} {body : List Tree} {chunk : Chunk}
    (h : lowerFunction name body = .ok chunk) :
    ∃ (results : List Operation) (segments : List (List Instruction)), body = results.map .ret ∧
      chunk.code = segments.flatten ∧ List.Forall₂ IsSegment results segments ∧
      (chunk.code ≠ [] → ∃ e rest, results = e :: rest ∧
        ∀ ar : Arithmetic, ∃ v, e.value? ar = some v ∧ Returns ar chunk.code [] v) := by
  rw [lowerFunction] at h
  split at h
  swap
  · exact absurd h (by simp)
  next hfault =>
  obtain rfl := Except.ok.inj h
  obtain ⟨results, segments, hbody, hcode, hsegments⟩ := exists_segments hfault
  refine ⟨results, segments, hbody, hcode, hsegments, fun hne ↦ ?_⟩
  rcases hsegments with _ | ⟨hsegment, _⟩
  · exact absurd hcode hne
  · next e segment results segments _ =>
    refine ⟨e, results, rfl, fun ar ↦ ?_⟩
    obtain ⟨v, hv, hreaches⟩ := hsegment.computes ar
    rw [hcode, List.flatten_cons]
    exact ⟨v, hv, _, [], hreaches [] segments.flatten⟩

/-- The number that is taken away is the topmost one: here `sub` is the function that yields it. -/
theorem returns_subtrahend :
    Returns ⟨fun a _ ↦ a, fun _ b ↦ b, fun a _ ↦ a, fun a _ ↦ a⟩
      [.constant .zero, .constant .infinity, .plain .sub, .plain .ret] [] .infinity := by
  have hlower : lowerFunction "f"
      [.ret (.binary (.value .zero) ⟨.symbol .minus, 2, 1⟩ (.value .infinity))]
      = .ok ⟨"f", [.constant .zero, .constant .infinity, .plain .sub, .plain .ret]⟩ := by
    rfl
  obtain ⟨results, segments, hbody, -, -, hfirst⟩ := lowerFunction_correct hlower
  obtain ⟨e, rest, rfl, hvalue⟩ := hfirst (List.cons_ne_nil _ _)
  obtain ⟨v, hv, hreturns⟩ := hvalue ⟨fun a _ ↦ a, fun _ b ↦ b, fun a _ ↦ a, fun a _ ↦ a⟩
  rw [List.map_cons, List.cons.injEq, Tree.ret.injEq] at hbody
  rw [← hbody.1] at hv
  rw [show v = .infinity from (Option.some.inj hv).symm] at hreturns
  exact hreturns

end InfixCompiler
