import InfixCompiler.Proofs.Compilation.Unlowered

/-!
# Well-formed trees

Which trees have a module, of all those that any tool may build. A tree is well formed if what is
topmost, declared, stated and operated on is of the form that its place asks for, and each operation
has either both an operator of arithmetic and a right operand, or neither.

All that is wrong with a tree is a list, `Tree.violations`, in the order of the code: it goes on
behind what is wrong, into the parts that lowering would not come to. A tree is well formed if there
is nothing in the list, and lowering fails with what is first in it. So both the trees that have a
module and the faults of all others come from one equation, that the fault of an emission is the
head of the list (`Operation.fault?_lower`).
-/

namespace InfixCompiler

/-! ## Well-formed trees -/

/-- What stands before and after the operator. -/
def Operation.operands (e : Operation) : List Tree := e.left :: e.right?.toList

/-- The operation `e'` is `e`, or below it by way of operands. -/
inductive Operation.Reaches : Operation → Operation → Prop
  /-- An operation reaches itself. -/
  | refl (e : Operation) : e.Reaches e
  /-- It reaches what is reached from its operands. -/
  | operand {e e' e'' : Operation} (h : .operation e' ∈ e.operands) (h' : e'.Reaches e'') :
    e.Reaches e''

/-- There is nothing wrong with an operation, apart from the operations below it. -/
structure Operation.IsSound (e : Operation) : Prop where
  /-- It has neither operator nor right operand, or both and can be computed. -/
  shape : e.operator? = none ∧ e.right? = none ∨
    (∃ right, e.right? = some right) ∧ ∃ o, e.operator? = some o ∧ o.kind.IsArithmetic
  /-- Numbers and operations are operands. -/
  operands : ∀ t ∈ e.operands, t.form = .value ∨ t.form = .operation

/-- There is nothing wrong with an operation or the operations below it. -/
def Operation.IsWellFormed (e : Operation) : Prop := ∀ e', e.Reaches e' → e'.IsSound

/-- A return of a well-formed operation. -/
def Tree.IsStatement (t : Tree) : Prop := ∃ e, t = .ret e ∧ e.IsWellFormed

/-- A function whose statements are returns of well-formed operations. -/
def Tree.IsDeclaration (t : Tree) : Prop :=
  ∃ name params body, t = .function name params body ∧ ∀ s ∈ body, s.IsStatement

/-- A root of such functions. -/
def Tree.IsWellFormed (t : Tree) : Prop :=
  ∃ declarations, t = .root declarations ∧ ∀ d ∈ declarations, d.IsDeclaration

/-! ## What is wrong with a tree -/

/-- What is wrong with an operator. -/
def Kind.operatorViolations (k : Kind) : List LoweringFault :=
  if k.IsArithmetic then [] else [.noOpcode k]

mutual

/-- All that is wrong with an operand. -/
def Tree.operandViolations : Tree → List LoweringFault
  | .value _ => []
  | .operation e => e.violations
  | .root _ => [.noOperand .root]
  | .function .. => [.noOperand .function]
  | .block _ => [.noOperand .block]
  | .ret _ => [.noOperand .ret]

/-- All that is wrong with an operation: with its left operand, with what it has one of without the
other, with its right operand and with its operator. -/
def Operation.violations : Operation → List LoweringFault
  | ⟨some o, left, none⟩ =>
    left.operandViolations ++ [.noRight o.kind] ++ o.kind.operatorViolations
  | ⟨none, left, some right⟩ => left.operandViolations ++ [.noOperator] ++ right.operandViolations
  | ⟨some o, left, some right⟩ =>
    left.operandViolations ++ right.operandViolations ++ o.kind.operatorViolations
  | ⟨none, left, none⟩ => left.operandViolations

end

/-- All that is wrong with a statement. -/
def Tree.statementViolations : Tree → List LoweringFault
  | .ret e => e.violations
  | t => [.noReturn t.form]

/-- All that is wrong with a declaration. -/
def Tree.declarationViolations : Tree → List LoweringFault
  | .function _ _ body => body.flatMap Tree.statementViolations
  | t => [.noFunction t.form]

/-- All that is wrong with a tree. -/
def Tree.violations : Tree → List LoweringFault
  | .root declarations => declarations.flatMap Tree.declarationViolations
  | t => [.noRoot t.form]

/-! ## Well-formed trees are those with nothing wrong -/

/-- A number, or a well-formed operation. -/
def Tree.IsOperand (t : Tree) : Prop :=
  (t.form = .value ∨ t.form = .operation) ∧ ∀ e, t = .operation e → e.IsWellFormed

/-- What an operation reaches is itself and what its operands reach. -/
theorem Operation.isWellFormed_iff {e : Operation} : e.IsWellFormed ↔
    (e.operator? = none ∧ e.right? = none ∨
      (∃ right, e.right? = some right) ∧ ∃ o, e.operator? = some o ∧ o.kind.IsArithmetic) ∧
    ∀ t ∈ e.operands, t.IsOperand := by
  constructor
  · intro h
    have hsound := h e (.refl e)
    refine ⟨hsound.shape, fun t ht ↦ ⟨hsound.operands t ht, ?_⟩⟩
    rintro e' rfl e'' he''
    exact h e'' (.operand ht he'')
  · rintro ⟨hshape, hoperands⟩ e'' he''
    cases he'' with
    | refl => exact ⟨hshape, fun t ht ↦ (hoperands t ht).1⟩
    | operand h h' => exact (hoperands _ h).2 _ rfl _ h'

theorem Kind.operatorViolations_eq_nil_iff {k : Kind} :
    k.operatorViolations = [] ↔ k.IsArithmetic := by
  simp [operatorViolations]

mutual

theorem Tree.operandViolations_eq_nil_iff : ∀ t : Tree, t.operandViolations = [] ↔ t.IsOperand
  | .operation e => by
    simp [Tree.operandViolations, Tree.IsOperand, Tree.form, e.violations_eq_nil_iff]
  | .value _ => by simp [Tree.operandViolations, Tree.IsOperand, Tree.form]
  | .root _ => by simp [Tree.operandViolations, Tree.IsOperand, Tree.form]
  | .function .. => by simp [Tree.operandViolations, Tree.IsOperand, Tree.form]
  | .block _ => by simp [Tree.operandViolations, Tree.IsOperand, Tree.form]
  | .ret _ => by simp [Tree.operandViolations, Tree.IsOperand, Tree.form]

theorem Operation.violations_eq_nil_iff : ∀ e : Operation, e.violations = [] ↔ e.IsWellFormed
  | ⟨some o, left, none⟩ => by simp [Operation.violations, Operation.isWellFormed_iff]
  | ⟨none, left, some right⟩ => by simp [Operation.violations, Operation.isWellFormed_iff]
  | ⟨some o, left, some right⟩ => by
    simpa [Operation.violations, Operation.isWellFormed_iff, Operation.operands,
      left.operandViolations_eq_nil_iff, right.operandViolations_eq_nil_iff,
      Kind.operatorViolations_eq_nil_iff] using (and_rotate (a := o.kind.IsArithmetic)).symm
  | ⟨none, left, none⟩ => by
    simp [Operation.violations, Operation.isWellFormed_iff, Operation.operands,
      left.operandViolations_eq_nil_iff]

end

theorem Tree.statementViolations_eq_nil_iff {t : Tree} :
    t.statementViolations = [] ↔ t.IsStatement := by
  cases t with
  | ret e => simp [statementViolations, IsStatement, e.violations_eq_nil_iff]
  | _ => simp [statementViolations, IsStatement]

theorem Tree.declarationViolations_eq_nil_iff {t : Tree} :
    t.declarationViolations = [] ↔ t.IsDeclaration := by
  cases t with
  | function name params body =>
    simp [declarationViolations, IsDeclaration, List.flatMap_eq_nil_iff,
      statementViolations_eq_nil_iff]
  | _ => simp [declarationViolations, IsDeclaration]

theorem Tree.violations_eq_nil_iff {t : Tree} : t.violations = [] ↔ t.IsWellFormed := by
  cases t with
  | root declarations =>
    simp [violations, IsWellFormed, List.flatMap_eq_nil_iff, declarationViolations_eq_nil_iff]
  | _ => simp [violations, IsWellFormed]

/-! ## Lowering fails with what is first -/

theorem fault?_lowerOperator_eq_head? (k : Kind) :
    (lowerOperator k).fault? = k.operatorViolations.head? := by
  rw [lowerOperator_eq, Kind.operatorViolations]
  split <;> rfl

mutual

theorem Tree.fault?_lowerOperand : ∀ t : Tree,
    t.lowerOperand.fault? = t.operandViolations.head?
  | .value _ => rfl
  | .operation e => e.fault?_lower
  | .root _ => rfl
  | .function .. => rfl
  | .block _ => rfl
  | .ret _ => rfl

theorem Operation.fault?_lower : ∀ e : Operation, e.lower.fault? = e.violations.head?
  | ⟨some o, left, none⟩ => by
    rw [Operation.lower, Operation.violations, Emission.fault?_andThen, left.fault?_lowerOperand,
      List.append_assoc, List.head?_append]
    rfl
  | ⟨none, left, some right⟩ => by
    rw [Operation.lower, Operation.violations, Emission.fault?_andThen, left.fault?_lowerOperand,
      List.append_assoc, List.head?_append]
    rfl
  | ⟨some o, left, some right⟩ => by
    rw [Operation.lower, Operation.violations, Emission.fault?_andThen, Emission.fault?_andThen,
      left.fault?_lowerOperand, right.fault?_lowerOperand, fault?_lowerOperator_eq_head?,
      List.head?_append, List.head?_append]
  | ⟨none, left, none⟩ => left.fault?_lowerOperand

end

theorem Tree.fault?_lowerStatement (t : Tree) :
    t.lowerStatement.fault? = t.statementViolations.head? := by
  cases t with
  | ret e =>
    rw [lowerStatement, statementViolations, Emission.fault?_andThen, e.fault?_lower]
    exact Option.or_none
  | _ => rfl

theorem fault?_lowerBody_eq_head? (body : List Tree) :
    (lowerBody body).fault? = (body.flatMap Tree.statementViolations).head? := by
  induction body with
  | nil => rfl
  | cons t body ih =>
    rw [lowerBody_cons, Emission.fault?_andThen, t.fault?_lowerStatement, ih, List.flatMap_cons,
      List.head?_append]

theorem fault?_assemble_eq_head? (declarations : List Tree) :
    (assemble declarations).fault?
      = (declarations.flatMap Tree.declarationViolations).head? := by
  induction declarations with
  | nil => rfl
  | cons t declarations ih =>
    rw [List.flatMap_cons, List.head?_append]
    cases t with
    | function name params body =>
      rw [Tree.declarationViolations, ← fault?_lowerBody_eq_head?, ← ih, assemble]
      cases (lowerBody body).fault? <;> rfl
    | _ => rfl

theorem Tree.lower_eq_error_iff {t : Tree} {f : LoweringFault} :
    t.lower = .error f ↔ t.violations.head? = some f := by
  cases t with
  | root declarations =>
    rw [lower, violations, ← fault?_assemble_eq_head?]
    cases (assemble declarations).fault? <;> simp
  | _ => simp [lower, violations]

/-- **Which trees have a module.** A tree has a module if and only if it is well formed. Otherwise
lowering fails with what is first of all that is wrong with the tree, and says nothing about
places. -/
theorem Tree.lower_wellFormed (t : Tree) :
    ((∃ m, t.lower = .ok m) ↔ t.IsWellFormed) ∧
    ∀ f, (t.lower = .error f ↔ ∃ later, t.violations = f :: later) ∧
      f.diagnostic = ⟨.generation, f.reason, []⟩ := by
  constructor
  · rw [← violations_eq_nil_iff]
    constructor
    · rintro ⟨m, hm⟩
      by_contra hviolations
      obtain ⟨f, hf⟩ := Option.isSome_iff_exists.mp (List.isSome_head?.mpr hviolations)
      rw [lower_eq_error_iff.mpr hf] at hm
      exact absurd hm (by simp)
    · intro hviolations
      cases hlower : t.lower with
      | ok m => exact ⟨m, rfl⟩
      | error f =>
        rw [lower_eq_error_iff, hviolations] at hlower
        exact absurd hlower (by simp)
  · exact fun f ↦ ⟨lower_eq_error_iff.trans List.head?_eq_some_iff, rfl⟩

/-- Only what is first is found, and there is more: the operation below lacks its operator and has
a root for its right operand, `=` lacks its right operand and is not of arithmetic, and the last
statement is no return. -/
theorem Tree.lower_block_below_assignment :
    (Tree.root [.function "f" [] [.ret ⟨some ⟨.symbol .equal, 0, 1⟩,
      .operation ⟨none, .block [], some (.root [])⟩, none⟩, .value .zero]]).lower
        = .error (.noOperand .block) :=
  ((lower_wellFormed _).2 _).1.mpr ⟨[.noOperator, .noOperand .root, .noRight (.symbol .equal),
    .noOpcode (.symbol .equal), .noReturn .value], by decide⟩

end InfixCompiler
