import InfixCompiler.Proofs.Compilation

/-!
# Programs without code

The machine has the four operations of arithmetic, and programs have more operators than that. A
program with another one has no code, and this is the only fault of lowering that a program can
have: its tree is well formed, as trees in general are not.

Which operator is named by the fault follows from the order of the code, in which an operator comes
after its operands. `Expression.operators` lists operators in that order. The fault of an emission
is the first one of its parts (`Emission.fault?_andThen`), so that a fault in the code is the first
operator of the list that is not of arithmetic.
-/

namespace InfixCompiler

/-! ## Operators in the order of the code -/

/-- The operators of an expression: those of the left operand, those of the right one, and the
operator between them. -/
def Expression.operators : Expression → List Token
  | number _ => []
  | binary left operator right => left.operators ++ right.operators ++ [operator]

/-- What a program returns, in the order of the text. -/
def Program.returns (p : Program) : List Expression := p.functions.flatMap Function.returns

/-- The first operator of an expression that is not of arithmetic. -/
def Expression.unlowered? (e : Expression) : Option Token :=
  e.operators.find? fun o ↦ ¬ o.kind.IsArithmetic

/-- The operator `o` is the first one in the program that is not of arithmetic: there is none in the
returns before its own, nor among the operators before it there. -/
def Program.FirstUnlowered (p : Program) (o : Token) : Prop :=
  ∃ (before after : List Expression) (e : Expression), p.returns = before ++ e :: after ∧
    (∀ e' ∈ before, ∀ o' ∈ e'.operators, o'.kind.IsArithmetic) ∧
    ∃ front back : List Token, e.operators = front ++ o :: back ∧
      (∀ o' ∈ front, o'.kind.IsArithmetic) ∧ ¬ o.kind.IsArithmetic

theorem Expression.unlowered?_eq_none_iff {e : Expression} :
    e.unlowered? = none ↔ ∀ o ∈ e.operators, o.kind.IsArithmetic := by
  simp [unlowered?]

theorem Program.findSome?_unlowered?_iff {p : Program} {o : Token} :
    p.returns.findSome? Expression.unlowered? = some o ↔ p.FirstUnlowered o := by
  rw [List.findSome?_eq_some_iff]
  constructor
  · rintro ⟨before, e, after, hreturns, he, hbefore⟩
    rw [Expression.unlowered?, List.find?_eq_some_iff_append] at he
    obtain ⟨ho, front, back, hoperators, hfront⟩ := he
    refine ⟨before, after, e, hreturns, fun e' he' ↦ ?_, front, back, hoperators, ?_, ?_⟩
    · exact Expression.unlowered?_eq_none_iff.mp (hbefore e' he')
    · simpa using hfront
    · simpa using ho
  · rintro ⟨before, after, e, hreturns, hbefore, front, back, hoperators, hfront, ho⟩
    refine ⟨before, e, after, hreturns, ?_, fun e' he' ↦ ?_⟩
    · rw [Expression.unlowered?, List.find?_eq_some_iff_append]
      exact ⟨by simpa using ho, front, back, hoperators, by simpa using hfront⟩
    · exact Expression.unlowered?_eq_none_iff.mpr (hbefore e' he')

/-! ## The fault of a program -/

/-- The fault of two emissions is that of the first one, if it has one. -/
theorem Emission.fault?_andThen (e e' : Emission) :
    (e.andThen e').fault? = e.fault?.or e'.fault? := by
  rcases e with ⟨code, _ | f⟩ <;> rfl

/-- The fault at an operator. -/
def LoweringFault.atOperator (o : Token) : LoweringFault := .noOpcode o.kind

theorem Expression.fault?_lowerOperand (e : Expression) :
    e.tree.lowerOperand.fault? = e.unlowered?.map .atOperator := by
  induction e with
  | number x => rfl
  | binary left operator right ihl ihr =>
    have hoperator : (lowerOperator operator.kind).fault?
        = ([operator].find? fun o ↦ ¬ o.kind.IsArithmetic).map .atOperator := by
      by_cases ho : operator.kind.IsArithmetic
      · simp [lowerOperator_of_isArithmetic ho, ho, Emission.emit]
      · simp [lowerOperator_of_not_isArithmetic ho, ho, Emission.fail, LoweringFault.atOperator]
    have hunlowered : (binary left operator right).unlowered? = (left.unlowered?.or
        right.unlowered?).or ([operator].find? fun o ↦ ¬ o.kind.IsArithmetic) := by
      rw [unlowered?, operators, List.find?_append, List.find?_append]
      rfl
    rw [tree, Tree.lowerOperand, Operation.binary, Operation.lower, Emission.fault?_andThen,
      Emission.fault?_andThen, ihl, ihr, hoperator, hunlowered, Option.map_or, Option.map_or]

theorem fault?_lowerBody (es : List Expression) : (lowerBody (statements es)).fault?
    = (es.findSome? Expression.unlowered?).map .atOperator := by
  induction es with
  | nil => rfl
  | cons e es ih =>
    rw [statements_cons, lowerBody_cons, Tree.lowerStatement, Emission.fault?_andThen,
      Emission.fault?_andThen, Expression.lower_result, e.fault?_lowerOperand, ih,
      List.findSome?_cons]
    cases e.unlowered? with
    | none => rfl
    | some o => rfl

theorem fault?_assemble (fs : List Function) : (assemble (fs.map Function.tree)).fault?
    = ((fs.flatMap Function.returns).findSome? Expression.unlowered?).map .atOperator := by
  induction fs with
  | nil => rfl
  | cons f fs ih =>
    rw [List.map_cons, Function.tree, assemble, fault?_lowerBody, List.flatMap_cons,
      List.findSome?_append]
    cases f.returns.findSome? Expression.unlowered? with
    | none => exact ih
    | some o => rfl

/-- A program has no code only for its first operator that is not of arithmetic. -/
theorem Program.lower_tree_eq_error_iff_firstUnlowered {p : Program} {fault : LoweringFault} :
    p.tree.lower = .error fault ↔ ∃ o, p.FirstUnlowered o ∧ fault = .noOpcode o.kind := by
  rw [lower_tree_eq_error_iff, fault?_assemble, Option.map_eq_some_iff]
  simp only [← findSome?_unlowered?_iff]
  exact exists_congr fun o ↦ and_congr_right fun _ ↦ eq_comm

theorem Program.exists_firstUnlowered_iff {p : Program} : (∃ o, p.FirstUnlowered o) ↔
    ∃ e ∈ p.returns, ∃ o ∈ e.operators, ¬ o.kind.IsArithmetic := by
  simp only [← findSome?_unlowered?_iff, ← Option.isSome_iff_exists, List.findSome?_isSome_iff]
  refine exists_congr fun e ↦ and_congr_right fun _ ↦ ?_
  simp [Expression.unlowered?]

/-! ## The fault of a source -/

/-- Only lowering has diagnostics of its kind, and no stage has any about names or about code that
is run. -/
theorem CompileFault.kind_diagnostic (fault : CompileFault) (s : Source) :
    (fault.diagnostic s).kind ≠ .name ∧ (fault.diagnostic s).kind ≠ .runtime ∧
      ((fault.diagnostic s).kind = .generation ↔ ∃ f, fault = .lowering f) := by
  cases fault with
  | lexing failure => exact ⟨nofun, nofun, nofun, nofun⟩
  | parsing f => exact ⟨nofun, nofun, nofun, nofun⟩
  | lowering f => exact ⟨nofun, nofun, fun _ ↦ ⟨f, rfl⟩, fun _ ↦ rfl⟩

theorem Source.compile_eq_lowering_iff {s : Source} {f : LoweringFault} :
    s.compile = .error (.lowering f) ↔
      ∃ p, s.program = .ok p ∧ ∃ o, p.FirstUnlowered o ∧ f = .noOpcode o.kind := by
  rw [compile_eq_error_iff]
  constructor
  · rintro (h | ⟨p, f', hp, hlower, hf⟩)
    · -- a source that spells no program fails in an earlier stage
      rcases program_eq_error_iff.mp h with ⟨_, -, hf⟩ | ⟨_, _, -, -, hf⟩
      · exact absurd hf (by simp)
      · exact absurd hf (by simp)
    · obtain rfl := CompileFault.lowering.inj hf
      exact ⟨p, hp, Program.lower_tree_eq_error_iff_firstUnlowered.mp hlower⟩
  · rintro ⟨p, hp, ho⟩
    exact .inr ⟨p, f, hp, Program.lower_tree_eq_error_iff_firstUnlowered.mpr ho, rfl⟩

/-- **Sources without code.** A source that spells a program has no code if and only if an operator
of the program is not of arithmetic. The diagnostic names the first such operator and has no notes.
There is no other diagnostic about code, nor any about names or runs. -/
theorem Source.generation_iff_unlowered (s : Source) :
    ((∃ fault, s.compile = .error fault ∧ (fault.diagnostic s).kind = .generation) ↔
      ∃ p, s.program = .ok p ∧ ∃ e ∈ p.returns, ∃ o ∈ e.operators, ¬ o.kind.IsArithmetic) ∧
    ∀ fault, s.compile = .error fault →
      (fault.diagnostic s).kind ≠ .name ∧ (fault.diagnostic s).kind ≠ .runtime ∧
      ((fault.diagnostic s).kind = .generation → ∃ p o, s.program = .ok p ∧ p.FirstUnlowered o ∧
        fault = .lowering (.noOpcode o.kind) ∧ fault.diagnostic s
          = ⟨.generation, s!"Operator {o.kind.describe} has no bytecode lowering", []⟩) := by
  constructor
  · constructor
    · rintro ⟨fault, hfault, hkind⟩
      obtain ⟨f, rfl⟩ := (fault.kind_diagnostic s).2.2.mp hkind
      obtain ⟨p, hp, o, ho, -⟩ := compile_eq_lowering_iff.mp hfault
      exact ⟨p, hp, Program.exists_firstUnlowered_iff.mp ⟨o, ho⟩⟩
    · rintro ⟨p, hp, hunlowered⟩
      obtain ⟨o, ho⟩ := Program.exists_firstUnlowered_iff.mpr hunlowered
      exact ⟨_, compile_eq_lowering_iff.mpr ⟨p, hp, o, ho, rfl⟩, rfl⟩
  · intro fault hfault
    obtain ⟨hname, hruntime, hgeneration⟩ := fault.kind_diagnostic s
    refine ⟨hname, hruntime, fun hkind ↦ ?_⟩
    obtain ⟨f, rfl⟩ := hgeneration.mp hkind
    obtain ⟨p, hp, o, ho, rfl⟩ := compile_eq_lowering_iff.mp hfault
    exact ⟨p, o, hp, ho, rfl, rfl⟩

/-- The code of the right operand comes before the operator `<`, so it is `=` that has none. -/
theorem Source.generation_names_assignment :
    ∃ p o, (ofString "func f() \x7b return 4; return 1 < 2 + (3 = 5); \x7d").program = .ok p ∧
      p.FirstUnlowered o ∧
      CompileFault.lowering (.noOpcode (.symbol .equal)) = .lowering (.noOpcode o.kind) ∧
      (CompileFault.lowering (.noOpcode (.symbol .equal))).diagnostic
          (ofString "func f() \x7b return 4; return 1 < 2 + (3 = 5); \x7d")
        = ⟨.generation, s!"Operator {o.kind.describe} has no bytecode lowering", []⟩ := by
  have hcompile : (ofString "func f() \x7b return 4; return 1 < 2 + (3 = 5); \x7d").compile
      = .error (.lowering (.noOpcode (.symbol .equal))) := by
    decide +kernel
  exact ((Source.generation_iff_unlowered _).2 _ hcompile).2.2 rfl

end InfixCompiler
