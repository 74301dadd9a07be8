import InfixCompiler.Proofs.StackMachine.Correctness

/-!
# Reading code back

Code tells what it computes. Two things of a tree are not in its code, where in the text its
operators are, and which operations stand for their only operand. What is left of a result without
them is its `Calculation`, and the code of a function determines the calculations of its returns.

They are found again by a machine like that of `Configuration.step?`, with calculations on its stack
in place of numbers (`retrace`). An operator takes the two calculations on top, so that left and
right operands are kept apart, and a `ret` ends a calculation and clears the stack for the next one.
As with the values of code, the invariant is about code with anything behind it, on any stack
(`Calculation.ReadsBack`).
-/

namespace InfixCompiler

/-! ## Calculations -/

/-- What is to be computed: a number, or an operator of two calculations. -/
inductive Calculation where
  /-- A number, bit for bit. -/
  | number (x : Binary64)
  /-- An operator, wherever it stands in the text, between two calculations. -/
  | apply (operator : Kind) (left right : Calculation)
deriving DecidableEq

mutual

/-- The calculation of an operand. -/
def Tree.calculation? : Tree → Option Calculation
  | .value x => some (.number x)
  | .operation e => e.calculation?
  | _ => none

/-- The calculation of an operation. One that stands for its only operand has that of the
operand. -/
def Operation.calculation? : Operation → Option Calculation
  | ⟨some operator, left, some right⟩ => do
    let a ← left.calculation?
    let b ← right.calculation?
    return .apply operator.kind a b
  | ⟨none, left, none⟩ => left.calculation?
  | _ => none

end

/-- Two operations are the same calculation. -/
def Operation.SameCalculation (e e' : Operation) : Prop :=
  ∃ p, e.calculation? = some p ∧ e'.calculation? = some p

namespace Calculation

/-- The code of a calculation. -/
def code : Calculation → List Instruction
  | number x => [.constant x]
  | apply operator left right => left.code ++ right.code ++ [.plain (.ofOperator operator)]

/-- The code of a return. -/
def returned (p : Calculation) : List Instruction := p.code ++ [.plain .ret]

end Calculation

/-! ## Reading back -/

/-- The operator that an opcode is for. -/
def Opcode.operator? : Opcode → Option Kind
  | add => some (.symbol .plus)
  | sub => some (.symbol .minus)
  | mul => some (.symbol .star)
  | div => some (.symbol .slash)
  | _ => none

/-- The calculations that code returns, one after the other, up to the first instruction that is not
part of one. -/
def retrace : List Instruction → List Calculation → List Calculation
  | ⟨.storeConst, some x⟩ :: code, stack => retrace code (.number x :: stack)
  | ⟨.ret, _⟩ :: code, p :: _ => p :: retrace code []
  | ⟨opcode, _⟩ :: code, b :: a :: stack =>
    match opcode.operator? with
    | some operator => retrace code (.apply operator a b :: stack)
    | none => []
  | _, _ => []

/-- Reading its code puts the calculation on the stack, whatever is there and whatever follows. -/
def Calculation.ReadsBack (p : Calculation) : Prop :=
  ∀ (later : List Instruction) (stack : List Calculation),
    retrace (p.code ++ later) stack = retrace later (p :: stack)

theorem Calculation.readsBack_number (x : Binary64) : (number x).ReadsBack := fun _ _ ↦ rfl

/-- An operator of arithmetic takes the two calculations on top. -/
theorem retrace_operator {operator : Kind} (h : operator.IsArithmetic)
    (a b : Calculation) (later : List Instruction) (stack : List Calculation) :
    retrace (.plain (.ofOperator operator) :: later) (b :: a :: stack)
      = retrace later (.apply operator a b :: stack) := by
  rcases Kind.isArithmetic_iff.mp h with rfl | rfl | rfl | rfl <;> rfl

theorem Calculation.ReadsBack.apply {operator : Kind} {a b : Calculation}
    (h : operator.IsArithmetic) (ha : a.ReadsBack) (hb : b.ReadsBack) :
    (Calculation.apply operator a b).ReadsBack := by
  intro later stack
  rw [code, List.append_assoc, List.append_assoc, ha, hb]
  exact retrace_operator h a b later stack

/-! ## The calculation of code -/

mutual

/-- The code of an operand is that of its calculation. -/
theorem Tree.exists_calculation : ∀ t : Tree, t.lowerOperand.fault? = none →
    ∃ p, t.calculation? = some p ∧ t.lowerOperand.code = p.code ∧ p.ReadsBack
  | .value x, _ => ⟨.number x, rfl, rfl, Calculation.readsBack_number x⟩
  | .operation e, h => e.exists_calculation h
  | .root _, h => absurd h (by simp [Tree.lowerOperand, Emission.fail])
  | .function .., h => absurd h (by simp [Tree.lowerOperand, Emission.fail])
  | .block _, h => absurd h (by simp [Tree.lowerOperand, Emission.fail])
  | .ret _, h => absurd h (by simp [Tree.lowerOperand, Emission.fail])

/-- The code of an operation is that of its calculation. -/
theorem Operation.exists_calculation : ∀ e : Operation, e.lower.fault? = none →
    ∃ p, e.calculation? = some p ∧ e.lower.code = p.code ∧ p.ReadsBack
  | ⟨some operator, left, some right⟩, h => by
    obtain ⟨hl, hr, ho, hcode⟩ := Operation.lowered_binary h
    obtain ⟨a, ha, hleft, hareads⟩ := left.exists_calculation hl
    obtain ⟨b, hb, hright, hbreads⟩ := right.exists_calculation hr
    refine ⟨.apply operator.kind a b, by simp [Operation.calculation?, ha, hb], ?_,
      hareads.apply ho hbreads⟩
    rw [hcode, hleft, hright, Calculation.code]
  | ⟨none, left, none⟩, h => by
    rw [Operation.lower] at h
    obtain ⟨p, hp, hleft, hreads⟩ := left.exists_calculation h
    exact ⟨p, by rw [Operation.calculation?, hp], by rw [Operation.lower, hleft], hreads⟩
  | ⟨some operator, left, none⟩, h => by
    rw [Operation.lower, Emission.fault?_andThen_eq_none] at h
    exact absurd h.2 (by simp [Emission.fail])
  | ⟨none, left, some _⟩, h => by
    rw [Operation.lower, Emission.fault?_andThen_eq_none] at h
    exact absurd h.2 (by simp [Emission.fail])

end

/-- The code of statements is that of the calculations that they return. -/
theorem exists_calculations {body : List Tree} (h : (lowerBody body).fault? = none) :
    ∃ (results : List Operation) (ps : List Calculation), body = results.map .ret ∧
      results.map Operation.calculation? = ps.map some ∧
      (lowerBody body).code = ps.flatMap Calculation.returned ∧ ∀ p ∈ ps, p.ReadsBack := by
  induction body with
  | nil => exact ⟨[], [], rfl, rfl, rfl, List.forall_mem_nil _⟩
  | cons t body ih =>
    rw [lowerBody_cons, Emission.fault?_andThen_eq_none] at h
    obtain ⟨ht, hbody⟩ := h
    obtain ⟨results, ps, rfl, hps, hcode, hreads⟩ := ih hbody
    rw [lowerBody_cons, Emission.code_andThen ht, hcode]
    cases t with
    | ret e =>
      rw [Tree.lowerStatement, Emission.fault?_andThen_eq_none] at ht
      obtain ⟨p, hp, hpcode, hpreads⟩ := e.exists_calculation ht.1
      refine ⟨e :: results, p :: ps, rfl, ?_, ?_, List.forall_mem_cons.mpr ⟨hpreads, hreads⟩⟩
      · rw [List.map_cons, List.map_cons, hp, hps]
      · rw [Tree.lowerStatement, Emission.code_andThen ht.1, hpcode, List.flatMap_cons]
        rfl
    | _ => exact absurd ht (by simp [Tree.lowerStatement, Emission.fail])

/-- From the code of returns their calculations are read. -/
theorem retrace_returned {ps : List Calculation} (h : ∀ p ∈ ps, p.ReadsBack) :
    retrace (ps.flatMap Calculation.returned) [] = ps := by
  induction ps with
  | nil => rfl
  | cons p ps ih =>
    rw [List.forall_mem_cons] at h
    rw [List.flatMap_cons, Calculation.returned, List.append_assoc, h.1, List.singleton_append]
    exact congrArg (p :: ·) (ih h.2)

/-! ## Functions -/

theorem lowerFunction_eq_ok_iff {name : String} {body : List Tree} {c : Chunk} :
    lowerFunction name body = .ok c ↔
      (lowerBody body).fault? = none ∧ c = ⟨name, (lowerBody body).code⟩ := by
  rw [lowerFunction]
  split
  · next hfault => rw [Except.ok.injEq, eq_comm, and_iff_right hfault]
  · next hfault => simp [hfault]

/-- Operations are the same calculations one by one if and only if the lists of their calculations
are equal. -/
theorem forall₂_sameCalculation_iff {results results' : List Operation} {ps ps' : List Calculation}
    (h : results.map Operation.calculation? = ps.map some)
    (h' : results'.map Operation.calculation? = ps'.map some) :
    List.Forall₂ Operation.SameCalculation results results' ↔ ps = ps' := by
  have hsame (e e' : Operation) (p : Calculation) (he : e.calculation? = some p) :
      e.SameCalculation e' ↔ e.calculation? = e'.calculation? := by
    constructor
    · rintro ⟨q, hq, hq'⟩
      rw [hq, hq']
    · intro heq
      exact ⟨p, he, heq ▸ he⟩
  induction results generalizing results' ps ps' with
  | nil =>
    obtain rfl : ps = [] := List.map_eq_nil_iff.mp h.symm
    rw [List.forall₂_nil_left_iff, ← List.map_eq_nil_iff, h', List.map_eq_nil_iff, eq_comm]
  | cons e results ih =>
    obtain ⟨p, ps, rfl⟩ := List.exists_cons_of_ne_nil (l := ps) (by rintro rfl; simp at h)
    rw [List.map_cons, List.map_cons, List.cons.injEq] at h
    cases results' with
    | nil =>
      obtain rfl : ps' = [] := List.map_eq_nil_iff.mp h'.symm
      simp
    | cons e' results' =>
      obtain ⟨p', ps', rfl⟩ := List.exists_cons_of_ne_nil (l := ps') (by rintro rfl; simp at h')
      rw [List.map_cons, List.map_cons, List.cons.injEq] at h'
      have hrest : List.Forall₂ Operation.SameCalculation results results' ↔ ps = ps' :=
        ih h.2 h'.2
      rw [List.forall₂_cons, hsame e e' p h.1, hrest, h.1, h'.1, Option.some_inj, List.cons.injEq]

/-- **Code determines what was lowered.** Two functions that are lowered have the same code if and
only if they have equally many returns and each return of the one is the same calculation as that
of the other. -/
theorem lowerFunction_code_injective {name name' : String} {body body' : List Tree} {c c' : Chunk}
    (h : lowerFunction name body = .ok c) (h' : lowerFunction name' body' = .ok c') :
    c.code = c'.code ↔ ∃ results results' : List Operation,
      body = results.map .ret ∧ body' = results'.map .ret ∧
      List.Forall₂ Operation.SameCalculation results results' := by
  obtain ⟨hfault, rfl⟩ := lowerFunction_eq_ok_iff.mp h
  obtain ⟨hfault', rfl⟩ := lowerFunction_eq_ok_iff.mp h'
  obtain ⟨results, ps, rfl, hps, hcode, hreads⟩ := exists_calculations hfault
  obtain ⟨results', ps', rfl, hps', hcode', hreads'⟩ := exists_calculations hfault'
  have hcalculations : (lowerBody (results.map .ret)).code = (lowerBody (results'.map .ret)).code ↔
      ps = ps' := by
    rw [hcode, hcode']
    constructor
    · intro heq
      rw [← retrace_returned hreads, heq, retrace_returned hreads']
    · rintro rfl
      rfl
  have hinjective : Function.Injective (List.map Tree.ret) :=
    List.map_injective_iff.mpr fun _ _ ↦ Tree.ret.inj
  rw [hcalculations, ← forall₂_sameCalculation_iff hps hps']
  constructor
  · intro hresults
    exact ⟨results, results', rfl, rfl, hresults⟩
  · rintro ⟨results₂, results₂', hbody, hbody', hresults⟩
    rwa [hinjective hbody, hinjective hbody']

/-- Operations around single operands, places and names leave no trace in the code. Constants are
compared bit by bit, so a NaN is the same as itself. -/
theorem lowerFunction_code_injective_minus : ∃ c c' : Chunk,
    lowerFunction "f" [.ret (.binary (.value .zero) ⟨.symbol .minus, 2, 1⟩ (.value .nan))]
      = .ok c ∧
    lowerFunction "g" [.ret (.ofOperand (.operation (.binary
      (.operation (.ofOperand (.value .zero))) ⟨.symbol .minus, 40, 7⟩ (.value .nan))))]
      = .ok c' ∧
    c.code = c'.code := by
  have hplain : lowerFunction "f"
      [.ret (.binary (.value .zero) ⟨.symbol .minus, 2, 1⟩ (.value .nan))]
        = .ok ⟨"f", [.constant .zero, .constant .nan, .plain .sub, .plain .ret]⟩ := rfl
  have hwrapped : lowerFunction "g" [.ret (.ofOperand (.operation (.binary
      (.operation (.ofOperand (.value .zero))) ⟨.symbol .minus, 40, 7⟩ (.value .nan))))]
        = .ok ⟨"g", [.constant .zero, .constant .nan, .plain .sub, .plain .ret]⟩ := rfl
  refine ⟨_, _, hplain, hwrapped, ?_⟩
  apply (lowerFunction_code_injective hplain hwrapped).mpr
  exact ⟨[_], [_], rfl, rfl, .cons
    ⟨.apply (.symbol .minus) (.number .zero) (.number .nan), rfl, rfl⟩ .nil⟩

end InfixCompiler
