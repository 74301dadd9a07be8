import InfixCompiler.Proofs.Encoding

/-!
# Equal trees and their code

Trees are compared with numbers as numbers: a NaN is not equal to itself, and the two zeros are
equal though their bits differ. So this equality is neither that of Lean nor an equivalence. It is
symmetric and transitive, since it says that two trees are the same once zeros have lost their sign,
and that there is no NaN in either (`Tree.ieeeEq_iff`).

Lowering respects it. Emissions of equal trees stop at the same fault, and up to it their
instructions are equal one by one (`Emission.IeeeEq`). Bytes of equal instructions are the same but
for one bit, that of the sign of a zero.
-/

namespace InfixCompiler

open scoped Binary64

/-! ## Equal numbers -/

namespace Binary64

variable {x y : Binary64}

/-- The number, or the positive zero for either zero. -/
def dropZeroSign (x : Binary64) : Binary64 := if x.isZero then zero else x

theorem dropZeroSign_eq_iff :
    x.dropZeroSign = y.dropZeroSign ↔ x = y ∨ x.isZero ∧ y.isZero := by
  have hzero : zero.isZero := rfl
  unfold dropZeroSign
  by_cases hx : x.isZero <;> by_cases hy : y.isZero
  · simp [hx, hy]
  · rw [if_pos hx, if_neg hy]
    refine iff_of_false ?_ ?_
    · rintro rfl
      exact hy hzero
    · rintro (rfl | ⟨-, h⟩)
      · exact hy hx
      · exact hy h
  · rw [if_neg hx, if_pos hy]
    refine iff_of_false ?_ ?_
    · rintro rfl
      exact hx hzero
    · rintro (rfl | ⟨h, -⟩)
      · exact hx hy
      · exact hx h
  · rw [if_neg hx, if_neg hy]
    simp [hx]

theorem ieeeEq_iff : x.ieeeEq y ↔ x.dropZeroSign = y.dropZeroSign ∧ ¬ x.isNaN ∧ ¬ y.isNaN := by
  rw [dropZeroSign_eq_iff]
  simp only [ieeeEq, Bool.and_eq_true, Bool.or_eq_true, beq_iff_eq, Bool.not_eq_true']
  simp only [Bool.not_eq_true, and_comm]

/-- Equal numbers are the same, or both zeros. -/
theorem eq_or_isZero_of_ieeeEq (h : x.ieeeEq y) : x = y ∨ x.isZero ∧ y.isZero :=
  dropZeroSign_eq_iff.mp (ieeeEq_iff.mp h).1

end Binary64

/-! ## Equal trees -/

mutual

/-- The tree with a function applied to its numbers. -/
def Tree.mapNumbers (f : Binary64 → Binary64) : Tree → Tree
  | .root ds => .root (Tree.mapNumbersList f ds)
  | .function name params b => .function name params (Tree.mapNumbersList f b)
  | .block b => .block (Tree.mapNumbersList f b)
  | .ret e => .ret (e.mapNumbers f)
  | .operation e => .operation (e.mapNumbers f)
  | .value x => .value (f x)

/-- The operation with a function applied to its numbers. -/
def Operation.mapNumbers (f : Binary64 → Binary64) : Operation → Operation
  | ⟨o, left, some right⟩ => ⟨o, left.mapNumbers f, some (right.mapNumbers f)⟩
  | ⟨o, left, none⟩ => ⟨o, left.mapNumbers f, none⟩

/-- The trees with a function applied to their numbers. -/
def Tree.mapNumbersList (f : Binary64 → Binary64) : List Tree → List Tree
  | [] => []
  | t :: ts => t.mapNumbers f :: Tree.mapNumbersList f ts

end

mutual

/-- The numbers of a tree, wherever they are in it. -/
def Tree.numbers : Tree → List Binary64
  | .root ds => Tree.numbersList ds
  | .function _ _ b => Tree.numbersList b
  | .block b => Tree.numbersList b
  | .ret e => e.numbers
  | .operation e => e.numbers
  | .value x => [x]

/-- The numbers of an operation. -/
def Operation.numbers : Operation → List Binary64
  | ⟨_, left, some right⟩ => left.numbers ++ right.numbers
  | ⟨_, left, none⟩ => left.numbers

/-- The numbers of trees. -/
def Tree.numbersList : List Tree → List Binary64
  | [] => []
  | t :: ts => t.numbers ++ Tree.numbersList ts

end

/-- There is no NaN among the numbers. -/
def AreNumeric (xs : List Binary64) : Prop := ∀ x ∈ xs, ¬ x.isNaN

theorem areNumeric_append {xs ys : List Binary64} :
    AreNumeric (xs ++ ys) ↔ AreNumeric xs ∧ AreNumeric ys := List.forall_mem_append

theorem areNumeric_singleton {x : Binary64} : AreNumeric [x] ↔ ¬ x.isNaN :=
  List.forall_mem_singleton

mutual

/-- Trees are equal if they are the same without the signs of zeros and have no NaN. -/
theorem Tree.ieeeEq_iff : ∀ a b : Tree, a.ieeeEq b ↔
    a.mapNumbers Binary64.dropZeroSign = b.mapNumbers Binary64.dropZeroSign ∧
      AreNumeric a.numbers ∧ AreNumeric b.numbers
  | .root ds, b => by
    cases b with
    | root es => simp [Tree.ieeeEq, Tree.mapNumbers, Tree.numbers, Tree.ieeeEqList_iff ds es]
    | _ => simp [Tree.ieeeEq, Tree.mapNumbers]
  | .function f ps body, b => by
    cases b with
    | function g qs body' =>
      simp [Tree.ieeeEq, Tree.mapNumbers, Tree.numbers, Tree.ieeeEqList_iff body body', and_assoc]
    | _ => simp [Tree.ieeeEq, Tree.mapNumbers]
  | .block body, b => by
    cases b with
    | block body' =>
      simp [Tree.ieeeEq, Tree.mapNumbers, Tree.numbers, Tree.ieeeEqList_iff body body']
    | _ => simp [Tree.ieeeEq, Tree.mapNumbers]
  | .ret e, b => by
    cases b with
    | ret e' => simp [Tree.ieeeEq, Tree.mapNumbers, Tree.numbers, e.ieeeEq_iff e']
    | _ => simp [Tree.ieeeEq, Tree.mapNumbers]
  | .operation e, b => by
    cases b with
    | operation e' => simp [Tree.ieeeEq, Tree.mapNumbers, Tree.numbers, e.ieeeEq_iff e']
    | _ => simp [Tree.ieeeEq, Tree.mapNumbers]
  | .value x, b => by
    cases b with
    | value y =>
      rw [Tree.ieeeEq, Binary64.ieeeEq_iff, Tree.mapNumbers, Tree.mapNumbers, Tree.value.injEq]
      exact and_congr_right' (and_congr areNumeric_singleton.symm areNumeric_singleton.symm)
    | _ => simp [Tree.ieeeEq, Tree.mapNumbers]

/-- Operations are equal if they are the same without the signs of zeros and have no NaN. -/
theorem Operation.ieeeEq_iff : ∀ e e' : Operation, e.ieeeEq e' ↔
    e.mapNumbers Binary64.dropZeroSign = e'.mapNumbers Binary64.dropZeroSign ∧
      AreNumeric e.numbers ∧ AreNumeric e'.numbers
  | ⟨o, left, some right⟩, ⟨o', left', some right'⟩ => by
    simp only [Operation.ieeeEq, Operation.mapNumbers, Operation.numbers, Bool.and_eq_true,
      beq_iff_eq, left.ieeeEq_iff left', right.ieeeEq_iff right', areNumeric_append,
      Operation.mk.injEq, Option.some_inj]
    tauto
  | ⟨o, left, none⟩, ⟨o', left', none⟩ => by
    simp only [Operation.ieeeEq, Operation.mapNumbers, Operation.numbers, Bool.and_eq_true,
      beq_iff_eq, left.ieeeEq_iff left', Operation.mk.injEq]
    tauto
  | ⟨o, left, some right⟩, ⟨o', left', none⟩ => by simp [Operation.ieeeEq, Operation.mapNumbers]
  | ⟨o, left, none⟩, ⟨o', left', some right'⟩ => by simp [Operation.ieeeEq, Operation.mapNumbers]

/-- Trees are equal one by one if they are the same without the signs of zeros and have no NaN. -/
theorem Tree.ieeeEqList_iff : ∀ ts us : List Tree, Tree.ieeeEqList ts us ↔
    Tree.mapNumbersList Binary64.dropZeroSign ts = Tree.mapNumbersList Binary64.dropZeroSign us ∧
      AreNumeric (Tree.numbersList ts) ∧ AreNumeric (Tree.numbersList us)
  | [], [] => by simp [Tree.ieeeEqList, Tree.numbersList, AreNumeric]
  | t :: ts, u :: us => by
    simp only [Tree.ieeeEqList, Tree.mapNumbersList, Tree.numbersList, Bool.and_eq_true,
      t.ieeeEq_iff u, Tree.ieeeEqList_iff ts us, areNumeric_append, List.cons.injEq]
    tauto
  | [], _ :: _ => by simp [Tree.ieeeEqList, Tree.mapNumbersList]
  | _ :: _, [] => by simp [Tree.ieeeEqList, Tree.mapNumbersList]

end

theorem Tree.forall₂_of_ieeeEqList {ts us : List Tree} (h : Tree.ieeeEqList ts us) :
    List.Forall₂ (fun a b ↦ a.ieeeEq b = true) ts us := by
  induction ts generalizing us with
  | nil =>
    cases us with
    | nil => exact .nil
    | cons => exact absurd h (by simp [Tree.ieeeEqList])
  | cons t ts ih =>
    cases us with
    | nil => exact absurd h (by simp [Tree.ieeeEqList])
    | cons u us =>
      simp only [Tree.ieeeEqList, Bool.and_eq_true] at h
      exact .cons h.1 (ih h.2)

/-- Two trees of one kind, alike but for their parts, and their parts are equal. -/
inductive Tree.EqualParts : Tree → Tree → Prop where
  /-- Two programs. -/
  | root {ds es : List Tree} :
    List.Forall₂ (fun a b ↦ a.ieeeEq b = true) ds es → EqualParts (.root ds) (.root es)
  /-- Two functions with the same name and parameters. -/
  | function {name : String} {params : List String} {body body' : List Tree} :
    List.Forall₂ (fun a b ↦ a.ieeeEq b = true) body body' →
      EqualParts (.function name params body) (.function name params body')
  /-- Two blocks. -/
  | block {body body' : List Tree} :
    List.Forall₂ (fun a b ↦ a.ieeeEq b = true) body body' →
      EqualParts (.block body) (.block body')
  /-- Two returns. -/
  | ret {e e' : Operation} : e.ieeeEq e' → EqualParts (.ret e) (.ret e')
  /-- Two operations. -/
  | operation {e e' : Operation} : e.ieeeEq e' → EqualParts (.operation e) (.operation e')
  /-- Two numbers. -/
  | value {x y : Binary64} : x.ieeeEq y → EqualParts (.value x) (.value y)

theorem Tree.equalParts_of_ieeeEq {a b : Tree} (h : a.ieeeEq b) : a.EqualParts b := by
  cases a with
  | root ds =>
    cases b with
    | root es => exact .root (forall₂_of_ieeeEqList h)
    | _ => exact absurd h (by simp [Tree.ieeeEq])
  | function name params body =>
    cases b with
    | function name' params' body' =>
      simp only [Tree.ieeeEq, Bool.and_eq_true, beq_iff_eq] at h
      obtain ⟨⟨rfl, rfl⟩, hbody⟩ := h
      exact .function (forall₂_of_ieeeEqList hbody)
    | _ => exact absurd h (by simp [Tree.ieeeEq])
  | block body =>
    cases b with
    | block body' => exact .block (forall₂_of_ieeeEqList h)
    | _ => exact absurd h (by simp [Tree.ieeeEq])
  | ret e =>
    cases b with
    | ret e' => exact .ret h
    | _ => exact absurd h (by simp [Tree.ieeeEq])
  | operation e =>
    cases b with
    | operation e' => exact .operation h
    | _ => exact absurd h (by simp [Tree.ieeeEq])
  | value x =>
    cases b with
    | value y => exact .value h
    | _ => exact absurd h (by simp [Tree.ieeeEq])

/-! ## Equal code -/

theorem Chunk.ieeeEq_iff {c d : Chunk} : c.ieeeEq d ↔
    c.name = d.name ∧ List.Forall₂ (fun i j ↦ i.ieeeEq j = true) c.code d.code := by
  simp [ieeeEq, List.forall₂_iff_zip, and_assoc]

theorem Module.ieeeEq_iff {m n : Module} : m.ieeeEq n ↔
    m.name = n.name ∧ List.Forall₂ (fun c d ↦ c.ieeeEq d = true) m.chunks n.chunks := by
  simp [ieeeEq, List.forall₂_iff_zip, and_assoc]

/-- Two emissions stop at the same fault and are equal up to it. -/
structure Emission.IeeeEq (e e' : Emission) : Prop where
  /-- The instructions are equal one by one. -/
  code : List.Forall₂ (fun i j ↦ i.ieeeEq j = true) e.code e'.code
  /-- What is wrong after them is the same. -/
  fault : e.fault? = e'.fault?

namespace Emission.IeeeEq

variable {d d' e e' : Emission}

theorem empty : Emission.empty.IeeeEq .empty := ⟨.nil, rfl⟩

theorem fail (f : LoweringFault) : (Emission.fail f).IeeeEq (.fail f) := ⟨.nil, rfl⟩

theorem plain (opcode : Opcode) : (Emission.emit (.plain opcode)).IeeeEq (.emit (.plain opcode)) :=
  ⟨.cons (by simp [Instruction.ieeeEq, Instruction.plain]) .nil, rfl⟩

theorem constant {x y : Binary64} (h : x.ieeeEq y) :
    (Emission.emit (.constant x)).IeeeEq (.emit (.constant y)) :=
  ⟨.cons (by simp [Instruction.ieeeEq, Instruction.constant, h]) .nil, rfl⟩

theorem operator (k : Kind) : (lowerOperator k).IeeeEq (lowerOperator k) := by
  rw [lowerOperator_eq]
  split
  · exact .plain _
  · exact .fail _

theorem andThen (h : e.IeeeEq e') (h' : d.IeeeEq d') : (e.andThen d).IeeeEq (e'.andThen d') := by
  rcases e with ⟨code, _ | f⟩
  · obtain ⟨code', fault'⟩ := e'
    obtain rfl : none = fault' := h.fault
    exact ⟨List.rel_append h.code h'.code, h'.fault⟩
  · obtain ⟨code', fault'⟩ := e'
    obtain rfl : some f = fault' := h.fault
    exact h

end Emission.IeeeEq

mutual

theorem Tree.lowerOperand_ieeeEq : ∀ a b : Tree, a.ieeeEq b →
    a.lowerOperand.IeeeEq b.lowerOperand
  | .value _, _, h => by
    cases Tree.equalParts_of_ieeeEq h with
    | value hx => exact .constant hx
  | .operation e, _, h => by
    cases Tree.equalParts_of_ieeeEq h with
    | operation he => exact e.lower_ieeeEq _ he
  | .root _, _, h => by
    cases Tree.equalParts_of_ieeeEq h
    exact .fail _
  | .function .., _, h => by
    cases Tree.equalParts_of_ieeeEq h
    exact .fail _
  | .block _, _, h => by
    cases Tree.equalParts_of_ieeeEq h
    exact .fail _
  | .ret _, _, h => by
    cases Tree.equalParts_of_ieeeEq h
    exact .fail _

theorem Operation.lower_ieeeEq : ∀ e e' : Operation, e.ieeeEq e' → e.lower.IeeeEq e'.lower
  | ⟨o, left, some right⟩, ⟨o', left', some right'⟩, h => by
    simp only [Operation.ieeeEq, Bool.and_eq_true, beq_iff_eq] at h
    obtain ⟨⟨rfl, hleft⟩, hright⟩ := h
    have hleft := left.lowerOperand_ieeeEq left' hleft
    have hright := right.lowerOperand_ieeeEq right' hright
    cases o with
    | none => exact hleft.andThen (.fail _)
    | some o => exact (hleft.andThen hright).andThen (.operator o.kind)
  | ⟨o, left, none⟩, ⟨o', left', none⟩, h => by
    simp only [Operation.ieeeEq, Bool.and_eq_true, beq_iff_eq] at h
    obtain ⟨rfl, hleft⟩ := h
    have hleft := left.lowerOperand_ieeeEq left' hleft
    cases o with
    | none => exact hleft
    | some o => exact hleft.andThen (.fail _)
  | ⟨o, left, some right⟩, ⟨o', left', none⟩, h => absurd h (by simp [Operation.ieeeEq])
  | ⟨o, left, none⟩, ⟨o', left', some right'⟩, h => absurd h (by simp [Operation.ieeeEq])

end

theorem Tree.lowerStatement_ieeeEq {a b : Tree} (h : a.ieeeEq b) :
    a.lowerStatement.IeeeEq b.lowerStatement := by
  cases Tree.equalParts_of_ieeeEq h with
  | @ret e e' he => exact (e.lower_ieeeEq e' he).andThen (.plain .ret)
  | _ => exact .fail _

theorem lowerBody_ieeeEq {body body' : List Tree}
    (h : List.Forall₂ (fun a b ↦ a.ieeeEq b = true) body body') :
    (lowerBody body).IeeeEq (lowerBody body') := by
  induction h with
  | nil => exact .empty
  | cons ht _ ih => exact (Tree.lowerStatement_ieeeEq ht).andThen ih

theorem assemble_ieeeEq {declarations declarations' : List Tree}
    (h : List.Forall₂ (fun a b ↦ a.ieeeEq b = true) declarations declarations') :
    List.Forall₂ (fun c d ↦ c.ieeeEq d = true) (assemble declarations).chunks
        (assemble declarations').chunks ∧
      (assemble declarations).fault? = (assemble declarations').fault? := by
  induction h with
  | nil => exact ⟨.nil, rfl⟩
  | cons ht _ ih =>
    cases Tree.equalParts_of_ieeeEq ht with
    | @function name params body body' hparts =>
      have hbody := lowerBody_ieeeEq hparts
      have hchunk : Chunk.ieeeEq ⟨name, (lowerBody body).code⟩ ⟨name, (lowerBody body').code⟩ :=
        Chunk.ieeeEq_iff.mpr ⟨rfl, hbody.code⟩
      rw [assemble, assemble]
      dsimp only
      rw [← hbody.fault]
      cases (lowerBody body).fault? with
      | none => exact ⟨.cons hchunk ih.1, ih.2⟩
      | some f => exact ⟨.cons hchunk .nil, rfl⟩
    | _ => exact ⟨.nil, rfl⟩

/-- Equal trees have equal modules, or the same fault. -/
theorem Tree.lower_ieeeEq {a b : Tree} (h : a.ieeeEq b) :
    (∃ f, a.lower = .error f ∧ b.lower = .error f) ∨
      ∃ m n, a.lower = .ok m ∧ b.lower = .ok n ∧ m.ieeeEq n := by
  cases Tree.equalParts_of_ieeeEq h with
  | @root ds es hdeclarations =>
    obtain ⟨hchunks, hfault⟩ := assemble_ieeeEq hdeclarations
    rw [Tree.lower, Tree.lower, ← hfault]
    cases (assemble ds).fault? with
    | none => exact .inr ⟨_, _, rfl, rfl, Module.ieeeEq_iff.mpr ⟨rfl, hchunks⟩⟩
    | some f => exact .inl ⟨f, rfl, rfl⟩
  | _ => exact .inl ⟨_, rfl, rfl⟩

/-! ## Bytes of equal code -/

/-- Byte `n` of the chunk has the sign of a zero, as the last byte of the operand. -/
def Chunk.HasZeroSignAt (c : Chunk) (n : Nat) : Prop :=
  ∃ (front back : List Instruction) (x : Binary64), c.code = front ++ .constant x :: back ∧
    x.isZero ∧ n = (front.flatMap Instruction.encode).length + 8

/-- The bytes of two chunks are the same but for the signs of zeros. -/
structure Chunk.EncodesAlike (c d : Chunk) : Prop where
  /-- There are equally many bytes. -/
  length : c.encode.length = d.encode.length
  /-- Where they differ, they do so in the sign bit of a zero. -/
  differ : ∀ n b b', c.encode[n]? = some b → d.encode[n]? = some b' → b ≠ b' →
    b ^^^ b' = 0x80 ∧ c.HasZeroSignAt n ∧ d.HasZeroSignAt n

/-- The bytes of a zero are zero, but for its sign in the last one. -/
theorem Binary64.bytes_of_isZero {x : Binary64} (h : x.isZero) :
    ∃ s : UInt8, x.bytes = List.replicate 7 0 ++ [s] ∧ (s = 0 ∨ s = 0x80) := by
  have hmod : x.bits.toNat % 0x8000000000000000 = 0 := by
    rw [isZero, beq_iff_eq] at h
    exact h
  have hlt := x.bits.toNat_lt
  have hbits : x.bits.toNat = 0 ∨ x.bits.toNat = 0x8000000000000000 := by omega
  rcases hbits with hbits | hbits
  · exact ⟨0, by rw [bytes, hbits]; rfl, .inl rfl⟩
  · exact ⟨0x80, by rw [bytes, hbits]; rfl, .inr rfl⟩

/-- Equal instructions are written the same or are two zeros. -/
theorem Instruction.encode_eq_or_of_ieeeEq {i j : Instruction} (h : i.ieeeEq j) :
    i.encode = j.encode ∨ ∃ x y, i = constant x ∧ j = constant y ∧ x.isZero ∧ y.isZero := by
  obtain ⟨opcode, operand?⟩ := i
  obtain ⟨opcode', operand?'⟩ := j
  simp only [ieeeEq, Bool.and_eq_true, beq_iff_eq] at h
  obtain ⟨rfl, hoperand⟩ := h
  cases operand? with
  | none =>
    cases operand?' with
    | none => exact .inl rfl
    | some y => exact absurd hoperand (by simp)
  | some x =>
    cases operand?' with
    | none => exact absurd hoperand (by simp)
    | some y =>
      rcases Binary64.eq_or_isZero_of_ieeeEq hoperand with rfl | ⟨hx, hy⟩
      · exact .inl rfl
      by_cases hop : opcode = .storeConst
      · subst hop
        exact .inr ⟨x, y, rfl, rfl, hx, hy⟩
      · have hunused : opcode.hasOperand = false := beq_eq_false_iff_ne.mpr hop
        exact .inl (by rw [encode, encode, hunused]; rfl)

/-- Bytes of zeros differ only in the last one. -/
theorem Instruction.differ_of_isZero {x y : Binary64} (hx : x.isZero) (hy : y.isZero) {n : Nat}
    {b b' : UInt8} (hb : (constant x).encode[n]? = some b) (hb' : (constant y).encode[n]? = some b')
    (hne : b ≠ b') : n = 8 ∧ b ^^^ b' = 0x80 := by
  obtain ⟨s, hxbytes, hs⟩ := Binary64.bytes_of_isZero hx
  obtain ⟨s', hybytes, hs'⟩ := Binary64.bytes_of_isZero hy
  rw [encode_constant, hxbytes, ← List.cons_append] at hb
  rw [encode_constant, hybytes, ← List.cons_append] at hb'
  rcases Nat.lt_trichotomy n 8 with hn | rfl | hn
  · rw [List.getElem?_append_left hn] at hb hb'
    exact absurd (Option.some.inj (hb.symm.trans hb')) hne
  · obtain rfl : s = b := Option.some.inj hb
    obtain rfl : s' = b' := Option.some.inj hb'
    refine ⟨rfl, ?_⟩
    rcases hs with rfl | rfl <;> rcases hs' with rfl | rfl
    · exact absurd rfl hne
    · rfl
    · rfl
    · exact absurd rfl hne
  · rw [List.getElem?_eq_none (by simpa using Nat.succ_le_of_lt hn)] at hb
    exact absurd hb (by simp)

theorem Chunk.HasZeroSignAt.cons {name : String} {code : List Instruction} {n : Nat}
    (h : HasZeroSignAt ⟨name, code⟩ n) (i : Instruction) :
    HasZeroSignAt ⟨name, i :: code⟩ (i.encode.length + n) := by
  obtain ⟨front, back, x, hcode, hx, rfl⟩ := h
  refine ⟨i :: front, back, x, congrArg (i :: ·) hcode, hx, ?_⟩
  rw [List.flatMap_cons, List.length_append, Nat.add_assoc]

theorem Chunk.EncodesAlike.cons {name : String} {code code' : List Instruction} {i j : Instruction}
    (hij : i.ieeeEq j) (h : EncodesAlike ⟨name, code⟩ ⟨name, code'⟩) :
    EncodesAlike ⟨name, i :: code⟩ ⟨name, j :: code'⟩ := by
  have hlength : i.encode.length = j.encode.length := by
    rcases Instruction.encode_eq_or_of_ieeeEq hij with heq | ⟨x, y, rfl, rfl, -, -⟩
    · rw [heq]
    · rw [Instruction.encode_constant, Instruction.encode_constant, List.length_cons,
        List.length_cons, x.length_bytes, y.length_bytes]
  have hencode (i : Instruction) (code : List Instruction) :
      Chunk.encode ⟨name, i :: code⟩ = i.encode ++ Chunk.encode ⟨name, code⟩ := rfl
  constructor
  · rw [hencode, hencode, List.length_append, List.length_append, hlength, h.length]
  · intro n b b' hb hb' hne
    rw [hencode] at hb hb'
    rcases Nat.lt_or_ge n i.encode.length with hn | hn
    · -- the byte is one of the first instruction
      rw [List.getElem?_append_left hn] at hb
      rw [List.getElem?_append_left (hlength ▸ hn)] at hb'
      rcases Instruction.encode_eq_or_of_ieeeEq hij with heq | ⟨x, y, rfl, rfl, hx, hy⟩
      · rw [heq] at hb
        exact absurd (Option.some.inj (hb.symm.trans hb')) hne
      · obtain ⟨rfl, hxor⟩ := Instruction.differ_of_isZero hx hy hb hb' hne
        exact ⟨hxor, ⟨[], code, x, rfl, hx, rfl⟩, [], code', y, rfl, hy, rfl⟩
    · obtain ⟨k, rfl⟩ := Nat.exists_eq_add_of_le hn
      rw [List.getElem?_append_right hn, Nat.add_sub_cancel_left] at hb
      rw [hlength, List.getElem?_append_right (Nat.le_add_right _ _),
        Nat.add_sub_cancel_left] at hb'
      obtain ⟨hxor, hcode, hcode'⟩ := h.differ k b b' hb hb' hne
      have hcode' := hcode'.cons j
      rw [← hlength] at hcode'
      exact ⟨hxor, hcode.cons i, hcode'⟩

/-- Equal chunks are written the same but for the signs of zeros. -/
theorem Chunk.encodesAlike_of_ieeeEq {c d : Chunk} (h : c.ieeeEq d) : c.EncodesAlike d := by
  obtain ⟨name, code⟩ := c
  obtain ⟨name', code'⟩ := d
  obtain ⟨rfl, hcode⟩ := Chunk.ieeeEq_iff.mp h
  dsimp only at hcode
  induction hcode with
  | nil => exact ⟨rfl, fun n b b' hb ↦ absurd hb (by simp [Chunk.encode])⟩
  | cons hij hcode ih => exact .cons hij (ih (Chunk.ieeeEq_iff.mpr ⟨rfl, hcode⟩))

/-- **Lowering respects the equality of trees.** It is symmetric and transitive, and holds of a tree
and itself if and only if there is no NaN in it. Equal trees have no module for the same reason, or
have equal modules, with the same bytes but for the signs of zeros. -/
theorem Tree.ieeeEq_respected :
    (∀ a b : Tree, a.ieeeEq b → b.ieeeEq a) ∧
    (∀ a b c : Tree, a.ieeeEq b → b.ieeeEq c → a.ieeeEq c) ∧
    (∀ a : Tree, a.ieeeEq a ↔ ∀ x ∈ a.numbers, ¬ x.isNaN) ∧
    ∀ a b : Tree, a.ieeeEq b →
      (∃ f, a.lower = .error f ∧ b.lower = .error f) ∨
      ∃ m n, a.lower = .ok m ∧ b.lower = .ok n ∧ m.ieeeEq n ∧
        List.Forall₂ Chunk.EncodesAlike m.chunks n.chunks := by
  refine ⟨?_, ?_, ?_, ?_⟩
  · intro a b h
    obtain ⟨hsame, ha, hb⟩ := (a.ieeeEq_iff b).mp h
    exact (b.ieeeEq_iff a).mpr ⟨hsame.symm, hb, ha⟩
  · intro a b c hab hbc
    obtain ⟨hsame, ha, -⟩ := (a.ieeeEq_iff b).mp hab
    obtain ⟨hsame', -, hc⟩ := (b.ieeeEq_iff c).mp hbc
    exact (a.ieeeEq_iff c).mpr ⟨hsame.trans hsame', ha, hc⟩
  · intro a
    rw [a.ieeeEq_iff a, and_iff_right rfl, and_self]
    rfl
  · intro a b h
    rcases Tree.lower_ieeeEq h with hfault | ⟨m, n, hm, hn, heq⟩
    · exact .inl hfault
    · refine .inr ⟨m, n, hm, hn, heq, ?_⟩
      exact (Module.ieeeEq_iff.mp heq).2.imp fun c d hcd ↦ Chunk.encodesAlike_of_ieeeEq hcd

/-- The two zeros: the trees are equal, the modules are equal and not the same, and byte 8 is all
that differs in what is written. -/
theorem Tree.ieeeEq_respected_zeros : ∃ m n : Module,
    (Tree.root [.function "f" [] [.ret (.ofOperand (.value .zero))]]).lower = .ok m ∧
    (Tree.root [.function "f" [] [.ret (.ofOperand (.value (.negate .zero)))]]).lower = .ok n ∧
    Tree.ieeeEq (.root [.function "f" [] [.ret (.ofOperand (.value (.negate .zero)))]])
      (.root [.function "f" [] [.ret (.ofOperand (.value .zero))]]) ∧
    Tree.ieeeEq (.root [.function "f" [] [.ret (.ofOperand (.value .zero))]])
      (.root [.function "f" [] [.ret (.ofOperand (.value .zero))]]) ∧
    m.ieeeEq n ∧ m ≠ n ∧ List.Forall₂ Chunk.EncodesAlike m.chunks n.chunks := by
  have hzeros : Tree.ieeeEq (.root [.function "f" [] [.ret (.ofOperand (.value .zero))]])
      (.root [.function "f" [] [.ret (.ofOperand (.value (.negate .zero)))]]) := by decide
  obtain ⟨hsymm, htrans, -, hlower⟩ := Tree.ieeeEq_respected
  rcases hlower _ _ hzeros with ⟨f, hf, -⟩ | ⟨m, n, hm, hn, heq, hbytes⟩
  · exact nomatch hf
  · have hback := hsymm _ _ hzeros
    refine ⟨m, n, hm, hn, hback, htrans _ _ _ hzeros hback, heq, ?_, hbytes⟩
    rintro rfl
    exact absurd (hm.trans hn.symm) (by decide)

end InfixCompiler
