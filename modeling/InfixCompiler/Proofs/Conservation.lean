import InfixCompiler.Proofs.Compilation
import InfixCompiler.Proofs.StackMachine.Correctness

/-!
# What of a text is in its code

Of all that stands between the braces of a function the code keeps the numbers, in their order, and
an instruction for each operator and each `return`. It has nothing else
(`Source.compile_conserves`).

What a text has is said of its lexemes as they come, without the grammar: `declared` looks for the
word `func` and for braces and knows nothing of what is allowed between them. The grammar enters
with the proof, in which lexemes and code are taken apart together. `Carries` relates the two in a
way that is kept when parts are put one after the other, and when an instruction that is no constant
is moved behind others, as operators are behind their right operands (`Carries.postpone`).
-/

namespace InfixCompiler

open Grammar

/-! ## Functions in a list of lexemes -/

/-- The lexemes between the first left brace and the next right brace. -/
def braced (ls : List Lexeme) : List Lexeme :=
  (ls.dropWhile (·.kind ≠ .symbol .leftBrace)).tail.takeWhile (·.kind ≠ .symbol .rightBrace)

/-- For each word `func` the lexeme after it, and the lexemes between the braces after it. -/
def declared : List Lexeme → List (Option Lexeme × List Lexeme)
  | [] => []
  | l :: ls =>
    if l.kind = .keyword .func then (ls.head?, braced ls) :: declared ls else declared ls

theorem mem_of_mem_declared {ls : List Lexeme} : ∀ part ∈ declared ls, part.2 ⊆ ls := by
  induction ls with
  | nil => exact List.forall_mem_nil _
  | cons l ls ih =>
    have hrest : ∀ part ∈ declared ls, part.2 ⊆ l :: ls := fun part hpart ↦
      List.subset_cons_of_subset l (ih part hpart)
    rw [declared]
    split
    · refine List.forall_mem_cons.mpr ⟨?_, hrest⟩
      have hbraced : braced ls ⊆ ls := ((List.takeWhile_sublist _).trans
        ((List.tail_sublist _).trans (List.dropWhile_sublist _))).subset
      exact List.subset_cons_of_subset l hbraced
    · exact hrest

theorem name_mem_of_mem_declared {ls : List Lexeme} :
    ∀ part ∈ declared ls, ∀ name, part.1 = some name → name ∈ ls := by
  induction ls with
  | nil => exact List.forall_mem_nil _
  | cons l ls ih =>
    have hrest : ∀ part ∈ declared ls, ∀ name, part.1 = some name → name ∈ l :: ls :=
      fun part hpart name hname ↦ List.mem_cons_of_mem l (ih part hpart name hname)
    rw [declared]
    split
    · refine List.forall_mem_cons.mpr ⟨fun name hname ↦ ?_, hrest⟩
      exact List.mem_cons_of_mem l (List.mem_of_mem_head? hname)
    · exact hrest

theorem declared_append {ls : List Lexeme} (h : ∀ l ∈ ls, l.kind ≠ .keyword .func)
    (rest : List Lexeme) : declared (ls ++ rest) = declared rest := by
  induction ls with
  | nil => rfl
  | cons l ls ih =>
    rw [List.forall_mem_cons] at h
    rw [List.cons_append, declared, if_neg h.1, ih h.2]

theorem braced_append {ls ms : List Lexeme} {opening closing : Lexeme}
    (hls : ∀ l ∈ ls, l.kind ≠ .symbol .leftBrace) (hopening : opening.kind = .symbol .leftBrace)
    (hms : ∀ l ∈ ms, l.kind ≠ .symbol .rightBrace) (hclosing : closing.kind = .symbol .rightBrace)
    (rest : List Lexeme) : braced (ls ++ opening :: (ms ++ closing :: rest)) = ms := by
  rw [braced, List.dropWhile_append_of_pos (by simpa using hls),
    List.dropWhile_cons_of_neg (by simp [hopening]), List.tail_cons,
    List.takeWhile_append_of_pos (by simpa using hms),
    List.takeWhile_cons_of_neg (by simp [hclosing]), List.append_nil]

/-! ## Lexemes and code -/

/-- The kinds of lexemes that have an instruction of their own, with its opcode. -/
def counterparts : List (Kind × Opcode) :=
  [(.symbol .plus, .add), (.symbol .minus, .sub), (.symbol .star, .mul), (.symbol .slash, .div),
    (.keyword .return, .ret)]

theorem ne_of_mem_counterparts : ∀ p ∈ counterparts, p.1 ≠ .number ∧ p.2 ≠ .storeConst := by
  decide

/-- The numbers of the lexemes are the constants of the code, and what else is in the code is there
as often as its counterpart among the lexemes. -/
structure Carries (ls : List Lexeme) (code : List Instruction) : Prop where
  /-- The same numbers are in both, in the same order. -/
  constants : ∃ xs : List Binary64,
    (ls.filter (·.kind = .number)).map (fun l ↦ Binary64.read? l.text.toList) = xs.map some ∧
      code.filter (·.opcode = .storeConst) = xs.map .constant
  /-- There are as many instructions of an opcode as lexemes of its kind. -/
  counts : ∀ p ∈ counterparts, code.count (.plain p.2) = ls.countP (·.kind = p.1)
  /-- There are no other instructions. -/
  only : ∀ i ∈ code, (∃ x, i = .constant x) ∨ ∃ p ∈ counterparts, i = .plain p.2

namespace Carries

variable {ls ms : List Lexeme} {code code' : List Instruction} {l : Lexeme}

theorem nil : Carries [] [] := ⟨⟨[], rfl, rfl⟩, fun _ _ ↦ rfl, by simp⟩

theorem append (h : Carries ls code) (h' : Carries ms code') :
    Carries (ls ++ ms) (code ++ code') := by
  obtain ⟨xs, hnumbers, hconstants⟩ := h.constants
  obtain ⟨ys, hnumbers', hconstants'⟩ := h'.constants
  refine ⟨⟨xs ++ ys, ?_, ?_⟩, fun p hp ↦ ?_, List.forall_mem_append.mpr ⟨h.only, h'.only⟩⟩
  · rw [List.filter_append, List.map_append, hnumbers, hnumbers', List.map_append]
  · rw [List.filter_append, hconstants, hconstants', List.map_append]
  · rw [List.count_append, h.counts p hp, h'.counts p hp, List.countP_append]

theorem flatten {lss : List (List Lexeme)} {codes : List (List Instruction)}
    (h : List.Forall₂ Carries lss codes) : Carries lss.flatten codes.flatten := by
  induction h with
  | nil => exact nil
  | cons h _ ih => exact h.append ih

/-- What is no constant may come later. -/
theorem postpone {front back : List Instruction} {i : Instruction} (hi : i.opcode ≠ .storeConst)
    (h : Carries ls (front ++ i :: back)) : Carries ls (front ++ (back ++ [i])) := by
  have hperm : (front ++ (back ++ [i])).Perm (front ++ i :: back) :=
    List.Perm.append_left front (List.perm_append_singleton i back)
  obtain ⟨xs, hnumbers, hconstants⟩ := h.constants
  refine ⟨⟨xs, hnumbers, ?_⟩, fun p hp ↦ ?_, fun j hj ↦ h.only j (hperm.mem_iff.mp hj)⟩
  · rw [← hconstants]
    simp [List.filter_append, hi]
  · rw [hperm.count_eq, h.counts p hp]

theorem number (hl : l.kind = .number) {x : Binary64} (hx : Binary64.read? l.text.toList = some x) :
    Carries [l] [.constant x] := by
  refine ⟨⟨[x], by simp [hl, hx], by simp [Instruction.constant]⟩, fun p hp ↦ ?_,
    List.forall_mem_singleton.mpr (.inl ⟨x, rfl⟩)⟩
  have hne := (ne_of_mem_counterparts p hp).1
  simp [hl, hne.symm, Instruction.constant, Instruction.plain]

theorem counterpart {opcode : Opcode} (h : (l.kind, opcode) ∈ counterparts) :
    Carries [l] [.plain opcode] := by
  have hinjective : ∀ q ∈ counterparts, ∀ p ∈ counterparts, q.2 = p.2 ↔ q.1 = p.1 := by decide
  obtain ⟨hnumber, hconstant⟩ := ne_of_mem_counterparts _ h
  refine ⟨⟨[], by simpa using hnumber, by simpa [Instruction.plain] using hconstant⟩,
    fun p hp ↦ ?_, List.forall_mem_singleton.mpr (.inr ⟨_, h, rfl⟩)⟩
  have := hinjective _ h p hp
  simp [List.count_singleton, List.countP_singleton, Instruction.plain, this]

/-- Parentheses and semicolons leave nothing in the code. -/
theorem omitted (hl : l.kind ≠ .number) (h : ∀ p ∈ counterparts, l.kind ≠ p.1) :
    Carries [l] [] :=
  ⟨⟨[], by simpa using hl, rfl⟩, fun p hp ↦ by simp [h p hp], by simp⟩

end Carries

/-! ## Expressions -/

theorem ofOperator_mem_counterparts {operator : Kind} (h : operator.IsArithmetic) :
    (operator, .ofOperator operator) ∈ counterparts := by
  rcases Kind.isArithmetic_iff.mp h with rfl | rfl | rfl | rfl <;> decide

/-- The number of numbers among lexemes. -/
def numbers (ls : List Lexeme) : Nat := ls.countP (·.kind = .number)

@[simp] theorem numbers_nil : numbers [] = 0 := rfl

theorem numbers_append (ls ms : List Lexeme) : numbers (ls ++ ms) = numbers ls + numbers ms :=
  List.countP_append

theorem numbers_cons_of_ne {l : Lexeme} (hl : l.kind ≠ .number) (ls : List Lexeme) :
    numbers (l :: ls) = numbers ls := by
  simp [numbers, hl]

namespace Grammar.Phrase

theorem lower_result (d : Phrase) : d.result.lower = d.operand.lowerOperand := by
  rw [← d.result_expression, Expression.lower_result, d.tree_expression]

/-- The code of a phrase carries its lexemes, and has one instruction less than two for each
number. -/
theorem carries (d : Phrase) (hread : ∀ l ∈ d.lexemes, Readable l)
    (h : d.operand.lowerOperand.fault? = none) :
    Carries d.lexemes d.operand.lowerOperand.code ∧
      d.operand.lowerOperand.code.length + 1 = 2 * numbers d.lexemes := by
  induction d with
  | number literal =>
    obtain ⟨x, hx⟩ := Option.isSome_iff_exists.mp (hread literal.1 (by simp [lexemes]) literal.2)
    have hvalue : numberValue literal.1 = x := by rw [numberValue, hx]; rfl
    refine ⟨?_, by simp [operand, Tree.lowerOperand, Emission.emit, lexemes, numbers, literal.2]⟩
    rw [operand, hvalue]
    exact .number literal.2 hx
  | group opening inner closing ih =>
    obtain ⟨hcarries, hlength⟩ := ih (fun l hl ↦ hread l (by simp [lexemes, hl])) h
    have hopening : Carries [opening.1] [] :=
      .omitted (by simp [opening.2]) (by rw [opening.2]; decide)
    have hclosing : Carries [closing.1] [] :=
      .omitted (by simp [closing.2]) (by rw [closing.2]; decide)
    have := hopening.append (hcarries.append hclosing)
    rw [List.nil_append, List.append_nil] at this
    refine ⟨this, ?_⟩
    rw [lexemes, numbers_cons_of_ne (by simp [opening.2]), numbers_append,
      numbers_cons_of_ne (by simp [closing.2]), numbers_nil, Nat.add_zero]
    exact hlength
  | binary left operator right ihl ihr =>
    rw [operand, Tree.lowerOperand, Operation.binary] at h
    obtain ⟨hl, hr, ho, hcode⟩ := Operation.lowered_binary h
    obtain ⟨hleft, hleft'⟩ := ihl (fun l hl ↦ hread l (by simp [lexemes, hl])) hl
    obtain ⟨hright, hright'⟩ := ihr (fun l hl ↦ hread l (by simp [lexemes, hl])) hr
    have hmem := ofOperator_mem_counterparts ho
    obtain ⟨hnumber, hconstant⟩ := ne_of_mem_counterparts _ hmem
    rw [operand, Tree.lowerOperand, Operation.binary, hcode, lexemes, List.append_assoc]
    constructor
    · -- in the text the operator is before its right operand
      exact (hleft.append ((Carries.counterpart hmem).append hright)).postpone hconstant
    · rw [numbers_append, numbers_cons_of_ne hnumber]
      simp only [List.length_append, List.length_singleton]
      omega

end Grammar.Phrase

/-! ## Statements -/

/-- The code of a statement, from the one `return` to the one `ret`. -/
structure IsReturn (statement : List Lexeme) (segment : List Instruction) : Prop where
  /-- The statement begins with its only `return`. -/
  begins : ∃ first rest, statement = first :: rest ∧ first.kind = .keyword .return ∧
    ∀ l ∈ rest, l.kind ≠ .keyword .return
  /-- The code ends with its only `ret`. -/
  ends : ∃ code, segment = code ++ [.plain .ret] ∧ ∀ i ∈ code, i.opcode ≠ .ret
  /-- The code is that of the statement. -/
  carries : Carries statement segment
  /-- There are two instructions for each number. -/
  length : segment.length = 2 * numbers statement

theorem length_flatten_of_isReturn {statements : List (List Lexeme)}
    {segments : List (List Instruction)} (h : List.Forall₂ IsReturn statements segments) :
    segments.flatten.length = 2 * numbers statements.flatten := by
  induction h with
  | nil => rfl
  | cons h _ ih =>
    rw [List.flatten_cons, List.flatten_cons, List.length_append, numbers_append, h.length, ih]
    omega

namespace Grammar

/-- The kinds of the lexemes of a phrase. -/
theorem Phrase.kind_of_mem {n : Nat} {d : Phrase} (hd : d.AtLevel n) : ∀ l ∈ d.lexemes,
    l.kind = .number ∨ l.kind = .symbol .leftParen ∨ l.kind = .symbol .rightParen ∨
      ∃ m, IsOperator m l.kind := by
  induction hd with
  | number literal => exact List.forall_mem_singleton.mpr (.inl literal.2)
  | group opening closing _ ih =>
    refine List.forall_mem_cons.mpr ⟨.inr (.inl opening.2), List.forall_mem_append.mpr ⟨ih, ?_⟩⟩
    exact List.forall_mem_singleton.mpr (.inr (.inr (.inl closing.2)))
  | binary ho _ _ ihl ihr =>
    exact List.forall_mem_append.mpr ⟨ihl,
      List.forall_mem_cons.mpr ⟨.inr (.inr (.inr ⟨_, ho⟩)), ihr⟩⟩
  | looser _ ih => exact ih

/-- No keyword and no brace is in a phrase. -/
theorem Phrase.ne_of_mem {n : Nat} {d : Phrase} (hd : d.AtLevel n) {l : Lexeme}
    (hl : l ∈ d.lexemes) : (∀ k, l.kind ≠ .keyword k) ∧ l.kind ≠ .symbol .rightBrace := by
  rcases kind_of_mem hd l hl with h | h | h | ⟨m, ho⟩
  · simp [h]
  · simp [h]
  · simp [h]
  · obtain ⟨s, -, hs⟩ := id ho
    refine ⟨by simp [hs], fun h ↦ ?_⟩
    have := (isOperator_iff.mp ho).2
    simp [h, Precedence.betweenOperands, Precedence.level] at this

theorem Statement.ne_of_mem (r : Statement) {l : Lexeme} (hl : l ∈ r.lexemes) :
    l.kind ≠ .keyword .func ∧ l.kind ≠ .symbol .rightBrace := by
  rw [lexemes, List.mem_cons, List.mem_append, List.mem_singleton] at hl
  rcases hl with rfl | hl | rfl
  · simp [r.keyword.2]
  · exact ⟨(Phrase.ne_of_mem r.atLevel hl).1 _, (Phrase.ne_of_mem r.atLevel hl).2⟩
  · simp [r.semicolon.2]

theorem Statement.isReturn (r : Statement) (hread : ∀ l ∈ r.lexemes, Readable l)
    (h : r.tree.lowerStatement.fault? = none) : IsReturn r.lexemes r.tree.lowerStatement.code := by
  rw [tree, Tree.lowerStatement, Emission.fault?_andThen_eq_none, Phrase.lower_result] at h
  obtain ⟨hcarries, hlength⟩ := r.result.carries (fun l hl ↦ hread l (by simp [lexemes, hl])) h.1
  have hret := r.result.result.ne_ret_of_mem_lower
  rw [tree, Tree.lowerStatement, Phrase.lower_result, Emission.code_andThen h.1]
  rw [Phrase.lower_result] at hret
  have hkeyword : Carries [r.keyword.1] [.plain .ret] :=
    .counterpart (by rw [r.keyword.2]; decide)
  have hsemicolon : Carries [r.semicolon.1] [] :=
    .omitted (by simp [r.semicolon.2]) (by rw [r.semicolon.2]; decide)
  have hall : Carries r.lexemes ([] ++ .plain .ret :: (r.result.operand.lowerOperand.code ++ [])) :=
    hkeyword.append (hcarries.append hsemicolon)
  rw [List.append_nil] at hall
  -- the instruction of the keyword comes last
  have hmoved := hall.postpone (by simp [Instruction.plain])
  refine ⟨⟨_, _, rfl, r.keyword.2, ?_⟩, ⟨_, rfl, hret⟩, hmoved, ?_⟩
  · intro l hl
    rcases List.mem_append.mp hl with hl | hl
    · exact (Phrase.ne_of_mem r.atLevel hl).1 _
    · obtain rfl := List.mem_singleton.mp hl
      simp [r.semicolon.2]
  · rw [lexemes, numbers_cons_of_ne (by simp [r.keyword.2]), numbers_append,
      numbers_cons_of_ne (by simp [r.semicolon.2]), numbers_nil, List.length_append, Nat.add_zero]
    exact hlength

/-- The code of statements is one part for each of them. -/
theorem exists_isReturn {body : List Statement}
    (hread : ∀ l ∈ body.flatMap Statement.lexemes, Readable l)
    (h : (lowerBody (body.map Statement.tree)).fault? = none) :
    ∃ segments, (lowerBody (body.map Statement.tree)).code = segments.flatten ∧
      List.Forall₂ IsReturn (body.map Statement.lexemes) segments := by
  induction body with
  | nil => exact ⟨[], rfl, .nil⟩
  | cons r body ih =>
    rw [List.map_cons, lowerBody_cons, Emission.fault?_andThen_eq_none] at h
    rw [List.flatMap_cons, List.forall_mem_append] at hread
    obtain ⟨segments, hcode, hsegments⟩ := ih hread.2 h.2
    refine ⟨_ :: segments, ?_, .cons (r.isReturn hread.1 h.1) hsegments⟩
    rw [List.map_cons, lowerBody_cons, Emission.code_andThen h.1, hcode, List.flatten_cons]

end Grammar

/-! ## Functions -/

/-- The code has what is between the braces of its function. -/
structure Conserves (body : List Lexeme) (code : List Instruction) : Prop where
  /-- Nothing is lost, doubled or out of order. -/
  carries : Carries body code
  /-- There are two instructions for each number. -/
  length : code.length = 2 * numbers body
  /-- There is one part of the code for each `return`, up to its `ret`. The first `j` parts have
  what the first `j` statements have. -/
  statements : ∃ (statements : List (List Lexeme)) (segments : List (List Instruction)),
    body = statements.flatten ∧ code = segments.flatten ∧
      List.Forall₂ IsReturn statements segments ∧
      ∀ j, Carries (statements.take j).flatten (segments.take j).flatten

theorem conserves_of_isReturn {statements : List (List Lexeme)}
    {segments : List (List Instruction)} (h : List.Forall₂ IsReturn statements segments) :
    Conserves statements.flatten segments.flatten := by
  have hcarries : List.Forall₂ Carries statements segments := h.imp fun _ _ h ↦ h.carries
  exact ⟨.flatten hcarries, length_flatten_of_isReturn h, _, _, rfl, rfl, h,
    fun j ↦ .flatten (List.forall₂_take j hcarries)⟩

namespace Grammar

theorem Parameters.kind_of_mem (ps : Parameters) :
    ∀ l ∈ ps.lexemes, l.kind = .identifier ∨ l.kind = .symbol .comma := by
  intro l hl
  simp only [lexemes, List.mem_cons, List.mem_append, List.mem_flatMap, List.not_mem_nil, or_false,
    Option.mem_toList, Option.map_eq_some_iff] at hl
  rcases hl with rfl | ⟨p, -, rfl | rfl⟩ | ⟨comma, -, rfl⟩
  · exact .inl ps.first.2
  · exact .inr p.1.2
  · exact .inl p.2.2
  · exact .inr comma.2

namespace Declaration

/-- Between the word `func` and the body there is no such word, and no brace. -/
theorem ne_of_mem_header (d : Declaration) : ∀ l ∈ d.header.tail,
    l.kind ≠ .keyword .func ∧ l.kind ≠ .symbol .leftBrace := by
  have hparams : ∀ l ∈ parameterLexemes d.params?,
      l.kind ≠ .keyword .func ∧ l.kind ≠ .symbol .leftBrace := by
    intro l hl
    cases hps : d.params? with
    | none => simp [hps, parameterLexemes] at hl
    | some ps =>
      rw [hps] at hl
      rcases ps.kind_of_mem l hl with h | h <;> simp [h]
  simp only [header, List.tail_cons, List.forall_mem_cons, List.forall_mem_append]
  exact ⟨by simp [d.name.2], by simp [d.opening.2], hparams, by simp [d.closing.2], by simp⟩

theorem declared_lexemes (d : Declaration) (rest : List Lexeme) :
    declared (d.lexemes ++ rest)
      = (some d.name.1, d.body.flatMap Statement.lexemes) :: declared rest := by
  have hbody : ∀ l ∈ d.body.flatMap Statement.lexemes,
      l.kind ≠ .keyword .func ∧ l.kind ≠ .symbol .rightBrace := by
    intro l hl
    obtain ⟨r, -, hl⟩ := List.mem_flatMap.mp hl
    exact r.ne_of_mem hl
  have hlexemes : d.lexemes ++ rest = d.keyword.1 :: (d.header.tail ++
      d.leftBrace.1 :: (d.body.flatMap Statement.lexemes ++ d.rightBrace.1 :: rest)) := by
    simp [lexemes, header]
  have hbraced := braced_append (fun l hl ↦ (d.ne_of_mem_header l hl).2) d.leftBrace.2
    (fun l hl ↦ (hbody l hl).2) d.rightBrace.2 rest
  rw [hlexemes, declared, if_pos d.keyword.2, hbraced,
    declared_append fun l hl ↦ (d.ne_of_mem_header l hl).1, declared,
    if_neg (by simp [d.leftBrace.2]), declared_append fun l hl ↦ (hbody l hl).1, declared,
    if_neg (by simp [d.rightBrace.2])]
  rfl

end Declaration

theorem Derivation.declared_lexemes (d : Derivation) : declared d.lexemes
    = d.declarations.map fun f ↦ (some f.name.1, f.body.flatMap Statement.lexemes) := by
  rw [lexemes]
  induction d.declarations with
  | nil => simp [declared, d.last.2]
  | cons f fs ih =>
    rw [List.flatMap_cons, List.append_assoc, f.declared_lexemes, ih, List.map_cons]

end Grammar

/-- The chunk is that of a function, of which the lexeme after `func` and those between the braces
are given. -/
structure IsChunkOf (part : Option Lexeme × List Lexeme) (chunk : Chunk) : Prop where
  /-- The chunk has the name of the function. -/
  named : ∃ name, part.1 = some name ∧ name.kind = .identifier ∧ chunk.name = name.text
  /-- The code is that of the body. -/
  conserves : Conserves part.2 chunk.code

/-- The chunks of functions, if all of them have one. -/
theorem forall₂_isChunkOf {ds : List Declaration}
    (hread : ∀ l ∈ ds.flatMap Declaration.lexemes, Readable l)
    (h : (assemble (ds.map Declaration.tree)).fault? = none) :
    List.Forall₂ (fun d c ↦ IsChunkOf (some d.name.1, d.body.flatMap Statement.lexemes) c) ds
      (assemble (ds.map Declaration.tree)).chunks := by
  induction ds with
  | nil => exact .nil
  | cons d ds ih =>
    rw [List.flatMap_cons, List.forall_mem_append] at hread
    rw [List.map_cons, Declaration.tree, assemble] at h ⊢
    dsimp only at h ⊢
    split at h
    swap
    · exact absurd h (by simp)
    next hfault =>
    refine .cons ⟨⟨_, rfl, d.name.2, rfl⟩, ?_⟩ (ih hread.2 h)
    have hbody : ∀ l ∈ d.body.flatMap Statement.lexemes, Readable l := fun l hl ↦
      hread.1 l (List.mem_append_right _ (List.mem_cons_of_mem _ (List.mem_append_left _ hl)))
    obtain ⟨segments, hcode, hsegments⟩ := exists_isReturn hbody hfault
    dsimp only
    rw [hcode, List.flatMap_def]
    exact conserves_of_isReturn hsegments

/-- The tree of a derivation has the chunks of its functions. -/
theorem Grammar.Derivation.lower_tree (d : Derivation) (hread : ∀ l ∈ d.lexemes, Readable l)
    {m : Module} (h : d.tree.lower = .ok m) :
    List.Forall₂ IsChunkOf (declared d.lexemes) m.chunks := by
  rw [tree, Tree.lower] at h
  split at h
  swap
  · exact absurd h (by simp)
  next hfault =>
  obtain rfl := Except.ok.inj h
  rw [d.declared_lexemes, List.forall₂_map_left_iff]
  exact forall₂_isChunkOf (fun l hl ↦ hread l (List.mem_append_left _ hl)) hfault

/-- **Nothing is lost between text and code.** A module has one chunk for each word `func` of the
text, in order, which has what is between the braces of that function. -/
theorem Source.compile_conserves {s : Source} {m : Module} (h : s.compile = .ok m) :
    ∃ tokens, s.tokens = .ok tokens ∧
      List.Forall₂ IsChunkOf (declared (s.lexemes tokens)) m.chunks := by
  obtain ⟨ls, d, hls, hlexeme, hd, hm⟩ := Source.exists_derivation_of_compile h
  refine ⟨_, Source.tokens_of_lexes hls, ?_⟩
  rw [Source.lexemes_of_lexes hls, ← hd]
  refine d.lower_tree ?_ hm
  rw [hd, List.forall_mem_append]
  refine ⟨fun l hl ↦ (hlexeme l hl).readable, ?_⟩
  exact List.forall_mem_singleton.mpr nofun

/-- Here the parentheses are all that the code has not. -/
theorem Source.compile_conserves_difference : ∃ tokens,
    (ofString "func f() \x7b return (7 - 5); \x7d").tokens = .ok tokens ∧
      List.Forall₂ IsChunkOf
        (declared ((ofString "func f() \x7b return (7 - 5); \x7d").lexemes tokens))
        [⟨"f", [.constant ⟨0x401C000000000000⟩, .constant ⟨0x4014000000000000⟩, .plain .sub,
          .plain .ret]⟩] := by
  have hcompile : (ofString "func f() \x7b return (7 - 5); \x7d").compile
      = .ok ⟨"main", [⟨"f", [.constant ⟨0x401C000000000000⟩, .constant ⟨0x4014000000000000⟩,
        .plain .sub, .plain .ret]⟩]⟩ := by
    decide +kernel
  exact Source.compile_conserves hcompile

end InfixCompiler
