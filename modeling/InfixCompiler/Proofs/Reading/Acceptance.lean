import InfixCompiler.Proofs.Reading.Outcome

/-!
# What the grammar allows is read

Readers read the lexemes of a derivation if its numbers can be read and its nesting and its height
are within the bounds. For expressions this is an induction on the rules of the grammar, for all
levels that may be asked for at once: an operand and the climb behind it go over a phrase as if the
phrase had been the operand.

The induction is no harder with the phrases that are not within the bounds, so they are in it:
reading goes over a phrase unless it has a fault (`runsTo_operand_climb`), and the fault,
`Phrase.fault?`, depends neither on the level that is asked for nor on what is behind the phrase.
-/

namespace InfixCompiler

/-- The level of the grammar that an expression for a least level is of. Above the operators there
are only operands. -/
def Grammar.levelOf (least : Precedence) : Nat := min (least.level - 1) levels.length

/-! ## What a phrase fails for -/

namespace Grammar.Phrase

/-- The first lexeme of a phrase. -/
def first : Phrase → Lexeme
  | number literal => literal.1
  | group opening _ _ => opening.1
  | binary left _ _ => left.first

/-- The fault of reading a phrase when `room` expressions may be open at once. A phrase that must
not be opened fails at its first lexeme, one that is too high at its operator. -/
def fault? (limit : Nat) : Phrase → (room : Nat) → Option ParseFault
  | d, 0 => some (.tooDeep limit d.first.token)
  | number literal, _ + 1 =>
    if (Binary64.read? literal.1.text.toList).isSome then none
    else some (.badNumber literal.1.token)
  | group _ inner _, room + 1 => inner.fault? limit room
  | binary left operator right, room + 1 =>
    ((left.fault? limit (room + 1)).or (right.fault? limit room)).or
      (if max left.height right.height + 1 ≤ limit then none
        else some (.tooDeep limit operator.token))

variable {limit room : Nat}

theorem exists_lexemes_eq_cons (d : Phrase) : ∃ ls, d.lexemes = d.first :: ls := by
  induction d with
  | number literal => exact ⟨_, rfl⟩
  | group opening inner closing => exact ⟨_, rfl⟩
  | binary left operator right ihl _ =>
    obtain ⟨ls, hls⟩ := ihl
    exact ⟨_, by rw [lexemes, hls, List.cons_append, first]⟩

/-- A phrase within the bounds whose numbers can be read does not fail. -/
theorem fault?_eq_none (d : Phrase) (hnesting : d.nesting ≤ room) (hheight : d.height ≤ limit)
    (hread : ∀ l ∈ d.lexemes, Readable l) : d.fault? limit room = none := by
  induction d generalizing room with
  | number literal =>
    obtain ⟨room, rfl⟩ : ∃ m, room = m + 1 := ⟨room - 1, by rw [nesting] at hnesting; omega⟩
    rw [fault?, if_pos (hread literal.1 (List.mem_singleton_self _) literal.2)]
  | group opening inner closing ih =>
    rw [nesting] at hnesting
    obtain ⟨room, rfl⟩ : ∃ m, room = m + 1 := ⟨room - 1, by omega⟩
    rw [fault?]
    exact ih (by omega) hheight fun l hl ↦ hread l (by simp [lexemes, hl])
  | binary left operator right ihl ihr =>
    rw [nesting] at hnesting
    rw [height] at hheight
    obtain ⟨room, rfl⟩ : ∃ m, room = m + 1 := ⟨room - 1, by omega⟩
    rw [fault?, ihl (by omega) (by omega) fun l hl ↦ hread l (by simp [lexemes, hl]),
      ihr (by omega) (by omega) fun l hl ↦ hread l (by simp [lexemes, hl]), if_pos (by omega)]
    rfl

end Grammar.Phrase

namespace Parser

open Grammar

variable {α β : Type} {limit room : Nat}

/-! ## Single lexemes -/

theorem run_expect_cons {k : Kind} (t : Terminal k) (context : String) (c : Cursor)
    (rest : List Lexeme) :
    (expect k context).run (c.seek (t.1 :: rest)) = .ok t.1 (c.seek rest) := by
  rw [run_expect_of_eq (show (c.seek (t.1 :: rest)).kind = k from t.2)]
  rfl

theorem continuation_of_follows {least : Precedence} {k : Kind} (h : Follows (least.level - 1) k) :
    continuation least k = .stop := by
  rcases h with rfl | rfl | ⟨m, hm, ho⟩
  · rfl
  · rfl
  · have hlevel := (isOperator_iff.mp ho).2
    obtain ⟨s, -, rfl⟩ := ho
    rw [continuation]
    split
    · rfl
    rw [if_neg (by simp)]
    dsimp only
    rw [if_neg fun h ↦ by simp [h, Precedence.level] at hlevel, if_pos (by omega)]

theorem continuation_of_isOperator {least : Precedence} {n : Nat} {k : Kind} (h : IsOperator n k)
    (hl : least.level ≤ n + 1) :
    continuation least k = .operator (Precedence.betweenOperands k) := by
  obtain ⟨hn, hlevel⟩ := isOperator_iff.mp h
  have hcall : Precedence.betweenOperands k ≠ .call := fun h ↦ by
    simp only [h, Precedence.level, levels, List.length_cons, List.length_nil] at hn hlevel
    omega
  obtain ⟨s, -, rfl⟩ := h
  rw [continuation, if_neg fun h ↦ ?_, if_neg (by simp)]
  · dsimp only
    rw [if_neg fun h ↦ by simp [h, Precedence.level] at hlevel, if_neg (by omega), if_neg hcall]
  · rcases h with h | h <;> rw [h] at hlevel <;>
      simp [Precedence.betweenOperands, Precedence.level] at hlevel

/-! ## Expressions -/

theorem run_climb_of_stops {right : Precedence → Parser Expression} {least : Precedence}
    {rest : List Lexeme} (h : Stops (least.level - 1) rest) (e : Expression) (c : Cursor) :
    (climb limit right least e).run (c.seek rest) = .ok e (c.seek rest) := by
  rcases rest with _ | ⟨l, ls⟩
  · exact h.elim
  rw [climb, run_get_bind, Cursor.kind_seek_cons, continuation_of_follows h]
  rfl

/-! ### Steps that may fail -/

/-- The reader comes to `r`, unless there is a fault: then it fails with that. -/
def RunsTo (p : Parser α) (c : Cursor) (fault? : Option ParseFault)
    (r : EStateM.Result ParseFault Cursor α) : Prop :=
  match fault? with
  | none => p.run c = r
  | some f => ∃ c', p.run c = .error f c'

namespace RunsTo

variable {p p' : Parser α} {q : α → Parser β} {c c' : Cursor} {fault? fault'? : Option ParseFault}

theorem of_run_eq {r : EStateM.Result ParseFault Cursor α} (h : p.run c = p'.run c')
    (h' : p'.RunsTo c' fault? r) : p.RunsTo c fault? r := by
  cases fault? with
  | none => exact h.trans h'
  | some f =>
    obtain ⟨c₁, h₁⟩ := h'
    exact ⟨c₁, h.trans h₁⟩

theorem bind {a : α} {r : EStateM.Result ParseFault Cursor β} (h : p.RunsTo c fault? (.ok a c'))
    (h' : (q a).RunsTo c' fault'? r) : (p >>= q).RunsTo c (fault?.or fault'?) r := by
  cases fault? with
  | none => exact of_run_eq (run_bind_of_ok h) h'
  | some f =>
    obtain ⟨c₁, h₁⟩ := h
    exact ⟨c₁, run_bind_of_error h₁ q⟩

/-- A reader that comes to where another one goes on fails where either fails. -/
theorem trans {r : EStateM.Result ParseFault Cursor α} (h : p.RunsTo c fault? (p'.run c'))
    (h' : p'.RunsTo c' fault'? r) : p.RunsTo c (fault?.or fault'?) r := by
  cases fault? with
  | none => exact of_run_eq h h'
  | some f => exact h

end RunsTo

theorem runsTo_operand_number (inner : Parser Expression) (literal : Terminal .number) (room : Nat)
    (c : Cursor) (rest : List Lexeme) :
    (operand inner).RunsTo (c.seek (literal.1 :: rest))
      ((Phrase.number literal).fault? limit (room + 1))
      (.ok (Phrase.number literal).expression (c.seek rest)) := by
  have hrun : (operand inner).run (c.seek (literal.1 :: rest))
      = ((Binary64.read? literal.1.text.toList).elim (throw (.badNumber literal.1.token)) fun x ↦
          pure (.number x) : Parser Expression).run (c.seek rest) := by
    rw [operand, run_get_bind, Cursor.current_seek_cons]
    dsimp only
    rw [show literal.1.kind = .number from literal.2]
    dsimp only
    rw [run_bind_of_ok (run_advance _), Cursor.advance_seek_cons]
    cases Binary64.read? literal.1.text.toList <;> rfl
  refine .of_run_eq hrun ?_
  rw [Phrase.fault?, Phrase.expression, numberValue]
  cases Binary64.read? literal.1.text.toList with
  | none => exact ⟨_, rfl⟩
  | some x => rfl

/-- A group is read as what is in it, and fails for that. -/
theorem runsTo_operand_group {inner : Parser Expression} {e : Expression} {ls rest : List Lexeme}
    {fault? : Option ParseFault} (opening : Terminal (.symbol .leftParen))
    (closing : Terminal (.symbol .rightParen)) (c : Cursor)
    (h : inner.RunsTo (c.seek (ls ++ closing.1 :: rest)) fault?
      (.ok e (c.seek (closing.1 :: rest)))) :
    (operand inner).RunsTo (c.seek (opening.1 :: (ls ++ closing.1 :: rest))) fault?
      (.ok e (c.seek rest)) := by
  have hrun : (operand inner).run (c.seek (opening.1 :: (ls ++ closing.1 :: rest)))
      = (inner >>= fun e ↦ expect (.symbol .rightParen) "to close the parenthesized expression" >>=
          fun _ ↦ pure e).run (c.seek (ls ++ closing.1 :: rest)) := by
    rw [operand, run_get_bind, Cursor.current_seek_cons]
    dsimp only
    rw [show opening.1.kind = .symbol .leftParen from opening.2]
    dsimp only
    rw [run_bind_of_ok (run_advance _), Cursor.advance_seek_cons]
  rw [← fault?.or_none]
  exact .of_run_eq hrun (h.bind (run_bind_of_ok (run_expect_cons closing _ _ _)))

/-- At an operator the climb takes its right operand, and goes on if that is not too high. -/
theorem runsTo_climb_operator {right : Precedence → Parser Expression} {n : Nat}
    {least : Precedence} {left e : Expression} {operator : Lexeme} {ls rest : List Lexeme}
    {fault? : Option ParseFault} (ho : IsOperator n operator.kind) (hleast : least.level ≤ n + 1)
    (c : Cursor)
    (h : (right (Precedence.betweenOperands operator.kind).tighter).RunsTo (c.seek ls) fault?
      (.ok e (c.seek rest))) :
    (climb limit right least left).RunsTo (c.seek (operator :: ls))
      (fault?.or (if max left.height e.height + 1 ≤ limit then none
        else some (.tooDeep limit operator.token)))
      ((climb limit right least (.binary left operator.token e)).run (c.seek rest)) := by
  have hrun : (climb limit right least left).run (c.seek (operator :: ls))
      = (right (Precedence.betweenOperands operator.kind).tighter >>= fun e ↦
          if max left.height e.height + 1 ≤ limit then
            climb limit right least (.binary left operator.token e)
          else throw (.tooDeep limit operator.token)).run (c.seek ls) := by
    rw [climb, run_get_bind, Cursor.kind_seek_cons, continuation_of_isOperator ho hleast]
    dsimp only
    rw [run_bind_of_ok (run_advance _), Cursor.advance_seek_cons]
    rfl
  refine .of_run_eq hrun (h.bind ?_)
  split
  · exact rfl
  · exact ⟨_, rfl⟩

/-- An expression that is a phrase comes to where its operand and the climb behind it come to, and
where there is no room it fails at the first lexeme. -/
theorem runsTo_expressionWithin {least : Precedence} {d : Phrase} {rest : List Lexeme}
    (hrest : Stops (least.level - 1) rest)
    (h : ∀ (room : Nat) (c : Cursor), (operand (expressionWithin limit room .none) >>=
        climb limit (expressionWithin limit room) least).RunsTo (c.seek (d.lexemes ++ rest))
      (d.fault? limit (room + 1))
      ((climb limit (expressionWithin limit room) least d.expression).run (c.seek rest)))
    (room : Nat) (c : Cursor) :
    (expressionWithin limit room least).RunsTo (c.seek (d.lexemes ++ rest)) (d.fault? limit room)
      (.ok d.expression (c.seek rest)) := by
  cases room with
  | zero =>
    obtain ⟨ls, hls⟩ := d.exists_lexemes_eq_cons
    rw [hls, Phrase.fault?]
    exact ⟨_, rfl⟩
  | succ room =>
    have hoperators := h room { c with depth := c.depth + 1 }
    rw [run_climb_of_stops hrest] at hoperators
    have hrun : (expressionWithin limit (room + 1) least).run (c.seek (d.lexemes ++ rest))
        = ((operand (expressionWithin limit room .none) >>=
            climb limit (expressionWithin limit room) least) >>= fun e ↦
          ascend >>= fun _ ↦ pure e).run
            (Cursor.seek { c with depth := c.depth + 1 } (d.lexemes ++ rest)) := by
      rw [expressionWithin, bind_assoc]
      rfl
    rw [← (d.fault? limit (room + 1)).or_none]
    exact .of_run_eq hrun (hoperators.bind rfl)

/-! ### Phrases -/

/-- An operand and the climb behind it go over a phrase, or fail for what the phrase fails for. -/
theorem runsTo_operand_climb {n : Nat} {d : Phrase} (hd : d.AtLevel n) :
    ∀ {room : Nat} {least : Precedence} {rest : List Lexeme} (c : Cursor),
      levelOf least ≤ n → Stops (n + 1) rest →
      (operand (expressionWithin limit room .none) >>=
          climb limit (expressionWithin limit room) least).RunsTo (c.seek (d.lexemes ++ rest))
        (d.fault? limit (room + 1))
        ((climb limit (expressionWithin limit room) least d.expression).run (c.seek rest)) := by
  induction hd with
  | number literal =>
    intro room least rest c _ _
    rw [← (Phrase.fault? limit _ _).or_none]
    exact (runsTo_operand_number _ literal room c rest).bind rfl
  | @group inner opening closing h ih =>
    intro room least rest c _ _
    have hstops (n : Nat) : Stops n (closing.1 :: rest) := closing.stops_rightParen rest
    have hinner : (expressionWithin limit room .none).RunsTo
        (c.seek (inner.lexemes ++ closing.1 :: rest)) (inner.fault? limit room)
          (.ok inner.expression (c.seek (closing.1 :: rest))) :=
      runsTo_expressionWithin (hstops _) (fun _ c ↦
        ih c le_rfl (hstops 1)) room c
    rw [Phrase.lexemes, List.cons_append, List.append_assoc, List.singleton_append,
      Phrase.fault?, ← (inner.fault? limit room).or_none]
    exact (runsTo_operand_group opening closing c hinner).bind rfl
  | @binary n left right operator ho hl hr ihl ihr =>
    intro room least rest c hleast hrest
    obtain ⟨hn, hlevel⟩ := isOperator_iff.mp ho
    have hbinds : least.level ≤ n + 1 := by
      rw [levelOf] at hleast
      omega
    have hstops : Stops (n + 1) (operator :: (right.lexemes ++ rest)) :=
      ho.stops (Nat.lt_succ_self n) _
    have htighter : (Precedence.betweenOperands operator.kind).tighter.level = n + 2 := by
      rw [level_tighter_of_le (by omega), hlevel]
    have hright : (expressionWithin limit room
        (Precedence.betweenOperands operator.kind).tighter).RunsTo (c.seek (right.lexemes ++ rest))
          (right.fault? limit room) (.ok right.expression (c.seek rest)) :=
      runsTo_expressionWithin (by rwa [htighter]) (fun _ c ↦
        ihr c (by rw [levelOf]; omega) (hrest.mono (by omega))) room c
    rw [Phrase.lexemes, List.append_assoc, List.cons_append, Phrase.fault?, Option.or_assoc,
      ← left.height_expression, ← right.height_expression]
    -- up to the operator the left operand is all that is read, and the climb has it on its left
    exact (ihl c hleast hstops).trans (runsTo_climb_operator ho hbinds c hright)
  | looser _ ih =>
    intro room least rest c hleast hrest
    exact ih c (by omega) (hrest.mono (by omega))

/-- What reading a phrase comes to, when as many expressions are open as the depth says. -/
theorem runsTo_expression (limit : Nat) {n : Nat} {least : Precedence} {d : Phrase}
    {rest : List Lexeme} (c : Cursor) (hd : d.AtLevel n) (hleast : levelOf least ≤ n)
    (hn : Stops (n + 1) rest) (hrest : Stops (least.level - 1) rest) :
    (expression limit least).RunsTo (c.seek (d.lexemes ++ rest)) (d.fault? limit (limit - c.depth))
      (.ok d.expression (c.seek rest)) :=
  .of_run_eq (run_get_bind _ _) (runsTo_expressionWithin hrest (fun _ c ↦
    runsTo_operand_climb hd c hleast hn) (limit - c.depth) c)

theorem run_expression {least : Precedence} {d : Phrase} {rest : List Lexeme} (c : Cursor)
    (hd : PhraseWithin limit (limit - c.depth) (least.level - 1) d)
    (hread : ∀ l ∈ d.lexemes, Readable l) (hrest : Stops (least.level - 1) rest) :
    (expression limit least).run (c.seek (d.lexemes ++ rest)) = .ok d.expression (c.seek rest) := by
  obtain ⟨hlevel, hnesting, hheight⟩ := hd
  have hrun := runsTo_expression limit c hlevel (Nat.min_le_left _ _)
    (hrest.mono (Nat.le_succ _)) hrest
  rwa [d.fault?_eq_none hnesting hheight hread] at hrun

/-! ## Statements and blocks -/

theorem run_statement {r : Statement} (c : Cursor) (hr : StatementWithin limit (limit - c.depth) r)
    (hread : ∀ l ∈ r.lexemes, Readable l) (rest : List Lexeme) :
    (statement limit).run (c.seek (r.lexemes ++ rest)) = .ok r.result.expression (c.seek rest) := by
  have hstops : Stops (Precedence.none.level - 1) (r.semicolon.1 :: rest) :=
    r.semicolon.stops_semicolon rest
  have hd : PhraseWithin limit (limit - c.depth) (Precedence.none.level - 1) r.result :=
    ⟨r.atLevel, hr.1, hr.2⟩
  have hexpression := run_expression c hd
    (fun l hl ↦ hread l (by simp [Statement.lexemes, hl])) hstops
  have hkind : (c.seek (r.keyword.1 :: (r.result.lexemes ++ r.semicolon.1 :: rest))).kind
      = .keyword .return := r.keyword.2
  rw [Statement.lexemes, List.cons_append, List.append_assoc, List.singleton_append, statement,
    run_get_bind, if_pos hkind, returned, run_bind_of_ok (run_expect_cons r.keyword _ _ _),
    run_bind_of_ok hexpression, run_bind_of_ok (run_expect_cons r.semicolon _ _ _)]
  rfl

theorem run_body {body : List Statement} (c : Cursor)
    (hbody : ∀ r ∈ body, StatementWithin limit (limit - c.depth) r)
    (hread : ∀ l ∈ body.flatMap Statement.lexemes, Readable l) (opening : Lexeme)
    (rightBrace : Terminal (.symbol .rightBrace)) (rest : List Lexeme) :
    (collectAll blockGoesOn (blockItem limit opening)).run
        (c.seek (body.flatMap Statement.lexemes ++ rightBrace.1 :: rest))
      = .ok (body.map fun r ↦ r.result.expression) (c.seek (rightBrace.1 :: rest)) := by
  induction body with
  | nil =>
    refine run_collectAll_of_stop (consumes_blockItem opening) ?_
    simp [blockGoesOn, rightBrace.2]
  | cons r body ih =>
    rw [List.forall_mem_cons] at hbody
    rw [List.flatMap_cons, List.forall_mem_append] at hread
    rw [List.flatMap_cons, List.append_assoc]
    have hkind : (c.seek (r.lexemes ++
        (body.flatMap Statement.lexemes ++ rightBrace.1 :: rest))).kind = .keyword .return :=
      r.keyword.2
    refine run_collectAll_of_ok (consumes_blockItem opening) (by simp [blockGoesOn, hkind]) ?_
      (ih hbody.2 hread.2)
    rw [blockItem, run_get_bind]
    simp only [Cursor.atEnd, hkind, reduceCtorEq, decide_false, Bool.false_eq_true, if_false]
    exact run_statement c hbody.1 hread.1 _

theorem run_block {body : List Statement} (c : Cursor)
    (hbody : ∀ r ∈ body, StatementWithin limit (limit - c.depth) r)
    (hread : ∀ l ∈ body.flatMap Statement.lexemes, Readable l)
    (leftBrace : Terminal (.symbol .leftBrace)) (rightBrace : Terminal (.symbol .rightBrace))
    (rest : List Lexeme) :
    (block limit).run
        (c.seek (leftBrace.1 :: (body.flatMap Statement.lexemes ++ rightBrace.1 :: rest)))
      = .ok (body.map fun r ↦ r.result.expression) (c.seek rest) := by
  rw [block_eq, run_bind_of_ok (run_expect_cons leftBrace _ _ _),
    run_bind_of_ok (run_body c hbody hread leftBrace.1 rightBrace rest),
    run_bind_of_ok (run_advance _)]
  rfl

/-! ## Functions -/

theorem run_parameter_of_comma (c : Cursor) (name : Terminal .identifier)
    (comma : Terminal (.symbol .comma)) (rest : List Lexeme) :
    parameter.run (c.seek (name.1 :: comma.1 :: rest)) = .ok name.1.text (c.seek rest) := by
  have hkind : (c.seek (comma.1 :: rest)).kind ≠ .symbol .rightParen := by simp [comma.2]
  rw [parameter, run_bind_of_ok (run_expect_cons name _ _ _), run_get_bind, if_neg hkind,
    run_bind_of_ok (run_expect_cons comma _ _ _)]
  rfl

theorem run_parameter_of_rightParen (c : Cursor) (name : Terminal .identifier)
    (closing : Terminal (.symbol .rightParen)) (rest : List Lexeme) :
    parameter.run (c.seek (name.1 :: closing.1 :: rest))
      = .ok name.1.text (c.seek (closing.1 :: rest)) := by
  have hkind : (c.seek (closing.1 :: rest)).kind = .symbol .rightParen := closing.2
  rw [parameter, run_bind_of_ok (run_expect_cons name _ _ _), run_get_bind, if_pos hkind]
  rfl

theorem run_parameters (c : Cursor) (ps? : Option Parameters)
    (closing : Terminal (.symbol .rightParen)) (rest : List Lexeme) :
    (collectAll parametersGoOn parameter).run
        (c.seek (parameterLexemes ps? ++ closing.1 :: rest))
      = .ok (parameterNames ps?) (c.seek (closing.1 :: rest)) := by
  have hstop : (collectAll parametersGoOn parameter).run (c.seek (closing.1 :: rest))
      = .ok [] (c.seek (closing.1 :: rest)) :=
    run_collectAll_of_stop consumes_parameter (by simp [parametersGoOn, closing.2])
  rcases ps? with _ | ⟨first, others, trailing?⟩
  · exact hstop
  · have hmore (name : Terminal .identifier) (ls : List Lexeme) :
        parametersGoOn (c.seek (name.1 :: ls)) = true := by
      simp [parametersGoOn, name.2]
    induction others generalizing first with
    | nil =>
      rcases trailing? with _ | comma
      · exact run_collectAll_of_ok consumes_parameter (hmore _ _)
          (run_parameter_of_rightParen c first closing rest) hstop
      · exact run_collectAll_of_ok consumes_parameter (hmore _ _)
          (run_parameter_of_comma c first comma _) hstop
    | cons p others ih =>
      exact run_collectAll_of_ok consumes_parameter (hmore _ _)
        (run_parameter_of_comma c first p.1 _) (ih p.2)

theorem run_function {d : Declaration} (c : Cursor)
    (hd : ∀ r ∈ d.body, StatementWithin limit (limit - c.depth) r)
    (hread : ∀ l ∈ d.lexemes, Readable l) (rest : List Lexeme) :
    (function limit).run (c.seek (d.lexemes ++ rest)) = .ok d.function (c.seek rest) := by
  have hmem : ∀ l ∈ d.body.flatMap Statement.lexemes, l ∈ d.lexemes := fun l hl ↦
    List.mem_append_right _ (List.mem_cons_of_mem _ (List.mem_append_left _ hl))
  have hblock := run_block c hd (fun l hl ↦ hread l (hmem l hl)) d.leftBrace d.rightBrace rest
  simp only [Declaration.lexemes, Declaration.header, List.cons_append, List.append_assoc,
    List.nil_append]
  rw [function_eq, run_bind_of_ok (run_expect_cons d.keyword _ _ _),
    run_bind_of_ok (run_expect_cons d.name _ _ _), run_bind_of_ok (run_expect_cons d.opening _ _ _),
    run_bind_of_ok (run_parameters c d.params? d.closing _), run_bind_of_ok (run_advance _),
    Cursor.advance_seek_cons, run_bind_of_ok hblock]
  rfl

/-! ## Programs -/

/-- Functions in front of a program are read first, and the rest is read as if it were alone. -/
theorem run_functions {ds : List Declaration} (c : Cursor)
    (hds : ∀ d ∈ ds, ∀ r ∈ d.body, StatementWithin limit (limit - c.depth) r)
    (hread : ∀ l ∈ ds.flatMap Declaration.lexemes, Readable l) (rest : List Lexeme) :
    (collectAll programGoesOn (programItem limit)).run
        (c.seek (ds.flatMap Declaration.lexemes ++ rest))
      = (do
          let functions ← collectAll programGoesOn (programItem limit)
          return ds.map Declaration.function ++ functions).run (c.seek rest) := by
  induction ds with
  | nil =>
    rw [EStateM.run_bind, List.flatMap_nil, List.nil_append]
    cases (collectAll programGoesOn (programItem limit)).run (c.seek rest) <;> rfl
  | cons d ds ih =>
    rw [List.forall_mem_cons] at hds
    rw [List.flatMap_cons, List.forall_mem_append] at hread
    rw [List.flatMap_cons, List.append_assoc]
    have hkind : (c.seek (d.lexemes ++ (ds.flatMap Declaration.lexemes ++ rest))).kind
        = .keyword .func := d.keyword.2
    have hitem : (programItem limit).run
        (c.seek (d.lexemes ++ (ds.flatMap Declaration.lexemes ++ rest)))
          = .ok d.function (c.seek (ds.flatMap Declaration.lexemes ++ rest)) := by
      rw [programItem, run_get_bind, if_pos hkind]
      exact run_function c hds.1 hread.1 _
    rw [run_collectAll consumes_programItem,
      if_pos (by simp [programGoesOn, Cursor.atEnd, hkind]), run_bind_of_ok hitem,
      EStateM.run_bind, ih hds.2 hread.2, EStateM.run_bind, EStateM.run_bind]
    cases (collectAll programGoesOn (programItem limit)).run (c.seek rest) <;> rfl

theorem run_program_append (c : Cursor) (ds : List Declaration) (rest : List Lexeme)
    (hds : ∀ d ∈ ds, ∀ r ∈ d.body, StatementWithin limit (limit - c.depth) r)
    (hread : ∀ l ∈ ds.flatMap Declaration.lexemes, Readable l) :
    (program limit).run (c.seek (ds.flatMap Declaration.lexemes ++ rest))
      = (do
          let p ← program limit
          return Program.mk (ds.map Declaration.function ++ p.functions)).run (c.seek rest) := by
  rw [program_eq, EStateM.run_bind, run_functions c hds hread, EStateM.run_bind, EStateM.run_bind,
    EStateM.run_bind]
  cases (collectAll programGoesOn (programItem limit)).run (c.seek rest) <;> rfl

theorem run_program (c : Cursor) (ds : List Declaration) (rest : List Lexeme)
    (hds : ∀ d ∈ ds, ∀ r ∈ d.body, StatementWithin limit (limit - c.depth) r)
    (hread : ∀ l ∈ ds.flatMap Declaration.lexemes, Readable l)
    (hrest : (c.seek rest).kind = .endOfSource) :
    (program limit).run (c.seek (ds.flatMap Declaration.lexemes ++ rest))
      = .ok ⟨ds.map Declaration.function⟩ (c.seek rest) := by
  have hstop : (program limit).run (c.seek rest) = .ok ⟨[]⟩ (c.seek rest) := by
    rw [program_eq]
    exact run_bind_of_ok (run_collectAll_of_stop consumes_programItem
      (by simp [programGoesOn, Cursor.atEnd, hrest]))
  rw [run_program_append c ds rest hds hread, run_bind_of_ok hstop, List.append_nil]
  rfl

end Parser

end InfixCompiler
