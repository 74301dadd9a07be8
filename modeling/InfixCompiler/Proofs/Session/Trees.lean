import InfixCompiler.Proofs.Compilation.Concatenation
import InfixCompiler.Proofs.Compilation.Placement
import InfixCompiler.Proofs.Outline.Labels
import InfixCompiler.Proofs.Session.Position

/-!
# Trees that are read, and what is printed of them

A tree that is read from a text has names where a name is printed, symbols where an operator is, and
numbers. So it is known from what is printed of it, but for the places of its operators
(`Source.Reads.render_eq_iff`), and with it all that depends on the tree alone.

Each reader is looked at by itself: what it gives has the property if the lexemes ahead are those of
a text (`Parser.Gives`). No grammar is needed for that, and no limit matters, so it goes for every
construct at every place of a session, and for expressions of every least level.
-/

namespace InfixCompiler

open Text

/-! ## Legible values -/

/-- A lexeme of the language that is as long as its text. -/
structure Lexeme.IsWritten (l : Lexeme) : Prop where
  /-- The text is one of its kind. -/
  isLexeme : IsLexeme l.text.toList l.kind
  /-- The token has the length of the text. -/
  length_eq : l.token.length = byteLength l.text.toList

theorem Lexeme.IsWritten.isName {l : Lexeme} (h : l.IsWritten) (hk : l.kind = .identifier) :
    IsName l.text :=
  ⟨h.isLexeme.ne_nil, (hk ▸ h.isLexeme).isNameChar_of_mem⟩

theorem Lexeme.IsWritten.isSymbol {l : Lexeme} (h : l.IsWritten) {s : Symbol}
    (hk : l.kind = .symbol s) : l.token.IsSymbol := by
  have hlexeme : IsLexeme l.text.toList (.symbol s) := hk ▸ h.isLexeme
  exact ⟨s, hk, by rw [h.length_eq, hlexeme.eq_spelling]⟩

/-- The numbers of the expression are numbers, and its operators symbols. -/
def Expression.IsLegible : Expression → Prop
  | number x => ¬ x.isNaN
  | binary left operator right => left.IsLegible ∧ operator.IsSymbol ∧ right.IsLegible

/-- The names of the function are names, and what it returns is legible. -/
structure Function.IsLegible (f : Function) : Prop where
  /-- The name is one. -/
  name : IsName f.name
  /-- The parameters have names. -/
  params : ∀ s ∈ f.params, IsName s
  /-- The expressions are legible. -/
  returns : ∀ e ∈ f.returns, e.IsLegible

/-! ## Readers -/

/-- The lexemes ahead are written. -/
def Cursor.IsWritten (c : Cursor) : Prop := ∀ l ∈ c.ahead, l.IsWritten

namespace Cursor.IsWritten

variable {c c' : Cursor}

theorem current (h : c.IsWritten) (hk : c.kind ≠ .endOfSource) : c.current.IsWritten :=
  h _ (ahead_eq_cons hk ▸ List.mem_cons_self)

theorem advance (h : c.IsWritten) : c.advance.IsWritten := fun l hl ↦ h l (List.mem_of_mem_tail hl)

theorem of_moves (h : c.IsWritten) {taken : List Lexeme} (hmoves : Moves taken c c') :
    c'.IsWritten :=
  fun l hl ↦ h l (hmoves.ahead ▸ List.mem_append_right _ hl)

end Cursor.IsWritten

namespace Parser

variable {α β : Type} {P : α → Prop} {Q : β → Prop} {limit : Nat}

/-- What is read of written lexemes has the property. -/
def Gives (P : α → Prop) (p : Parser α) : Prop :=
  ∀ c : Cursor, c.IsWritten → p.Ensures c (fun a c' ↦ P a ∧ c'.IsWritten) fun _ _ ↦ True

namespace Gives

theorem pure {a : α} (h : P a) : Gives P (Pure.pure a : Parser α) := fun _ hc ↦ .pure ⟨h, hc⟩

theorem throw (f : ParseFault) : Gives P (throw f : Parser α) :=
  fun c _ ↦ .intro_error (run_throw f c) trivial

theorem unexpected (e : Expectation) : Gives P (Parser.unexpected e : Parser α) :=
  fun c _ ↦ .intro_error (run_unexpected e c) trivial

theorem bind {p : Parser α} {q : α → Parser β} (hp : Gives P p) (hq : ∀ a, P a → Gives Q (q a)) :
    Gives Q (p >>= q) :=
  fun c hc ↦ (hp c hc).bind (fun a c₁ h ↦ hq a h.1 c₁ h.2) fun _ _ h ↦ h

theorem map {p : Parser α} {g : α → β} (hp : Gives P p) (hg : ∀ a, P a → Q (g a)) :
    Gives Q (g <$> p) := by
  rw [map_eq_pure_bind]
  exact hp.bind fun a ha ↦ .pure (hg a ha)

theorem expect {k : Kind} (hk : k ≠ .endOfSource) (context : String) :
    Gives (fun l ↦ l.kind = k ∧ l.IsWritten) (Parser.expect k context) := by
  intro c hc
  by_cases h : c.kind = k
  · exact .intro_ok (run_expect_of_eq h context) ⟨⟨h, hc.current (h ▸ hk)⟩, hc.advance⟩
  · exact .intro_error (run_expect_of_ne h context) trivial

theorem advance : Gives (fun _ ↦ True) Parser.advance :=
  fun _ hc ↦ .intro_ok rfl ⟨trivial, hc.advance⟩

theorem collectAll {more : Cursor → Bool} {item : Parser α} (h : Consumes more item)
    (hi : Gives P item) : Gives (∀ a ∈ ·, P a) (Parser.collectAll more item) := by
  intro c
  induction hm : c.ahead.length using Nat.strongRecOn generalizing c with
  | ind m ih =>
  intro hc
  refine .collectAll h (fun _ ↦ ⟨List.forall_mem_nil P, hc⟩) fun hmore ↦ ?_
  cases hrun : item.run c with
  | error f c' => exact .intro_error hrun trivial
  | ok a c₁ =>
    obtain ⟨ha, hc₁⟩ := (hi c hc).of_run_ok hrun
    refine .intro_ok hrun ((ih _ (hm ▸ h c a c₁ hmore hrun) c₁ rfl hc₁).mono ?_ fun _ _ h ↦ h)
    exact fun _ _ h' ↦ ⟨List.forall_mem_cons.mpr ⟨ha, h'.1⟩, h'.2⟩

end Gives

theorem gives_operand {inner : Parser Expression} (hi : Gives Expression.IsLegible inner) :
    Gives Expression.IsLegible (operand inner) := by
  intro c hc
  rw [operand]
  refine .get_bind ?_
  dsimp only
  split
  · next hk =>
    have hl := hc.current (by rw [Cursor.kind_eq]; simp [hk])
    have hlexeme : IsLexeme c.current.text.toList .number := hk ▸ hl.isLexeme
    refine .advance_bind ?_
    split
    · next x hx =>
      have hnan : x.isNaN = false := hlexeme.isNaN_of_read? hx
      exact .pure ⟨by rw [Expression.IsLegible, hnan]; exact Bool.false_ne_true, hc.advance⟩
    · exact Gives.throw _ _ hc.advance
  · refine .advance_bind (Gives.bind hi (fun e he ↦ ?_) _ hc.advance)
    exact .bind (.expect (by simp) _) fun _ _ ↦ .pure he
  · exact Gives.unexpected _ _ hc
  · split
    · exact Gives.unexpected _ _ hc
    · exact Gives.unexpected _ _ hc

theorem gives_climb {right : Precedence → Parser Expression}
    (hright : ∀ level, Gives Expression.IsLegible (right level)) (least : Precedence)
    {left : Expression} (hleft : left.IsLegible) :
    Gives Expression.IsLegible (climb limit right least left) := by
  induction hm : limit - left.height using Nat.strongRecOn generalizing left with
  | ind m ih =>
  intro c hc
  rw [climb]
  refine .get_bind ?_
  split
  · exact .pure ⟨hleft, hc⟩
  · exact Gives.unexpected _ _ hc
  next level hop =>
  have hisop := (isOperator_of_continuation hop).1
  have hl := hc.current hisop.ne_endOfSource
  obtain ⟨s, -, hs⟩ := hisop
  refine .advance_bind (Gives.bind (hright _) (fun e he ↦ ?_) _ hc.advance)
  split
  · next hbound =>
    exact ih _ (by rw [Expression.height]; omega) ⟨hleft, hl.isSymbol hs, he⟩ rfl
  · exact .throw _

theorem gives_expressionWithin (room : Nat) (least : Precedence) :
    Gives Expression.IsLegible (expressionWithin limit room least) := by
  induction room generalizing least with
  | zero => exact fun _ _ ↦ trivial
  | succ room ih =>
    intro c hc
    rw [expressionWithin, descend]
    refine .modify_bind (Gives.bind (gives_operand (ih .none)) (fun left hleft ↦ ?_) _ hc)
    exact .bind (gives_climb ih least hleft) fun e he c hc ↦ .modify_bind (.pure ⟨he, hc⟩)

theorem gives_expression (least : Precedence) :
    Gives Expression.IsLegible (expression limit least) :=
  fun c hc ↦ .get_bind (gives_expressionWithin _ least c hc)

theorem gives_returned : Gives Expression.IsLegible (returned limit) :=
  .bind (.expect (by simp) _) fun _ _ ↦ .bind (gives_expression .none) fun _ he ↦
    .bind (.expect (by simp) _) fun _ _ ↦ .pure he

theorem gives_statement : Gives Expression.IsLegible (statement limit) := by
  intro c hc
  refine .get_bind ?_
  split
  · exact gives_returned c hc
  · split
    · exact Gives.unexpected _ _ hc
    · exact Gives.unexpected _ _ hc

theorem gives_blockItem (opening : Lexeme) :
    Gives Expression.IsLegible (blockItem limit opening) := by
  intro c hc
  refine .get_bind ?_
  split
  · exact Gives.throw _ _ hc
  · exact gives_statement c hc

theorem gives_block : Gives (∀ e ∈ ·, e.IsLegible) (block limit) := by
  rw [block_eq]
  exact .bind (.expect (by simp) _) fun opening _ ↦
    .bind (.collectAll (consumes_blockItem opening) (gives_blockItem opening)) fun _ hes ↦
      .bind .advance fun _ _ ↦ .pure hes

theorem gives_parameter : Gives IsName parameter := by
  refine .bind (.expect (by simp) _) fun name hname c hc ↦ .get_bind ?_
  have hisName : IsName name.text := hname.2.isName hname.1
  split
  · exact .pure ⟨hisName, hc⟩
  · exact Gives.bind (.expect (by simp) _) (fun _ _ ↦ .pure hisName) c hc

theorem gives_function : Gives Function.IsLegible (function limit) := by
  rw [function_eq]
  exact .bind (.expect (by simp) _) fun _ _ ↦ .bind (.expect (by simp) _) fun name hname ↦
    .bind (.expect (by simp) _) fun _ _ ↦
      .bind (.collectAll consumes_parameter gives_parameter) fun _ hparams ↦
        .bind .advance fun _ _ ↦ .bind gives_block fun _ hes ↦
          .pure ⟨hname.2.isName hname.1, hparams, hes⟩

theorem gives_programItem : Gives Function.IsLegible (programItem limit) := by
  intro c hc
  refine .get_bind ?_
  split
  · exact gives_function c hc
  · exact Gives.unexpected _ _ hc

theorem gives_program : Gives (∀ f ∈ ·.functions, f.IsLegible) (program limit) := by
  rw [program_eq]
  exact .bind (.collectAll consumes_programItem gives_programItem) fun _ hfs ↦ .pure hfs

end Parser

/-! ## Trees of values -/

theorem Tree.isLegible_of_mem_outlines {ts : List Tree} (h : ∀ t ∈ ts, t.IsLegible) (depth : Nat) :
    ∀ x ∈ Tree.outlines depth ts, x.2.IsLegible := by
  induction ts with
  | nil => exact List.forall_mem_nil _
  | cons t ts ih =>
    obtain ⟨ht, hts⟩ := List.forall_mem_cons.mp h
    rw [Tree.outlines]
    exact List.forall_mem_append.mpr ⟨ht depth, ih hts⟩

theorem Tree.isLegible_ret {e : Operation} (h : (Tree.operation e).IsLegible) :
    (Tree.ret e).IsLegible := by
  intro depth
  rw [Tree.outline]
  exact List.forall_mem_cons.mpr ⟨trivial, h (depth + 1)⟩

theorem Expression.IsLegible.tree {e : Expression} (h : e.IsLegible) : e.tree.IsLegible := by
  induction e with
  | number x => exact fun depth ↦ List.forall_mem_singleton.mpr h
  | binary left operator right ihl ihr =>
    obtain ⟨hl, ho, hr⟩ := h
    intro depth
    have hoperator : (Tree.Label.operation (some operator)).IsLegible := by
      rintro t ⟨⟩
      exact ho
    exact List.forall_mem_cons.mpr ⟨hoperator, List.forall_mem_append.mpr
      ⟨ihl hl (depth + 1), ihr hr (depth + 1)⟩⟩

theorem Expression.IsLegible.result {e : Expression} (h : e.IsLegible) :
    (Tree.operation e.result).IsLegible := by
  cases e with
  | number x => exact fun depth ↦ List.forall_mem_cons.mpr ⟨nofun, h.tree (depth + 1)⟩
  | binary left operator right => exact h.tree

theorem isLegible_statements {es : List Expression} (h : ∀ e ∈ es, e.IsLegible) :
    ∀ t ∈ statements es, t.IsLegible :=
  List.forall_mem_map.mpr fun e he ↦ Tree.isLegible_ret (h e he).result

theorem isLegible_block {es : List Expression} (h : ∀ e ∈ es, e.IsLegible) :
    (Tree.block (statements es)).IsLegible := by
  intro depth
  rw [Tree.outline]
  exact List.forall_mem_cons.mpr
    ⟨trivial, Tree.isLegible_of_mem_outlines (isLegible_statements h) (depth + 1)⟩

theorem Function.IsLegible.tree {f : Function} (h : f.IsLegible) : f.tree.IsLegible := by
  intro depth
  rw [Function.tree, Tree.outline]
  exact List.forall_mem_cons.mpr ⟨⟨h.name, h.params⟩, List.forall_mem_cons.mpr
    ⟨trivial, Tree.isLegible_of_mem_outlines (isLegible_statements h.returns) (depth + 2)⟩⟩

theorem Program.isLegible_tree {p : Program} (h : ∀ f ∈ p.functions, f.IsLegible) :
    p.tree.IsLegible := by
  intro depth
  rw [Program.tree, Tree.outline]
  exact List.forall_mem_cons.mpr ⟨trivial, Tree.isLegible_of_mem_outlines
    (List.forall_mem_map.mpr fun f hf ↦ (h f hf).tree) (depth + 1)⟩

theorem Parser.gives_construct {limit : Nat} (x : Construct) :
    Gives Tree.IsLegible (construct limit x) := by
  cases x with
  | program => exact gives_program.map fun _ ↦ Program.isLegible_tree
  | function => exact gives_function.map fun _ ↦ Function.IsLegible.tree
  | block => exact gives_block.map fun _ ↦ isLegible_block
  | statement => exact gives_statement.map fun _ h ↦ Tree.isLegible_ret h.result
  | returned => exact gives_returned.map fun _ h ↦ Tree.isLegible_ret h.result
  | expression least => exact (gives_expression least).map fun _ ↦ Expression.IsLegible.result

/-! ## Sessions -/

namespace Cursor.IsWritten

variable {c : Cursor} {limit : Nat}

theorem perform (h : c.IsWritten) (command : Command) :
    (command.perform limit c).2.IsWritten := by
  cases command with
  | current | check | checkNext | atEnd => exact h
  | advance => exact h.advance
  | expect kind context =>
    by_cases hkind : c.kind = kind
    · rw [Command.perform_expect_of_eq hkind]
      exact h.advance
    · rw [Command.perform_expect_of_ne hkind]
      exact h
  | read x =>
    obtain ⟨taken, hmoves⟩ := Command.moves_perform_read limit x c
    exact h.of_moves hmoves

theorem after (h : c.IsWritten) (commands : List Command) : (c.after limit commands).IsWritten := by
  induction commands generalizing c with
  | nil => exact h
  | cons command commands ih => exact ih (h.perform command)

end Cursor.IsWritten

namespace Source

variable {s s' : Source} {tokens : List Token} {t u : Tree}

theorem isWritten_ofTokens (h : s.tokens = .ok tokens) :
    (Cursor.ofTokens s tokens).IsWritten := by
  obtain ⟨ls, hls, rfl⟩ := exists_lexes_of_tokens h
  obtain ⟨hcursor, hlexeme⟩ := ofTokens_of_lexes hls
  rw [hcursor]
  exact fun l hl ↦ ⟨hlexeme l hl, hls.length_token l hl⟩

/-- The tree is read from the tokens of the source, as a whole or in a session. -/
def Reads (s : Source) (t : Tree) : Prop :=
  ∃ tokens, s.tokens = .ok tokens ∧ ∃ (limit : Nat) (commands : List Command) (x : Construct)
    (c : Cursor), (Command.read x).perform limit
      ((Cursor.ofTokens s tokens).after limit commands) = (.tree t, c)

theorem reads_of_ofTokens (h : s.tokens = .ok tokens) {limit : Nat} {p : Program}
    (hp : Program.ofTokens limit s tokens = .ok p) : s.Reads p.tree := by
  obtain ⟨c, hrun⟩ := Program.ofTokens_eq_ok_iff.mp hp
  refine ⟨tokens, h, limit, [], .program, c, Command.perform_read_eq_tree.mpr ?_⟩
  exact Parser.run_map_eq_ok.mpr ⟨p, hrun, rfl⟩

theorem Reads.isLegible (h : s.Reads t) : t.IsLegible := by
  obtain ⟨tokens, htokens, limit, commands, x, c, hperform⟩ := h
  have hwritten : ((Cursor.ofTokens s tokens).after limit commands).IsWritten :=
    (isWritten_ofTokens htokens).after commands
  have hrun := Command.perform_read_eq_tree.mp hperform
  exact ((Parser.gives_construct x _ hwritten).of_run_ok hrun).1

theorem reads_of_program {p : Program} (h : s.program = .ok p) : s.Reads p.tree := by
  rw [program] at h
  split at h
  · exact absurd h (by simp)
  · next tokens htokens =>
    have hp : Program.ofTokens defaultLimit s tokens = .ok p := by
      cases hq : Program.ofTokens defaultLimit s tokens with
      | error f => exact absurd (hq ▸ h) (by simp [Except.mapError])
      | ok q =>
        rw [hq] at h
        exact congrArg _ (Except.ok.inj h)
    exact reads_of_ofTokens htokens hp

/-- **Printed trees are faithful.** Trees that are read from any sources are printed alike if and
only if they are the same but for the places of operators. Then they have the same code, or lack it
for the same reason. -/
theorem Reads.render_eq_iff (ht : s.Reads t) (hu : s'.Reads u) :
    (t.render = u.render ↔ t.unplaced = u.unplaced) ∧
      (t.render = u.render → t.lower = u.lower) := by
  have hunplaced : t.render = u.render → t.unplaced = u.unplaced :=
    ht.isLegible.unplaced_eq hu.isLegible
  refine ⟨⟨hunplaced, fun h ↦ ?_⟩, fun h ↦ ?_⟩
  · rw [← t.render_unplaced, h, u.render_unplaced]
  · rw [← t.lower_unplaced, hunplaced h, u.lower_unplaced]

/-- Without blanks the operators are at other places, and no parenthesis is printed. -/
theorem Reads.render_eq_blanks : ∃ t u,
    (ofString "func f(a, b) \x7b return (1 + 2) * 3; \x7d").Reads t ∧
    (ofString "func f(a,b)\x7breturn ((1+2)*3);\x7d").Reads u ∧ t ≠ u ∧
    t.render = "Root\n  Func f(a, b)\n    Block\n      Return\n        Expr *\n" ++
      "          Expr +\n            Value 1\n            Value 2\n          Value 3\n" ∧
    t.render = u.render ∧ t.unplaced = u.unplaced ∧ t.lower = u.lower := by
  let one : Expression := .number ⟨0x3FF0000000000000⟩
  let two : Expression := .number ⟨0x4000000000000000⟩
  let three : Expression := .number ⟨0x4008000000000000⟩
  let p : Program := ⟨[⟨"f", ["a", "b"], [.binary (.binary one ⟨.symbol .plus, 25, 1⟩ two)
    ⟨.symbol .star, 30, 1⟩ three]⟩]⟩
  let q : Program := ⟨[⟨"f", ["a", "b"], [.binary (.binary one ⟨.symbol .plus, 22, 1⟩ two)
    ⟨.symbol .star, 25, 1⟩ three]⟩]⟩
  have hp : (ofString "func f(a, b) \x7b return (1 + 2) * 3; \x7d").program = .ok p := by
    decide +kernel
  have hq : (ofString "func f(a,b)\x7breturn ((1+2)*3);\x7d").program = .ok q := by
    decide +kernel
  have hrender : p.tree.render = q.tree.render := by
    decide +kernel
  obtain ⟨hunplaced, hlower⟩ := Reads.render_eq_iff (reads_of_program hp) (reads_of_program hq)
  refine ⟨p.tree, q.tree, reads_of_program hp, reads_of_program hq, ?_, ?_, hrender,
    hunplaced.mp hrender, hlower hrender⟩
  · simp [p, q, Program.tree, Function.tree, statements, Expression.result, Operation.binary]
  · decide +kernel

end Source

end InfixCompiler
