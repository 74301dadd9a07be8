import InfixCompiler.Proofs.Reading.Locality
import InfixCompiler.Proofs.Session.Position

/-!
# The limit only rejects

A limit on depths is there to refuse expressions, and it has no other influence: what is read at one
limit is read as the same at a higher one, and so is every fault but that of the limit itself. This
much is in `Parser.program_mirrors`, the two runs being the same as far as the first one comes.

A limit that is as high as there are tokens refuses nothing. Each expression inside of another one
is behind a parenthesis or an operator of its own, and each operator makes a tree one higher. So
both bounds are paid for in lexemes: a cursor has *room* if more of the limit is left than lexemes
are ahead of it, and a reader that finds room leaves room. The trees are part of the invariant, as
the height of one and the lexemes behind it are never more than the lexemes that there were.
-/

namespace InfixCompiler

/-- Whatever the fault is, no limit is. -/
def ParseFault.NotTooDeep (f : ParseFault) : Prop := ∀ n t, f ≠ .tooDeep n t

namespace ParseFault.NotTooDeep

theorem unexpected (e : Expectation) (t : Token) : (ParseFault.unexpected e t).NotTooDeep := by
  simp [NotTooDeep]

theorem badNumber (t : Token) : (ParseFault.badNumber t).NotTooDeep := by
  simp [NotTooDeep]

theorem unclosedBlock (t : Token) : (ParseFault.unclosedBlock t).NotTooDeep := by
  simp [NotTooDeep]

end ParseFault.NotTooDeep

/-- More of the limit is left than lexemes are ahead. -/
def Cursor.HasRoom (limit : Nat) (c : Cursor) : Prop := c.depth + c.ahead.length < limit

namespace Parser

variable {α β : Type} {limit room : Nat}

/-! ## Expressions -/

/-- The lexemes between `c` and `c'` are more than the expression has operators on a way down. -/
def Spends (c : Cursor) (e : Expression) (c' : Cursor) : Prop :=
  e.height + c'.ahead.length < c.ahead.length

/-- From fewer lexemes than `room` the reader fails for no limit, and spends what it builds. -/
def Affords (room : Nat) (p : Parser Expression) : Prop :=
  ∀ c : Cursor, c.ahead.length < room → p.Ensures c (Spends c) fun f _ ↦ f.NotTooDeep

/-- Taking a lexeme that is there, or not, has nothing to do with limits. -/
theorem expect_notTooDeep (k : Kind) (context : String) (c : Cursor) :
    (expect k context).Ensures c
      (fun _ c' ↦ c'.depth = c.depth ∧ c'.ahead.length ≤ c.ahead.length)
      fun f _ ↦ f.NotTooDeep := by
  by_cases h : c.kind = k
  · refine .intro_ok (run_expect_of_eq h context) ⟨rfl, ?_⟩
    exact List.length_tail.trans_le (Nat.sub_le ..)
  · exact .intro_error (run_expect_of_ne h context) (.unexpected _ _)

theorem operand_affords {inner : Parser Expression} (hi : Affords room inner) :
    Affords (room + 1) (operand inner) := by
  intro c hc
  rw [operand]
  refine .get_bind ?_
  dsimp only
  split
  · next hk =>
    have hlt := Cursor.length_advance_lt (c := c) (by rw [Cursor.kind_eq]; simp [hk])
    refine .advance_bind ?_
    split
    · exact .pure (show 0 + _ < _ by rwa [Nat.zero_add])
    · exact .intro_error (run_throw _ _) (.badNumber _)
  · next hk =>
    have hlt := Cursor.length_advance_lt (c := c) (by rw [Cursor.kind_eq]; simp [hk])
    refine .advance_bind (.bind (hi c.advance (by omega)) (fun e c₁ he ↦ ?_) fun _ _ hf ↦ hf)
    refine .bind (expect_notTooDeep _ _ c₁) (fun _ c₂ hl ↦ .pure ?_) fun _ _ hf ↦ hf
    rw [Spends] at he ⊢
    omega
  · exact .intro_error (run_unexpected _ _) (.unexpected _ _)
  · split
    · exact .intro_error (run_unexpected _ _) (.unexpected _ _)
    · exact .intro_error (run_unexpected _ _) (.unexpected _ _)

/-- A climb never meets the limit: what the left operand has of it and the lexemes ahead are below
it together, and an operator moves one of these to the operand and takes a second. -/
theorem climb_affords {right : Precedence → Parser Expression}
    (hright : ∀ level, Affords room (right level)) (hroom : room < limit) (least : Precedence)
    {left : Expression} {c : Cursor} (hleft : left.height + c.ahead.length ≤ room) :
    (climb limit right least left).Ensures c
      (fun e c' ↦ e.height + c'.ahead.length ≤ left.height + c.ahead.length)
      fun f _ ↦ f.NotTooDeep := by
  induction hm : limit - left.height using Nat.strongRecOn generalizing left c with
  | ind m ih =>
  rw [climb]
  refine .get_bind ?_
  split
  · exact .pure le_rfl
  · exact .intro_error (run_unexpected _ _) (.unexpected _ _)
  next level hop =>
  have hlt := Cursor.length_advance_lt (isOperator_of_continuation hop).1.ne_endOfSource
  refine .advance_bind (.bind (hright _ c.advance (by omega)) (fun e c₁ he ↦ ?_) fun _ _ hf ↦ hf)
  rw [Spends] at he
  have hheight : (Expression.binary left c.current.token e).height + c₁.ahead.length
      ≤ left.height + c.ahead.length := by
    rw [Expression.height]
    omega
  rw [dif_pos (by omega)]
  refine (ih _ ?_ (hheight.trans hleft) rfl).mono (fun _ _ h ↦ h.trans hheight) fun _ _ hf ↦ hf
  rw [Expression.height]
  omega

theorem expressionWithin_affords (hroom : room ≤ limit) (least : Precedence) :
    Affords room (expressionWithin limit room least) := by
  induction room generalizing least with
  | zero => exact fun c hc ↦ absurd hc (Nat.not_lt_zero _)
  | succ room ih =>
    intro c hc
    have ih' := ih (Nat.le_of_succ_le hroom)
    rw [expressionWithin, descend]
    refine .modify_bind (.bind (operand_affords (ih' .none) _ hc) (fun left c₁ hl ↦ ?_)
      fun _ _ hf ↦ hf)
    have hleft : left.height + c₁.ahead.length < c.ahead.length := hl
    refine .bind (climb_affords ih' hroom least (by omega)) (fun e c₂ he ↦ ?_) fun _ _ hf ↦ hf
    exact .modify_bind (.pure (he.trans_lt hleft))

/-! ## All readers -/

/-- Where there is room the reader leaves room, or fails for something else than a limit. -/
def KeepsRoom (limit : Nat) (p : Parser α) : Prop :=
  ∀ c : Cursor, c.HasRoom limit → p.Ensures c (fun _ c' ↦ c'.HasRoom limit) fun f _ ↦ f.NotTooDeep

namespace KeepsRoom

variable {p : Parser α} {k : α → Parser β}

theorem pure (a : α) : KeepsRoom limit (Pure.pure a : Parser α) := fun _ h ↦ h

theorem throw {f : ParseFault} (hf : f.NotTooDeep) :
    KeepsRoom limit (MonadExcept.throw f : Parser α) := fun _ _ ↦ hf

theorem unexpected (e : Expectation) : KeepsRoom limit (Parser.unexpected e : Parser α) :=
  fun c _ ↦ .intro_error (run_unexpected e c) (.unexpected _ _)

theorem bind (hp : KeepsRoom limit p) (hk : ∀ a, KeepsRoom limit (k a)) :
    KeepsRoom limit (p >>= k) :=
  fun c hc ↦ (hp c hc).bind (fun a c' hc' ↦ hk a c' hc') fun _ _ hf ↦ hf

theorem get_bind {k : Cursor → Parser β} (hk : ∀ c, KeepsRoom limit (k c)) :
    KeepsRoom limit (get >>= k) :=
  fun c hc ↦ .get_bind (hk c c hc)

theorem expect (k : Kind) (context : String) : KeepsRoom limit (Parser.expect k context) := by
  intro c hc
  refine (expect_notTooDeep k context c).mono (fun _ c' h ↦ ?_) fun _ _ hf ↦ hf
  rw [Cursor.HasRoom] at hc ⊢
  omega

theorem advance : KeepsRoom limit Parser.advance := by
  intro c hc
  refine .intro_ok (run_advance c) ?_
  rw [Cursor.HasRoom] at hc ⊢
  have hlength : c.advance.ahead.length ≤ c.ahead.length :=
    List.length_tail.trans_le (Nat.sub_le ..)
  exact (Nat.add_le_add_left hlength c.depth).trans_lt hc

theorem collectAll {more : Cursor → Bool} (hp : KeepsRoom limit p) :
    KeepsRoom limit (Parser.collectAll more p) := by
  have hcollect (bound : Nat) : KeepsRoom limit (collect more p bound) := by
    induction bound with
    | zero => exact pure []
    | succ bound ih =>
      refine get_bind fun c ↦ ?_
      split
      · exact hp.bind fun a ↦ ih.bind fun as ↦ pure (a :: as)
      · exact pure []
  exact get_bind fun c ↦ hcollect _

end KeepsRoom

theorem expression_keepsRoom (least : Precedence) : KeepsRoom limit (expression limit least) := by
  intro c hc
  rw [Cursor.HasRoom] at hc
  have haffords : (expression limit least).Ensures c (Spends c) fun f _ ↦ f.NotTooDeep :=
    .get_bind (expressionWithin_affords (Nat.sub_le ..) least c (by omega))
  refine (haffords.and (expression_leaves least c)).mono (fun e c' h ↦ ?_) fun _ _ hf ↦ hf.1
  have hdepth := h.2.depth
  have hlength := h.2.length_lt
  rw [Cursor.HasRoom]
  omega

theorem returned_keepsRoom : KeepsRoom limit (returned limit) :=
  .bind (.expect _ _) fun _ ↦ .bind (expression_keepsRoom .none) fun e ↦
    .bind (.expect _ _) fun _ ↦ .pure e

theorem statement_keepsRoom : KeepsRoom limit (statement limit) := by
  refine .get_bind fun c ↦ ?_
  split
  · exact returned_keepsRoom
  · split
    · exact .unexpected _
    · exact .unexpected _

theorem block_keepsRoom : KeepsRoom limit (block limit) := by
  refine .bind (.expect _ _) fun opening ↦ .bind (.collectAll (.get_bind fun c ↦ ?_)) fun es ↦
    .bind .advance fun _ ↦ .pure es
  split
  · exact .throw (.unclosedBlock _)
  · exact statement_keepsRoom

theorem parameter_keepsRoom : KeepsRoom limit parameter := by
  refine .bind (.expect _ _) fun name ↦ .get_bind fun c ↦ ?_
  split
  · exact .pure _
  · exact .bind (.expect _ _) fun _ ↦ .pure _

theorem function_keepsRoom : KeepsRoom limit (function limit) :=
  .bind (.expect _ _) fun _ ↦ .bind (.expect _ _) fun _ ↦ .bind (.expect _ _) fun _ ↦
    .bind (.collectAll parameter_keepsRoom) fun _ ↦ .bind .advance fun _ ↦
      .bind block_keepsRoom fun _ ↦ .pure _

theorem program_keepsRoom : KeepsRoom limit (program limit) := by
  refine .bind (.collectAll (.get_bind fun c ↦ ?_)) fun _ ↦ .pure _
  split
  · exact function_keepsRoom
  · exact .unexpected _

end Parser

/-- A limit as high as the number of tokens leaves room for all of them. -/
theorem Cursor.hasRoom_ofTokens {source : Source} {tokens : List Token} {limit : Nat}
    (h : (source.capped tokens).length ≤ limit) : (ofTokens source tokens).HasRoom limit := by
  have hdepth : (ofTokens source tokens).depth = 0 := by
    rw [ofTokens]
    split
    · rfl
    · split <;> rfl
  rw [← tokens_ofTokens, Cursor.tokens, List.length_map, Cursor.lexemes, List.length_append] at h
  rw [HasRoom, hdepth, Nat.zero_add]
  exact h

namespace Program

/-- **The limit only rejects.** Under a higher limit a program is the same program, and a fault that
is not that of the limit is the same fault. Under a limit that is no lower than the number of tokens
there are no other faults. -/
theorem ofTokens_of_limit_le (source : Source) (tokens : List Token) {limit limit' : Nat}
    (hle : limit ≤ limit') :
    (∀ p, ofTokens limit source tokens = .ok p → ofTokens limit' source tokens = .ok p) ∧
    (∀ f, ofTokens limit source tokens = .error f → (∀ n t, f ≠ .tooDeep n t) →
      ofTokens limit' source tokens = .error f) ∧
    ((source.capped tokens).length ≤ limit →
      ∀ n t, ofTokens limit source tokens ≠ .error (.tooDeep n t)) := by
  have hmirrors := Parser.program_mirrors hle (.ofTokens source tokens)
  rw [Parser.Mirrors] at hmirrors
  refine ⟨fun p hp ↦ ?_, fun f hf hshallow ↦ ?_, fun hlimit n t hdeep ↦ ?_⟩
  · obtain ⟨c, hrun⟩ := ofTokens_eq_ok_iff.mp hp
    rw [hrun] at hmirrors
    obtain ⟨seen, hseen, -, hmirrored⟩ := hmirrors
    have hrun' := hmirrored c.ahead rfl
    rw [← hseen] at hrun'
    exact ofTokens_eq_ok_iff.mpr ⟨_, hrun'⟩
  · obtain ⟨c, hrun⟩ := ofTokens_eq_error_iff.mp hf
    rw [hrun] at hmirrors
    obtain ⟨seen, hseen, -, hmirrored⟩ := hmirrors fun h ↦ h.2.elim (hshallow limit)
    obtain ⟨f', hrun', hsame⟩ := hmirrored c.ahead rfl
    rw [← hseen, hsame rfl] at hrun'
    exact ofTokens_eq_error_iff.mpr ⟨_, hrun'⟩
  · obtain ⟨c, hrun⟩ := ofTokens_eq_error_iff.mp hdeep
    have hroom := Cursor.hasRoom_ofTokens hlimit
    exact (Parser.program_keepsRoom _ hroom).of_run_error hrun n t rfl

/-- A difference that is read at the least limit it can be read at, one without its second operand,
and open parentheses at a limit that is as high as there are tokens with the end. -/
theorem ofTokens_of_limit_le_difference :
    ofTokens 256 (.ofString "func f() \x7b return 1 - 2; \x7d")
      [⟨.keyword .func, 0, 4⟩, ⟨.identifier, 5, 1⟩, ⟨.symbol .leftParen, 6, 1⟩,
        ⟨.symbol .rightParen, 7, 1⟩, ⟨.symbol .leftBrace, 9, 1⟩, ⟨.keyword .return, 11, 6⟩,
        ⟨.number, 18, 1⟩, ⟨.symbol .minus, 20, 1⟩, ⟨.number, 22, 1⟩, ⟨.symbol .semicolon, 23, 1⟩,
        ⟨.symbol .rightBrace, 25, 1⟩, .endAt 26]
      = .ok ⟨[⟨"f", [], [.binary (.number ⟨0x3FF0000000000000⟩) ⟨.symbol .minus, 20, 1⟩
          (.number ⟨0x4000000000000000⟩)]⟩]⟩ ∧
    ofTokens 256 (.ofString "func f() \x7b return 1 - ; \x7d")
      [⟨.keyword .func, 0, 4⟩, ⟨.identifier, 5, 1⟩, ⟨.symbol .leftParen, 6, 1⟩,
        ⟨.symbol .rightParen, 7, 1⟩, ⟨.symbol .leftBrace, 9, 1⟩, ⟨.keyword .return, 11, 6⟩,
        ⟨.number, 18, 1⟩, ⟨.symbol .minus, 20, 1⟩, ⟨.symbol .semicolon, 22, 1⟩,
        ⟨.symbol .rightBrace, 24, 1⟩, .endAt 25]
      = .error (.unexpected .operand ⟨.symbol .semicolon, 22, 1⟩) ∧
    ∀ n t, ofTokens 10 (.ofString "func f() \x7b return (((")
      [⟨.keyword .func, 0, 4⟩, ⟨.identifier, 5, 1⟩, ⟨.symbol .leftParen, 6, 1⟩,
        ⟨.symbol .rightParen, 7, 1⟩, ⟨.symbol .leftBrace, 9, 1⟩, ⟨.keyword .return, 11, 6⟩,
        ⟨.symbol .leftParen, 18, 1⟩, ⟨.symbol .leftParen, 19, 1⟩, ⟨.symbol .leftParen, 20, 1⟩]
      ≠ .error (.tooDeep n t) := by
  have hle : 2 ≤ 256 := by decide
  exact ⟨(ofTokens_of_limit_le _ _ hle).1 _ (by decide +kernel),
    (ofTokens_of_limit_le _ _ hle).2.1 _ (by decide +kernel) (by simp),
    (ofTokens_of_limit_le _ _ (Nat.le_refl 10)).2.2 (by decide +kernel)⟩

end Program

end InfixCompiler
