import InfixCompiler.Proofs.Reading.Outcome

/-!
# Expressions of any least level

What is known of expressions so far is about the levels of the grammar. By itself an expression can
be read for the levels above them too, where it is an operand with nothing behind it. This is about
all of them: an expression that was read took a lexeme, is no higher than the limit and left the
depth as it was.

The recursion is on the room that is left at a depth. Since the depth does not change between the
parts of an expression, the room is always what the limit leaves (`run_expression_of_lt`), and
nothing after this file is about rooms.
-/

namespace InfixCompiler

/-- The cursor inside of one more expression. -/
def Cursor.deeper (c : Cursor) : Cursor := { c with depth := c.depth + 1 }

/-- A lexeme that is no end is gone from what is ahead. -/
theorem Cursor.length_advance_lt {c : Cursor} (h : c.kind ≠ .endOfSource) :
    c.advance.ahead.length < c.ahead.length := by
  rw [ahead_eq_cons h]
  exact Nat.lt_succ_self _

namespace Parser

variable {limit room : Nat}

/-- `e` is within the limit, and `c'` is behind its lexemes at the depth of `c`. -/
structure Leaves (limit : Nat) (c : Cursor) (e : Expression) (c' : Cursor) : Prop where
  /-- The depth is as it was. -/
  depth : c'.depth = c.depth
  /-- The expression is not too high. -/
  height : e.height ≤ limit
  /-- Lexemes were taken. -/
  length_lt : c'.ahead.length < c.ahead.length

theorem operand_leaves {inner : Parser Expression}
    (hi : ∀ c, inner.Ensures c (Leaves limit c) fun _ _ ↦ True) (c : Cursor) :
    (operand inner).Ensures c (Leaves limit c) fun _ _ ↦ True := by
  rw [operand]
  refine .get_bind ?_
  dsimp only
  split
  · next hk =>
    have hlt := Cursor.length_advance_lt (c := c) (by rw [Cursor.kind_eq]; simp [hk])
    refine .advance_bind ?_
    split
    · exact .pure ⟨rfl, Nat.zero_le _, hlt⟩
    · exact .intro_error (run_throw _ _) trivial
  · next hk =>
    have hlt := Cursor.length_advance_lt (c := c) (by rw [Cursor.kind_eq]; simp [hk])
    refine .advance_bind (.bind (hi c.advance) (fun e c₁ he ↦ ?_) fun _ _ h ↦ h)
    refine .bind (expect_ensures (by simp) _ c₁) (fun _ c₂ hl ↦ ?_) fun _ _ _ ↦ trivial
    obtain ⟨t, rest, hrest, rfl, -⟩ := hl
    have hrest_lt : rest.length < c₁.ahead.length := hrest ▸ Nat.lt_succ_self _
    exact .pure ⟨he.depth, he.height, hrest_lt.trans (he.length_lt.trans hlt)⟩
  · exact .intro_error (run_unexpected _ _) trivial
  · split
    · exact .intro_error (run_unexpected _ _) trivial
    · exact .intro_error (run_unexpected _ _) trivial

theorem climb_leaves {right : Precedence → Parser Expression}
    (hright : ∀ level c, (right level).Ensures c (Leaves limit c) fun _ _ ↦ True)
    (least : Precedence) {left : Expression} (hleft : left.height ≤ limit) (c : Cursor) :
    (climb limit right least left).Ensures c
      (fun e c' ↦ c'.depth = c.depth ∧ e.height ≤ limit ∧ c'.ahead.length ≤ c.ahead.length)
      fun _ _ ↦ True := by
  induction hm : limit - left.height using Nat.strongRecOn generalizing left c with
  | ind m ih =>
  rw [climb]
  refine .get_bind ?_
  split
  · exact .pure ⟨rfl, hleft, le_rfl⟩
  · exact .intro_error (run_unexpected _ _) trivial
  next level hop =>
  have hlt := Cursor.length_advance_lt (isOperator_of_continuation hop).1.ne_endOfSource
  refine .advance_bind (.bind (hright _ c.advance) (fun e c₁ he ↦ ?_) fun _ _ h ↦ h)
  split
  · next hbound =>
    have hheight : (Expression.binary left c.current.token e).height ≤ limit := hbound
    have hrest := ih _ (by rw [Expression.height]; omega) hheight c₁ rfl
    refine hrest.mono (fun e' c' he' ↦ ⟨he'.1.trans he.depth, he'.2.1, ?_⟩) fun _ _ h ↦ h
    exact he'.2.2.trans (he.length_lt.trans hlt).le
  · exact .intro_error (run_throw _ _) trivial

theorem expressionWithin_leaves (room : Nat) (least : Precedence) (c : Cursor) :
    (expressionWithin limit room least).Ensures c (Leaves limit c) fun _ _ ↦ True := by
  induction room generalizing least c with
  | zero => exact trivial
  | succ room ih =>
    rw [expressionWithin, descend]
    refine .modify_bind (.bind (operand_leaves (ih .none) _) (fun left c₁ hl ↦ ?_) fun _ _ h ↦ h)
    refine .bind (climb_leaves ih least hl.height c₁) (fun e c₂ he ↦ ?_) fun _ _ h ↦ h
    refine .modify_bind (.pure ⟨?_, he.2.1, ?_⟩)
    · -- what was counted on the way in is uncounted again
      show c₂.depth - 1 = c.depth
      rw [he.1, hl.depth]
      exact Nat.add_sub_cancel _ 1
    · exact he.2.2.trans_lt hl.length_lt

theorem expression_leaves (least : Precedence) (c : Cursor) :
    (expression limit least).Ensures c (Leaves limit c) fun _ _ ↦ True :=
  .get_bind (expressionWithin_leaves _ least c)

/-! ## The recursion -/

theorem operand_congr {inner inner' : Parser Expression} {c : Cursor}
    (h : inner.run c.advance = inner'.run c.advance) :
    (operand inner).run c = (operand inner').run c := by
  rw [operand, operand, run_get_bind, run_get_bind]
  dsimp only
  split
  · rfl
  · rw [run_bind_of_ok (run_advance c), run_bind_of_ok (run_advance c), EStateM.run_bind, h,
      EStateM.run_bind]
  · rfl
  · rfl

/-- Readers of right operands need to agree at the depth of the climb alone. -/
theorem climb_congr {right right' : Precedence → Parser Expression} {least : Precedence}
    (hright : ∀ level c, (right level).Ensures c (Leaves limit c) fun _ _ ↦ True)
    {left : Expression} {c : Cursor}
    (h : ∀ level (c' : Cursor), c'.depth = c.depth → (right level).run c' = (right' level).run c') :
    (climb limit right least left).run c = (climb limit right' least left).run c := by
  induction hm : limit - left.height using Nat.strongRecOn generalizing left c with
  | ind m ih =>
  rw [climb, climb, run_get_bind, run_get_bind]
  split
  · rfl
  · rfl
  next level hop =>
  rw [run_bind_of_ok (run_advance c), run_bind_of_ok (run_advance c), EStateM.run_bind,
    EStateM.run_bind, ← h level.tighter c.advance rfl]
  cases hrun : (right level.tighter).run c.advance with
  | error f c₁ => rfl
  | ok e c₁ =>
    have hdepth : c₁.depth = c.depth := ((hright level.tighter c.advance).of_run_ok hrun).depth
    dsimp only
    split
    · exact ih _ (by rw [Expression.height]; omega) (fun level c' hc' ↦
        h level c' (hc'.trans hdepth)) rfl
    · rfl

/-- At the limit no expression is read any more, and the depth is counted before that is found. -/
theorem run_expression_of_le {least : Precedence} {c : Cursor} (h : limit ≤ c.depth) :
    (expression limit least).run c = .error (.tooDeep limit c.current.token) c.deeper := by
  rw [expression, run_get_bind, Nat.sub_eq_zero_of_le h]
  rfl

/-- The operand of an expression and the operators behind it. -/
def operators (limit : Nat) (least : Precedence) : Parser Expression :=
  operand (expression limit .none) >>= climb limit (expression limit) least

/-- Below the limit an expression is its operand and the operators behind it, all of which is read
one level deeper. -/
theorem run_expression_of_lt {least : Precedence} {c : Cursor} (h : c.depth < limit) :
    (expression limit least).run c
      = (operators limit least >>= fun e ↦ ascend >>= fun _ ↦ pure e).run c.deeper := by
  obtain ⟨room, hroom⟩ : ∃ room, limit - c.depth = room + 1 := ⟨limit - c.depth - 1, by omega⟩
  have hinner (least : Precedence) (c' : Cursor) (hc' : c'.depth = c.depth + 1) :
      (expressionWithin limit room least).run c' = (expression limit least).run c' := by
    rw [expression, run_get_bind, hc', show limit - (c.depth + 1) = room by omega]
  have hoperators : (operand (expressionWithin limit room .none) >>=
      climb limit (expressionWithin limit room) least).run c.deeper
        = (operators limit least).run c.deeper := by
    rw [operators, EStateM.run_bind, EStateM.run_bind,
      operand_congr (hinner .none c.deeper.advance rfl)]
    cases hrun : (operand (expression limit .none)).run c.deeper with
    | error f c₁ => rfl
    | ok left c₁ =>
      have hdepth : c₁.depth = c.depth + 1 :=
        ((operand_leaves (expression_leaves .none) c.deeper).of_run_ok hrun).depth
      exact climb_congr (expressionWithin_leaves room) fun level c' hc' ↦
        hinner level c' (hc'.trans hdepth)
  have hbody : (expressionWithin limit (room + 1) least) = (descend >>= fun _ ↦
      (operand (expressionWithin limit room .none) >>=
        climb limit (expressionWithin limit room) least) >>= fun e ↦
      ascend >>= fun _ ↦ pure e) := by
    rw [expressionWithin]
    simp only [bind_assoc]
  have hdescend : descend.run c = .ok ⟨⟩ c.deeper := rfl
  rw [expression, run_get_bind, hroom, hbody, run_bind_of_ok hdescend, EStateM.run_bind,
    hoperators, EStateM.run_bind]

end Parser

end InfixCompiler
