import InfixCompiler.Proofs.Reading.Depth

/-!
# Readers come to the first end and no further

Among made-up tokens there may be ends before the last one, and the cursor can be moved over them.
Readers never do that. They take no end, and what is behind the first one they do not see, not even
with their one lexeme of lookahead: it may be cut off.

`Cursor.cut` cuts it off, so that the first end is the last lexeme. `Parser.Halts` says of a reader
that its run from the cut cursor is the cut of its run. That it takes no end is part of the
statement: a cursor behind the end would have another cut.
-/

namespace InfixCompiler

/-- Whether a lexeme is an end. -/
def Lexeme.isEnd (l : Lexeme) : Bool := l.kind = .endOfSource

namespace Cursor

variable (c : Cursor)

/-- The lexemes ahead that come before every end. -/
def beforeEnd : List Lexeme := c.ahead.takeWhile (!·.isEnd)

/-- The first end. -/
def firstEnd : Lexeme := (c.ahead.dropWhile (!·.isEnd)).headD c.last

/-- The cursor with the first end as the last lexeme. -/
def cut : Cursor := ⟨c.beforeEnd, c.firstEnd.token.start, c.firstEnd.token.length, c.depth⟩

@[simp] theorem depth_cut : c.cut.depth = c.depth := rfl

@[simp] theorem ahead_cut : c.cut.ahead = c.beforeEnd := rfl

theorem kind_firstEnd : c.firstEnd.kind = .endOfSource := by
  have hfirst := List.head?_dropWhile_not (!·.isEnd) c.ahead
  rw [firstEnd]
  cases h : c.ahead.dropWhile (!·.isEnd) with
  | nil => rfl
  | cons l ls =>
    rw [h] at hfirst
    simpa [Lexeme.isEnd] using hfirst

theorem token_last_cut : c.cut.last.token = c.firstEnd.token := by
  have hkind : c.firstEnd.token.kind = .endOfSource := c.kind_firstEnd
  rw [last, cut, ← hkind]

variable {c}

theorem isEnd_current_iff : c.current.isEnd = true ↔ c.kind = .endOfSource := by
  rw [Lexeme.isEnd, decide_eq_true_iff, kind_eq]

theorem beforeEnd_of_end (h : c.kind = .endOfSource) : c.beforeEnd = [] := by
  rw [beforeEnd]
  cases hc : c.ahead with
  | nil => rfl
  | cons l ls =>
    rw [← isEnd_current_iff, current_of_ahead_eq_cons hc] at h
    simp [h]

theorem firstEnd_of_end (h : c.kind = .endOfSource) : c.firstEnd = c.current := by
  rw [firstEnd, current]
  cases hc : c.ahead with
  | nil => rfl
  | cons l ls =>
    rw [← isEnd_current_iff, current_of_ahead_eq_cons hc] at h
    simp [h]

theorem beforeEnd_of_ne (h : c.kind ≠ .endOfSource) :
    c.beforeEnd = c.current :: c.advance.beforeEnd := by
  have hcurrent : c.current.isEnd = false := by
    rwa [← Bool.not_eq_true, isEnd_current_iff]
  rw [beforeEnd, ahead_eq_cons h, List.takeWhile_cons, hcurrent]
  rfl

theorem firstEnd_of_ne (h : c.kind ≠ .endOfSource) : c.firstEnd = c.advance.firstEnd := by
  have hcurrent : c.current.isEnd = false := by
    rwa [← Bool.not_eq_true, isEnd_current_iff]
  rw [firstEnd, ahead_eq_cons h, List.dropWhile_cons, hcurrent]
  rfl

/-! ### What is seen at a cut -/

theorem current_cut (h : c.kind ≠ .endOfSource) : c.cut.current = c.current := by
  rw [current, ahead_cut, beforeEnd_of_ne h]
  rfl

/-- At an end the lexemes may have different texts, but the token is the same. -/
theorem token_current_cut (c : Cursor) : c.cut.current.token = c.current.token := by
  by_cases h : c.kind = .endOfSource
  · rw [current, ahead_cut, beforeEnd_of_end h, List.headD_nil, token_last_cut, firstEnd_of_end h]
  · rw [current_cut h]

@[simp] theorem kind_cut (c : Cursor) : c.cut.kind = c.kind :=
  congrArg Token.kind c.token_current_cut

@[simp] theorem atEnd_cut (c : Cursor) : c.cut.atEnd = c.atEnd := by
  rw [atEnd, atEnd, kind_cut]

theorem advance_cut (h : c.kind ≠ .endOfSource) : c.cut.advance = c.advance.cut := by
  rw [cut, cut, advance, beforeEnd_of_ne h, firstEnd_of_ne h]
  rfl

/-- Before an end the lookahead sees the end at most. -/
theorem nextKind?_cut (h : c.kind ≠ .endOfSource) : c.cut.nextKind? = c.nextKind? := by
  have hnext (c : Cursor) (hc : c.kind ≠ .endOfSource) : c.nextKind? = some c.advance.kind := by
    rw [nextKind?, ahead_eq_cons hc]
    cases hls : c.ahead.tail with
    | nil => rw [kind_of_ahead_eq_nil hls]
    | cons l ls => rw [kind, current_of_ahead_eq_cons (c := c.advance) hls]
  rw [hnext c h, hnext c.cut (by rwa [kind_cut]), advance_cut h, kind_cut]

end Cursor

/-! ## Moves -/

/-- From `c` to `c'` lexemes were taken, and none of them is an end. -/
structure Cursor.Moves (taken : List Lexeme) (c c' : Cursor) : Prop where
  /-- The lexemes that were taken are those that are not ahead any more. -/
  ahead : c.ahead = taken ++ c'.ahead
  /-- None of them is an end. -/
  noEnd : ∀ l ∈ taken, l.kind ≠ .endOfSource
  /-- The end is the same one. -/
  last : c'.last = c.last

namespace Cursor.Moves

variable {c c₁ c' : Cursor} {taken taken' : List Lexeme}

theorem refl (c : Cursor) : Moves [] c c := ⟨rfl, by simp, rfl⟩

theorem trans (h : Moves taken c c₁) (h' : Moves taken' c₁ c') : Moves (taken ++ taken') c c' := by
  refine ⟨?_, List.forall_mem_append.mpr ⟨h.noEnd, h'.noEnd⟩, h'.last.trans h.last⟩
  rw [h.ahead, h'.ahead, List.append_assoc]

theorem advance (h : c.kind ≠ .endOfSource) : Moves [c.current] c c.advance :=
  ⟨ahead_eq_cons h, List.forall_mem_singleton.mpr h, rfl⟩

theorem beforeEnd (h : Moves taken c c') : c.beforeEnd = taken ++ c'.beforeEnd := by
  have htaken : ∀ l ∈ taken, (!l.isEnd) = true := by
    intro l hl
    simpa [Lexeme.isEnd] using h.noEnd l hl
  rw [Cursor.beforeEnd, h.ahead, List.takeWhile_append_of_pos htaken]
  rfl

end Cursor.Moves

namespace Parser

variable {α β : Type} {limit room : Nat}

/-! ## Readers that halt at the first end -/

/-- The run of `p` from `c` takes no end, and the run from the cut cursor is its cut. -/
def Halts (p : Parser α) (c : Cursor) : Prop :=
  p.Ensures c (fun a c' ↦ p.run c.cut = .ok a c'.cut ∧ ∃ taken, Cursor.Moves taken c c')
    fun f c' ↦ p.run c.cut = .error f c'.cut ∧ ∃ taken, Cursor.Moves taken c c'

namespace Halts

variable {p : Parser α} {k : α → Parser β} {c : Cursor}

theorem pure (a : α) : Halts (Pure.pure a : Parser α) c := ⟨rfl, _, .refl c⟩

theorem throw (f : ParseFault) : Halts (MonadExcept.throw f : Parser α) c := ⟨rfl, _, .refl c⟩

theorem throw_current (fault : Token → ParseFault) :
    Halts (get >>= fun c ↦ MonadExcept.throw (fault c.current.token) : Parser α) c := by
  refine .intro_error (run_throw _ _) ⟨?_, _, .refl c⟩
  rw [run_get_bind, Cursor.token_current_cut]
  rfl

theorem unexpected (e : Expectation) : Halts (Parser.unexpected e : Parser α) c :=
  throw_current (.unexpected e)

theorem modify_depth (g : Nat → Nat) :
    Halts (modify fun c ↦ { c with depth := g c.depth } : Parser Unit) c :=
  ⟨rfl, [], rfl, by simp, rfl⟩

theorem advance (h : c.kind ≠ .endOfSource) : Halts Parser.advance c := by
  refine .intro_ok (run_advance c) ⟨?_, _, .advance h⟩
  rw [run_advance, Cursor.current_cut h, Cursor.advance_cut h]

theorem bind (hp : Halts p c) (hk : ∀ a c', p.run c = .ok a c' → Halts (k a) c') :
    Halts (p >>= k) c := by
  rw [Halts, Ensures, EStateM.run_bind]
  cases hrun : p.run c with
  | error f c' =>
    obtain ⟨hcut, hmoves⟩ := hp.of_run_error hrun
    exact ⟨by rw [EStateM.run_bind, hcut], hmoves⟩
  | ok a c' =>
    obtain ⟨hcut, taken, hmoves⟩ := hp.of_run_ok hrun
    -- what the second reader ensures is seen from where the first one began
    have hcut' : (p >>= k).run c.cut = (k a).run c'.cut := run_bind_of_ok hcut
    refine (hk a c' hrun).mono (fun b c'' h ↦ ?_) fun f c'' h ↦ ?_
    · exact ⟨hcut'.trans h.1, h.2.elim fun taken' h' ↦ ⟨_, hmoves.trans h'⟩⟩
    · exact ⟨hcut'.trans h.1, h.2.elim fun taken' h' ↦ ⟨_, hmoves.trans h'⟩⟩

/-- The cursor is read for what is the same at the cut. -/
theorem get_bind {k : Cursor → Parser β} (hk : (k c.cut).run c.cut = (k c).run c.cut)
    (h : Halts (k c) c) : Halts (get >>= k) c := by
  rw [Halts, run_get_bind, hk]
  exact h

theorem map {g : α → β} (h : Halts p c) : Halts (g <$> p) c := by
  rw [map_eq_pure_bind]
  exact h.bind fun _ _ _ ↦ .pure _

theorem expect {k : Kind} (hk : k ≠ .endOfSource) (context : String) :
    Halts (Parser.expect k context) c := by
  rw [Parser.expect]
  refine .get_bind (by rw [Cursor.kind_cut]) ?_
  split
  · next h => exact .advance (h ▸ hk)
  · exact .unexpected _

theorem collectAll {more : Cursor → Bool} (hp : Consumes more p)
    (hmore : ∀ c : Cursor, more c.cut = more c) (h : ∀ c, more c = true → Halts p c) (c : Cursor) :
    Halts (Parser.collectAll more p) c := by
  induction hm : c.ahead.length using Nat.strongRecOn generalizing c with
  | ind m ih =>
  have hbody : Halts (if more c then p >>= fun first ↦ Parser.collectAll more p >>= fun others ↦
      Pure.pure (first :: others) else Pure.pure []) c := by
    cases hc : more c with
    | false => exact .pure []
    | true =>
      refine .bind (h c hc) fun a c' hrun ↦ ?_
      exact .bind (ih _ (hm ▸ hp c a c' hc hrun) c' rfl) fun as c'' _ ↦ .pure (a :: as)
  rw [Halts, Ensures, run_collectAll hp, run_collectAll hp, hmore]
  exact hbody

end Halts

/-! ## Expressions -/

theorem operand_halts {inner : Parser Expression} (h : ∀ c, Halts inner c) (c : Cursor) :
    Halts (operand inner) c := by
  by_cases hend : c.kind = .endOfSource
  · -- an end is reported, and its text makes no difference to that
    have hrun (c : Cursor) (hc : c.kind = .endOfSource) : (operand inner).run c
        = (unexpected .operandBeforeEnd : Parser Expression).run c := by
      rw [operand, run_get_bind]
      dsimp only
      rw [show c.current.kind = .endOfSource from hc]
    rw [Halts, Ensures, hrun c hend, hrun c.cut (by rwa [Cursor.kind_cut])]
    exact Halts.unexpected _
  rw [operand]
  refine .get_bind (by rw [Cursor.current_cut hend]) ?_
  dsimp only
  split
  · refine .bind (.advance hend) fun _ c' _ ↦ ?_
    split
    · exact .pure _
    · exact .throw _
  · refine .bind (.advance hend) fun _ c' _ ↦ ?_
    exact .bind (h c') fun e c' _ ↦ .bind (.expect (by simp) _) fun _ _ _ ↦ .pure e
  · exact .unexpected _
  · split
    · exact .unexpected _
    · exact .unexpected _

theorem climb_halts {right : Precedence → Parser Expression}
    (hright : ∀ level c, Halts (right level) c) (least : Precedence) (left : Expression)
    (c : Cursor) : Halts (climb limit right least left) c := by
  induction hm : limit - left.height using Nat.strongRecOn generalizing left c with
  | ind m ih =>
  rw [climb]
  refine .get_bind (by rw [Cursor.kind_cut]) ?_
  split
  · exact .pure left
  · exact .unexpected _
  · next level hop =>
    have hkind := (isOperator_of_continuation hop).1.ne_endOfSource
    refine .bind (.advance hkind) fun operator c' _ ↦ .bind (hright _ c') fun e c'' _ ↦ ?_
    split
    · exact ih _ (by rw [Expression.height]; omega) _ c'' rfl
    · exact .throw _

theorem expressionWithin_halts (room : Nat) (least : Precedence) (c : Cursor) :
    Halts (expressionWithin limit room least) c := by
  induction room generalizing least c with
  | zero =>
    rw [expressionWithin]
    exact .bind (.modify_depth (· + 1)) fun _ c' _ ↦ .throw_current (.tooDeep limit)
  | succ room ih =>
    rw [expressionWithin]
    refine .bind (.modify_depth (· + 1)) fun _ c' _ ↦ ?_
    refine .bind (operand_halts (ih .none) c') fun left c' _ ↦ ?_
    refine .bind (climb_halts ih least left c') fun e c' _ ↦ ?_
    exact .bind (.modify_depth (· - 1)) fun _ _ _ ↦ .pure e

theorem expression_halts (least : Precedence) (c : Cursor) : Halts (expression limit least) c := by
  rw [expression]
  exact .get_bind (by rw [Cursor.depth_cut]) (expressionWithin_halts _ least c)

/-! ## Statements and declarations -/

theorem returned_halts (c : Cursor) : Halts (returned limit) c := by
  rw [returned]
  refine .bind (.expect (by simp) _) fun _ c' _ ↦ .bind (expression_halts _ c') fun e c' _ ↦ ?_
  exact .bind (.expect (by simp) _) fun _ _ _ ↦ .pure e

theorem statement_halts (c : Cursor) : Halts (statement limit) c := by
  rw [statement]
  refine .get_bind ?_ ?_
  · by_cases hend : c.kind = .endOfSource
    · simp [hend]
    · rw [Cursor.kind_cut, Cursor.nextKind?_cut hend]
  · split
    · exact returned_halts c
    · split
      · exact .unexpected _
      · exact .unexpected _

theorem blockItem_halts (opening : Lexeme) (c : Cursor) : Halts (blockItem limit opening) c := by
  rw [blockItem]
  refine .get_bind (by rw [Cursor.atEnd_cut]) ?_
  split
  · exact .throw _
  · exact statement_halts c

theorem block_halts (c : Cursor) : Halts (block limit) c := by
  rw [block_eq]
  refine .bind (.expect (by simp) _) fun opening c' _ ↦ ?_
  refine .bind (.collectAll (consumes_blockItem opening) (fun c ↦ ?_)
    (fun c _ ↦ blockItem_halts opening c) c') fun es c'' hrun ↦ ?_
  · rw [blockGoesOn, blockGoesOn, Cursor.kind_cut]
  · have hkind := ((body_ensures opening c').of_run_ok hrun).2
    exact .bind (.advance (hkind.trans_ne (by simp))) fun _ _ _ ↦ .pure es

theorem parameter_halts (c : Cursor) : Halts parameter c := by
  rw [parameter]
  refine .bind (.expect (by simp) _) fun name c' _ ↦ .get_bind (by rw [Cursor.kind_cut]) ?_
  split
  · exact .pure _
  · exact .bind (.expect (by simp) _) fun _ _ _ ↦ .pure _

theorem function_halts (c : Cursor) : Halts (function limit) c := by
  rw [function_eq]
  refine .bind (.expect (by simp) _) fun _ c' _ ↦ .bind (.expect (by simp) _) fun name c' _ ↦
    .bind (.expect (by simp) _) fun _ c' _ ↦ ?_
  refine .bind (.collectAll consumes_parameter (fun c ↦ ?_) (fun c _ ↦ parameter_halts c) c')
    fun params c'' hrun ↦ ?_
  · rw [parametersGoOn, parametersGoOn, Cursor.kind_cut]
  · have hkind := ((parameters_ensures c').of_run_ok hrun).2
    refine .bind (.advance (hkind.trans_ne (by simp))) fun _ c' _ ↦ ?_
    exact .bind (block_halts c') fun returns _ _ ↦ .pure _

theorem programItem_halts (c : Cursor) : Halts (programItem limit) c := by
  rw [programItem]
  refine .get_bind (by rw [Cursor.kind_cut]) ?_
  split
  · exact function_halts c
  · exact .unexpected _

theorem program_halts (c : Cursor) : Halts (program limit) c := by
  rw [program_eq]
  refine .bind (.collectAll consumes_programItem (fun c ↦ ?_) (fun c _ ↦ programItem_halts c) c)
    fun _ _ _ ↦ .pure _
  rw [programGoesOn, programGoesOn, Cursor.atEnd_cut]

end Parser

end InfixCompiler
