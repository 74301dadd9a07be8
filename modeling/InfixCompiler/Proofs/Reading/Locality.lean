import InfixCompiler.Proofs.Reading.Outcome

/-!
# Readers look no further than the current lexeme

What a reader does is settled by the lexemes that it takes and the one it stops at. Whatever comes
after them may be replaced, and a higher limit put in the place of the limit: the run stays what it
was, value, fault and cursor. There are two exceptions. A fault of the depth limit may be none under
a higher one, and which of two faults it is that a statement begins badly depends on one more
lexeme.

`Parser.Mirrors` is a statement about two readers, to be had for a composed reader from its parts.
That the second run stops at a lexeme that the first one stopped at, and not at one of its kind, is
what lets the two runs go on together.
-/

namespace InfixCompiler

namespace Cursor

variable {c c' : Cursor} {seen r : List Lexeme}

theorem kind_seek_of_current (h : (c.seek r).current = c.current) : (c.seek r).kind = c.kind :=
  congrArg Lexeme.kind h

/-- Cursors with the same lexemes before a common one have the same current lexeme. -/
theorem current_seek_append (hc : c.ahead = seen ++ c'.ahead) (hlast : c'.last = c.last)
    (hr : (c'.seek r).current = c'.current) : (c.seek (seen ++ r)).current = c.current := by
  rcases seen with _ | ⟨l, seen⟩
  · rw [current, current, last_seek, hlast] at hr
    rw [current, current, last_seek, hc]
    exact hr
  · rw [List.cons_append] at hc
    rw [current_of_ahead_eq_cons hc]
    rfl

end Cursor

namespace Parser

variable {α β : Type} {Exempt : ParseFault → Prop}

/-- The result of a run from `c` is that of `run` on all lexemes that are the same up to the one
that the run stopped at. Faults that are exempt from this may be anything. -/
def Determines (Exempt : ParseFault → Prop) (c : Cursor)
    (run : List Lexeme → EStateM.Result ParseFault Cursor α) :
    EStateM.Result ParseFault Cursor α → Prop
  | .ok a c' => ∃ seen, c.ahead = seen ++ c'.ahead ∧ c'.last = c.last ∧
      ∀ r, (c'.seek r).current = c'.current → run (seen ++ r) = .ok a (c'.seek r)
  | .error f c' => ¬ Exempt f → ∃ seen, c.ahead = seen ++ c'.ahead ∧ c'.last = c.last ∧
      ∀ r, (c'.seek r).current = c'.current → ∃ f', run (seen ++ r) = .error f' (c'.seek r) ∧
        ((c'.seek r).nextKind? = c'.nextKind? → f' = f)

/-- Lexemes in front that are taken first. -/
theorem Determines.prepend {c c' : Cursor} {seen : List Lexeme}
    {run run' : List Lexeme → EStateM.Result ParseFault Cursor α}
    {result : EStateM.Result ParseFault Cursor α} (h : Determines Exempt c' run' result)
    (hc : c.ahead = seen ++ c'.ahead) (hlast : c'.last = c.last)
    (hrun : ∀ r, (c'.seek r).current = c'.current → run (seen ++ r) = run' r) :
    Determines Exempt c run result := by
  rcases result with ⟨a, c''⟩ | ⟨f, c''⟩
  · obtain ⟨seen', hc', hlast', hq⟩ := h
    refine ⟨seen ++ seen', by rw [hc, hc', List.append_assoc], hlast'.trans hlast, ?_⟩
    intro r hr
    rw [List.append_assoc, hrun _ (Cursor.current_seek_append hc' hlast' hr), hq r hr]
  · intro hf
    obtain ⟨seen', hc', hlast', hq⟩ := h hf
    refine ⟨seen ++ seen', by rw [hc, hc', List.append_assoc], hlast'.trans hlast, ?_⟩
    intro r hr
    rw [List.append_assoc, hrun _ (Cursor.current_seek_append hc' hlast' hr)]
    exact hq r hr

theorem Determines.congr {c : Cursor}
    {run run' : List Lexeme → EStateM.Result ParseFault Cursor α}
    {result : EStateM.Result ParseFault Cursor α} (h : Determines Exempt c run' result)
    (hrun : ∀ r, (c.seek r).current = c.current → run r = run' r) :
    Determines Exempt c run result :=
  h.prepend (List.nil_append _).symm rfl hrun

/-- What `p` does from `c` is what `q` does on all lexemes that are the same as far as `p` looks. -/
def Mirrors (Exempt : ParseFault → Prop) (p q : Parser α) (c : Cursor) : Prop :=
  Determines Exempt c (fun ls ↦ q.run (c.seek ls)) (p.run c)

namespace Mirrors

variable {p q : Parser α} {k k' : α → Parser β} {c : Cursor}

theorem pure (a : α) : Mirrors Exempt (Pure.pure a : Parser α) (Pure.pure a) c :=
  ⟨[], rfl, rfl, fun _ _ ↦ rfl⟩

theorem throw (f : ParseFault) :
    Mirrors Exempt (MonadExcept.throw f : Parser α) (MonadExcept.throw f) c :=
  fun _ ↦ ⟨[], rfl, rfl, fun _ _ ↦ ⟨f, rfl, fun _ ↦ rfl⟩⟩

/-- A fault that is exempt is mirrored by anything. -/
theorem throw_exempt {f : ParseFault} (hf : Exempt f) (q : Parser α) :
    Mirrors Exempt (MonadExcept.throw f : Parser α) q c :=
  fun h ↦ absurd hf h

theorem unexpected (e : Expectation) :
    Mirrors Exempt (Parser.unexpected e : Parser α) (Parser.unexpected e) c := by
  intro _
  refine ⟨[], rfl, rfl, fun r hr ↦ ⟨.unexpected e c.current.token, ?_, fun _ ↦ rfl⟩⟩
  change (Parser.unexpected e).run (c.seek r) = _
  rw [run_unexpected, hr]

theorem modify_depth (g : Nat → Nat) :
    Mirrors Exempt (modify fun c ↦ { c with depth := g c.depth } : Parser Unit)
      (modify fun c ↦ { c with depth := g c.depth }) c :=
  ⟨[], rfl, rfl, fun _ _ ↦ rfl⟩

theorem advance (h : c.kind ≠ .endOfSource) : Mirrors Exempt Parser.advance Parser.advance c :=
  ⟨[c.current], Cursor.ahead_eq_cons h, rfl, fun _ _ ↦ rfl⟩

theorem bind (hp : Mirrors Exempt p q c)
    (hk : ∀ a c', p.run c = .ok a c' → Mirrors Exempt (k a) (k' a) c') :
    Mirrors Exempt (p >>= k) (q >>= k') c := by
  rw [Mirrors, EStateM.run_bind]
  rw [Mirrors] at hp
  cases hrun : p.run c with
  | ok a c' =>
    rw [hrun] at hp
    obtain ⟨seen, hc, hlast, hq⟩ := hp
    refine (hk a c' hrun).prepend hc hlast fun r hr ↦ ?_
    have hrun' : q.run (c.seek (seen ++ r)) = .ok a (c'.seek r) := hq r hr
    rw [EStateM.run_bind, hrun']
  | error f c' =>
    rw [hrun] at hp
    intro hf
    obtain ⟨seen, hc, hlast, hq⟩ := hp hf
    refine ⟨seen, hc, hlast, ?_⟩
    intro r hr
    obtain ⟨f', hq, hf'⟩ := hq r hr
    have hrun' : q.run (c.seek (seen ++ r)) = .error f' (c'.seek r) := hq
    refine ⟨f', ?_, hf'⟩
    change (q >>= k').run (c.seek (seen ++ r)) = _
    rw [EStateM.run_bind, hrun']

/-- The cursor is read for what the lexemes after the current one make no difference to. -/
theorem get_bind {k k' : Cursor → Parser β}
    (hk : ∀ r, (c.seek r).current = c.current → k' (c.seek r) = k' c)
    (h : Mirrors Exempt (k c) (k' c) c) : Mirrors Exempt (get >>= k) (get >>= k') c := by
  refine Determines.congr h fun r hr ↦ ?_
  rw [run_get_bind, hk r hr]

theorem expect {k : Kind} (hk : k ≠ .endOfSource) (context : String) :
    Mirrors Exempt (Parser.expect k context) (Parser.expect k context) c := by
  rw [Parser.expect]
  refine .get_bind (fun r hr ↦ ?_) ?_
  · rw [Cursor.kind_seek_of_current hr]
  · split
    · next h => exact .advance (h ▸ hk)
    · exact .unexpected _

/-- Loops mirror each other if their items do. -/
theorem collectAll {more : Cursor → Bool} {p q : Parser α} (hp : Consumes more p)
    (hq : Consumes more q)
    (hmore : ∀ (c : Cursor) (r : List Lexeme), (c.seek r).current = c.current →
      more (c.seek r) = more c)
    (h : ∀ c, more c = true → Mirrors Exempt p q c) (c : Cursor) :
    Mirrors Exempt (Parser.collectAll more p) (Parser.collectAll more q) c := by
  induction hm : c.ahead.length using Nat.strongRecOn generalizing c with
  | ind m ih =>
  have hbody : Mirrors Exempt
      (if more c then p >>= fun first ↦ Parser.collectAll more p >>= fun others ↦
        Pure.pure (first :: others) else Pure.pure [])
      (if more c then q >>= fun first ↦ Parser.collectAll more q >>= fun others ↦
        Pure.pure (first :: others) else Pure.pure []) c := by
    cases hc : more c with
    | false => exact .pure []
    | true =>
      refine .bind (h c hc) fun a c' hrun ↦ ?_
      exact .bind (ih _ (hm ▸ hp c a c' hc hrun) c' rfl) fun as c'' _ ↦ .pure (a :: as)
  rw [Mirrors, run_collectAll hp]
  refine Determines.congr hbody fun r hr ↦ ?_
  rw [run_collectAll hq, hmore c r hr]

end Mirrors

/-! ## Expressions -/

/-- The faults that a higher limit may do away with: those of the depth limit. -/
def DepthOnly (limit limit' : Nat) (f : ParseFault) : Prop :=
  limit ≠ limit' ∧ ∃ t, f = .tooDeep limit t

variable {limit limit' room room' : Nat}

theorem operand_mirrors {inner inner' : Parser Expression}
    (h : ∀ c, Mirrors Exempt inner inner' c) (c : Cursor) :
    Mirrors Exempt (operand inner) (operand inner') c := by
  rw [operand, operand]
  refine .get_bind (fun r hr ↦ ?_) ?_
  · dsimp only
    rw [hr]
  dsimp only
  split
  · next hk =>
    refine .bind (.advance (by rw [Cursor.kind_eq]; simp [hk])) fun _ c' _ ↦ ?_
    split
    · exact .pure _
    · exact .throw _
  · next hk =>
    refine .bind (.advance (by rw [Cursor.kind_eq]; simp [hk])) fun _ c' _ ↦ ?_
    exact .bind (h c') fun e c' _ ↦ .bind (.expect (by simp) _) fun _ _ _ ↦ .pure e
  · exact .unexpected _
  · split
    · exact .unexpected _
    · exact .unexpected _

theorem climb_mirrors (hle : limit ≤ limit') {right right' : Precedence → Parser Expression}
    (hright : ∀ level c, Mirrors (DepthOnly limit limit') (right level) (right' level) c)
    (least : Precedence) (left : Expression) (c : Cursor) :
    Mirrors (DepthOnly limit limit') (climb limit right least left)
      (climb limit' right' least left) c := by
  induction hm : limit - left.height using Nat.strongRecOn generalizing left c with
  | ind m ih =>
  rw [climb.eq_1 limit, climb.eq_1 limit']
  refine .get_bind (fun r hr ↦ ?_) ?_
  · rw [Cursor.kind_seek_of_current hr]
  split
  · exact .pure left
  · exact .unexpected _
  · next level hop =>
    have hkind := (isOperator_of_continuation hop).1.ne_endOfSource
    refine .bind (.advance hkind) fun operator c' _ ↦ .bind (hright _ c') fun e c'' _ ↦ ?_
    by_cases hbound : max left.height e.height + 1 ≤ limit
    · rw [dif_pos hbound, dif_pos (by omega)]
      exact ih _ (by rw [Expression.height]; omega) _ c'' rfl
    · rw [dif_neg hbound]
      -- a higher limit may allow the height, and then the runs go on differently
      by_cases heq : limit = limit'
      · subst heq
        rw [dif_neg hbound]
        exact .throw _
      · exact .throw_exempt ⟨heq, _, rfl⟩ _

theorem expressionWithin_mirrors (hle : limit ≤ limit') (hroom : room ≤ room')
    (heq : limit = limit' → room = room') (least : Precedence) (c : Cursor) :
    Mirrors (DepthOnly limit limit') (expressionWithin limit room least)
      (expressionWithin limit' room' least) c := by
  induction room generalizing room' least c with
  | zero =>
    by_cases hlimit : limit = limit'
    · obtain rfl := heq hlimit
      subst hlimit
      rw [expressionWithin]
      refine .bind (.modify_depth (· + 1)) fun _ c' _ ↦ .get_bind (fun r hr ↦ ?_) (.throw _)
      rw [hr]
    · exact fun h ↦ absurd ⟨hlimit, _, rfl⟩ h
  | succ room ih =>
    obtain ⟨room', rfl⟩ : ∃ n, room' = n + 1 := ⟨room' - 1, by omega⟩
    have ih' (least : Precedence) (c : Cursor) :
        Mirrors (DepthOnly limit limit') (expressionWithin limit room least)
          (expressionWithin limit' room' least) c :=
      ih (Nat.le_of_succ_le_succ hroom) (fun h ↦ Nat.succ.inj (heq h)) least c
    rw [expressionWithin, expressionWithin]
    refine .bind (.modify_depth (· + 1)) fun _ c' _ ↦ ?_
    refine .bind (operand_mirrors (ih' .none) c') fun left c' _ ↦ ?_
    refine .bind (climb_mirrors hle ih' least left c') fun e c' _ ↦ ?_
    exact .bind (.modify_depth (· - 1)) fun _ _ _ ↦ .pure e

theorem expression_mirrors (hle : limit ≤ limit') (least : Precedence) (c : Cursor) :
    Mirrors (DepthOnly limit limit') (expression limit least) (expression limit' least) c := by
  rw [expression, expression]
  refine .get_bind (fun r _ ↦ by rw [Cursor.depth_seek]) ?_
  exact expressionWithin_mirrors hle (by omega) (fun h ↦ by rw [h]) least c

/-! ## Statements and functions -/

theorem returned_mirrors (hle : limit ≤ limit') (c : Cursor) :
    Mirrors (DepthOnly limit limit') (returned limit) (returned limit') c := by
  rw [returned, returned]
  refine .bind (.expect (by simp) _) fun _ c' _ ↦ ?_
  refine .bind (expression_mirrors hle _ c') fun e c' _ ↦ ?_
  exact .bind (.expect (by simp) _) fun _ _ _ ↦ .pure e

theorem statement_mirrors (hle : limit ≤ limit') (c : Cursor) :
    Mirrors (DepthOnly limit limit') (statement limit) (statement limit') c := by
  by_cases hreturn : c.kind = .keyword .return
  · rw [Mirrors, run_statement_of_return hreturn]
    refine Determines.congr (returned_mirrors hle c) fun r hr ↦ ?_
    exact run_statement_of_return ((Cursor.kind_seek_of_current hr).trans hreturn)
  · rw [Mirrors, run_statement_of_ne hreturn]
    refine fun _ ↦ ⟨[], rfl, rfl, fun r hr ↦ ⟨_, run_statement_of_ne ?_, fun hnext ↦ ?_⟩⟩
    · exact (Cursor.kind_seek_of_current hr).trans_ne hreturn
    · rw [List.nil_append, hr, hnext, Cursor.kind_seek_of_current hr]

theorem blockItem_mirrors (hle : limit ≤ limit') (opening : Lexeme) (c : Cursor) :
    Mirrors (DepthOnly limit limit') (blockItem limit opening) (blockItem limit' opening) c := by
  rw [blockItem, blockItem]
  refine .get_bind (fun r hr ↦ ?_) ?_
  · rw [Cursor.atEnd, Cursor.atEnd, Cursor.kind_seek_of_current hr]
  · split
    · exact .throw _
    · exact statement_mirrors hle c

theorem block_mirrors (hle : limit ≤ limit') (c : Cursor) :
    Mirrors (DepthOnly limit limit') (block limit) (block limit') c := by
  rw [block_eq, block_eq]
  refine .bind (.expect (by simp) _) fun opening c' _ ↦ ?_
  refine .bind (.collectAll (consumes_blockItem opening) (consumes_blockItem opening)
    (fun c r hr ↦ ?_) (fun c _ ↦ blockItem_mirrors hle opening c) c') fun es c'' hrun ↦ ?_
  · rw [blockGoesOn, blockGoesOn, Cursor.kind_seek_of_current hr]
  · have hkind := ((body_ensures opening c').of_run_ok hrun).2
    exact .bind (.advance (hkind.trans_ne (by simp))) fun _ _ _ ↦ .pure es

theorem parameter_mirrors (c : Cursor) : Mirrors Exempt parameter parameter c := by
  rw [parameter]
  refine .bind (.expect (by simp) _) fun name c' _ ↦ .get_bind (fun r hr ↦ ?_) ?_
  · rw [Cursor.kind_seek_of_current hr]
  · split
    · exact .pure _
    · exact .bind (.expect (by simp) _) fun _ _ _ ↦ .pure _

theorem function_mirrors (hle : limit ≤ limit') (c : Cursor) :
    Mirrors (DepthOnly limit limit') (function limit) (function limit') c := by
  rw [function_eq, function_eq]
  refine .bind (.expect (by simp) _) fun _ c' _ ↦ .bind (.expect (by simp) _) fun name c' _ ↦
    .bind (.expect (by simp) _) fun _ c' _ ↦ ?_
  refine .bind (.collectAll consumes_parameter consumes_parameter (fun c r hr ↦ ?_)
    (fun c _ ↦ parameter_mirrors c) c') fun params c'' hrun ↦ ?_
  · rw [parametersGoOn, parametersGoOn, Cursor.kind_seek_of_current hr]
  · have hkind := ((parameters_ensures c').of_run_ok hrun).2
    refine .bind (.advance (hkind.trans_ne (by simp))) fun _ c' _ ↦ ?_
    exact .bind (block_mirrors hle c') fun returns _ _ ↦ .pure _

theorem programItem_mirrors (hle : limit ≤ limit') (c : Cursor) :
    Mirrors (DepthOnly limit limit') (programItem limit) (programItem limit') c := by
  rw [programItem, programItem]
  refine .get_bind (fun r hr ↦ ?_) ?_
  · rw [Cursor.kind_seek_of_current hr]
  · split
    · exact function_mirrors hle c
    · exact .unexpected _

/-- **Programs at two limits.** What a program is read as, or which fault it has, depends on nothing
behind the lexeme where the reading ends, and not on the limit unless that was the fault. -/
theorem program_mirrors (hle : limit ≤ limit') (c : Cursor) :
    Mirrors (DepthOnly limit limit') (program limit) (program limit') c := by
  rw [program_eq, program_eq]
  refine .bind (.collectAll consumes_programItem consumes_programItem (fun c r hr ↦ ?_)
    (fun c _ ↦ programItem_mirrors hle c) c) fun _ _ _ ↦ .pure _
  rw [programGoesOn, programGoesOn, Cursor.atEnd, Cursor.atEnd, Cursor.kind_seek_of_current hr]

end Parser

end InfixCompiler
