import InfixCompiler.Proofs.Grammar
import InfixCompiler.Proofs.Reading

/-!
# What readers read, and where they stop

For each reader of a part of a program one statement says what its run ensures. A value comes with a
derivation that spells what was taken (`Takes`). A fault comes with what was taken before it, and
that can be completed to a part by the rules (`Stuck`): a reader never takes a lexeme too many. The
fault of a depth limit is left out there, as its place depends on the limit.

The cases follow the readers. In a climb the invariant is about the phrase on the left: it may stand
to the left of the operator ahead, whatever level that has, as the right operands before it have
taken all that binds more tightly.
-/

namespace InfixCompiler

open Grammar

/-! ## Faults -/

/-- Whether a fault is about the order of lexemes, and not about depths or numbers. -/
def ParseFault.IsSyntactic : ParseFault → Prop
  | .unexpected .. | .unclosedBlock _ => True
  | .tooDeep .. | .badNumber _ => False

/-- The kinds after which a block is between two statements. -/
def EndsPart (k : Kind) : Prop := k = .symbol .leftBrace ∨ k = .symbol .semicolon

theorem Grammar.IsOperator.ne_endOfSource {n : Nat} {k : Kind} (h : IsOperator n k) :
    k ≠ .endOfSource := by
  obtain ⟨s, -, rfl⟩ := h
  simp

theorem Grammar.IsOperator.not_endsPart {n : Nat} {k : Kind} (h : IsOperator n k) :
    ¬ EndsPart k := by
  rintro (rfl | rfl) <;> simp [isOperator_iff, Precedence.betweenOperands, Precedence.level] at h

theorem Grammar.Phrase.not_endsPart_of_mem {n : Nat} {d : Phrase} (h : d.AtLevel n) {l : Lexeme}
    (hl : l ∈ d.lexemes) : ¬ EndsPart l.kind := by
  induction h with
  | number literal =>
    obtain rfl := List.mem_singleton.mp hl
    simp [EndsPart, literal.2]
  | group opening closing _ ih =>
    simp only [lexemes, List.mem_cons, List.mem_append, List.not_mem_nil, or_false] at hl
    rcases hl with rfl | hl | rfl
    · simp [EndsPart, opening.2]
    · exact ih hl
    · simp [EndsPart, closing.2]
  | binary ho _ _ ihl ihr =>
    simp only [lexemes, List.mem_cons, List.mem_append] at hl
    rcases hl with hl | rfl | hl
    · exact ihl hl
    · exact ho.not_endsPart
    · exact ihr hl
  | looser _ ih => exact ih hl

/-- What a fault at the cursor `c`, with `seen` taken before it, points at. What was not expected is
the current lexeme; it is the end only where a block is not between two statements. A block that is
open is open at the end, after its last statement. -/
def Blames (seen : List Lexeme) (c : Cursor) : ParseFault → Prop
  | .unexpected _ t =>
    t = c.current.token ∧ (c.kind = .endOfSource → ∀ l ∈ seen.getLast?, ¬ EndsPart l.kind)
  | .unclosedBlock t =>
    c.kind = .endOfSource ∧ ∃ (front : List Lexeme) (brace : Terminal (.symbol .leftBrace))
      (body : List Statement),
        seen = front ++ brace.1 :: body.flatMap Statement.lexemes ∧ t = brace.1.token
  | .tooDeep _ _ => True
  | .badNumber t => ∃ l ∈ seen, l.token = t ∧ ¬ Readable l

/-- From `c` a fault was found at `c'`, and what was taken can be completed to a word of `L`. -/
def Stuck (L : List Lexeme → Prop) (c : Cursor) (f : ParseFault) (c' : Cursor) : Prop :=
  ∃ seen, c.ahead = seen ++ c'.ahead ∧ c'.last = c.last ∧ Blames seen c' f ∧
    (f.IsSyntactic → ∃ rest, L (seen ++ rest))

/-- From `c` the value `a` of a derivation was read, and `c'` is after its lexemes. -/
def Takes {D α : Type} (lexemes : D → List Lexeme) (value : D → α) (Good : D → Prop) (c : Cursor)
    (a : α) (c' : Cursor) : Prop :=
  ∃ d rest, Good d ∧ c.ahead = lexemes d ++ rest ∧ c' = c.seek rest ∧ a = value d

theorem Takes.length_lt {D α : Type} {lexemes : D → List Lexeme} {value : D → α} {Good : D → Prop}
    {c c' : Cursor} {a : α} (h : Takes lexemes value Good c a c') (hne : ∀ d, lexemes d ≠ []) :
    c'.ahead.length < c.ahead.length := by
  obtain ⟨d, rest, _, hc, rfl, _⟩ := h
  have := List.length_pos_iff.mpr (hne d)
  rw [hc, List.length_append, Cursor.ahead_seek]
  omega

namespace Stuck

variable {L L' : List Lexeme → Prop} {c c₁ c' : Cursor} {f : ParseFault}

/-- The current lexeme can not stand where something of `L` is to begin. -/
theorem unexpected (e : Expectation) (h : ∃ w, L w) :
    Stuck L c (.unexpected e c.current.token) c :=
  ⟨[], rfl, rfl, ⟨rfl, fun _ l hl ↦ by simp at hl⟩, fun _ ↦ h⟩

/-- A part that is stuck makes the whole stuck. Where the part begins at the end of the source,
a block must not be between two statements. -/
theorem prepend {pre : List Lexeme} (h : Stuck L c₁ f c') (hc : c.ahead = pre ++ c₁.ahead)
    (hlast : c₁.last = c.last)
    (hpre : c₁.kind = .endOfSource → ∀ l ∈ pre.getLast?, ¬ EndsPart l.kind)
    (hL : ∀ w, L w → ∃ rest, L' (pre ++ (w ++ rest))) : Stuck L' c f c' := by
  obtain ⟨seen, hseen, hlast', hblames, hviable⟩ := h
  refine ⟨pre ++ seen, by rw [hc, hseen, List.append_assoc], hlast'.trans hlast, ?_, ?_⟩
  · cases f with
    | unexpected e t =>
      refine ⟨hblames.1, ?_⟩
      intro hend l hl
      cases seen with
      | nil =>
        -- the part is stuck where it begins, so what is last was taken before it
        rw [List.append_nil] at hl
        have hkind : c₁.kind = c'.kind := by
          rw [Cursor.kind, Cursor.kind, Cursor.current, Cursor.current, hseen, hlast']
          rfl
        exact hpre (hkind.trans hend) l hl
      | cons x xs =>
        rw [List.getLast?_append_cons] at hl
        exact hblames.2 hend l hl
    | unclosedBlock t =>
      obtain ⟨hend, front, brace, body, rfl, ht⟩ := hblames
      exact ⟨hend, pre ++ front, brace, body, by rw [List.append_assoc], ht⟩
    | tooDeep => trivial
    | badNumber t =>
      obtain ⟨l, hl, ht⟩ := hblames
      exact ⟨l, List.mem_append_right _ hl, ht⟩
  · intro hf
    obtain ⟨rest, hw⟩ := hviable hf
    obtain ⟨rest', hw'⟩ := hL _ hw
    exact ⟨rest ++ rest', by rwa [List.append_assoc] at hw' ⊢⟩

theorem prepend_of_ne {pre : List Lexeme} (h : Stuck L c₁ f c') (hc : c.ahead = pre ++ c₁.ahead)
    (hlast : c₁.last = c.last) (hkind : c₁.kind ≠ .endOfSource)
    (hL : ∀ w, L w → ∃ rest, L' (pre ++ (w ++ rest))) : Stuck L' c f c' :=
  h.prepend hc hlast (fun hend ↦ absurd hend hkind) hL

/-- A part that is stuck makes all stuck that can begin with it. -/
theorem widen (h : Stuck L c f c') (hL : ∀ w, L w → ∃ rest, L' (w ++ rest)) : Stuck L' c f c' :=
  h.prepend (List.nil_append _).symm rfl (fun _ l hl ↦ by simp at hl) hL

end Stuck

theorem not_endsPart_of_getLast? {l : Lexeme} (h : ¬ EndsPart l.kind) (pre : List Lexeme) :
    ∀ l' ∈ (pre ++ [l]).getLast?, ¬ EndsPart l'.kind := by
  intro l' hl'
  rw [List.getLast?_concat] at hl'
  obtain rfl := Option.mem_some_iff.mp hl'
  exact h

namespace Parser

theorem ahead_eq_terminal {k : Kind} (hk : k ≠ .endOfSource) {c : Cursor} (h : c.kind = k) :
    ∃ (t : Terminal k) (rest : List Lexeme),
      c.ahead = t.1 :: rest ∧ c.current = t.1 ∧ c.advance = c.seek rest :=
  ⟨⟨c.current, h⟩, c.ahead.tail, Cursor.ahead_eq_cons (h ▸ hk), rfl, rfl⟩

/-- A terminal is taken if it is there. -/
theorem expect_ensures {k : Kind} (hk : k ≠ .endOfSource) (context : String) (c : Cursor) :
    (expect k context).Ensures c
      (fun l c' ↦ ∃ t : Terminal k, ∃ rest, c.ahead = t.1 :: rest ∧ c' = c.seek rest ∧ l = t.1)
      (Stuck (fun w ↦ ∃ t : Terminal k, w = [t.1]) c) := by
  by_cases h : c.kind = k
  · obtain ⟨t, rest, hahead, hcurrent, hadvance⟩ := ahead_eq_terminal hk h
    exact .intro_ok (run_expect_of_eq h context) ⟨t, rest, hahead, hadvance, hcurrent⟩
  · exact .intro_error (run_expect_of_ne h context) (.unexpected _ ⟨_, .sample k, rfl⟩)

/-- A terminal is taken, and what is read after it completes it. -/
theorem expect_bind {β : Type} {k : Kind} (hk : k ≠ .endOfSource) (hpart : ¬ EndsPart k)
    {context : String} {q : Lexeme → Parser β} {c : Cursor} {ok : β → Cursor → Prop}
    {L : List Lexeme → Prop} (hword : ∀ t : Terminal k, ∃ rest, L (t.1 :: rest))
    (hq : ∀ (t : Terminal k) (rest : List Lexeme), c.ahead = t.1 :: rest →
      (q t.1).Ensures (c.seek rest) ok (Stuck (fun w ↦ L (t.1 :: w)) (c.seek rest))) :
    (expect k context >>= q).Ensures c ok (Stuck L c) := by
  refine .bind (expect_ensures hk context c) (fun l c₁ hl ↦ ?_) fun f c' hf ↦ ?_
  · obtain ⟨t, rest, hc, rfl, rfl⟩ := hl
    refine (hq t rest hc).mono (fun _ _ h ↦ h) fun f c' hf ↦ ?_
    have hc' : c.ahead = ([] ++ [t.1]) ++ rest := hc
    refine hf.prepend hc' rfl (fun _ ↦ not_endsPart_of_getLast? (t.2.symm ▸ hpart) []) fun w hw ↦ ?_
    exact ⟨[], by rwa [List.append_nil]⟩
  · refine hf.widen ?_
    rintro w ⟨t, rfl⟩
    exact hword t

/-! ## Expressions -/

theorem follows_of_continuation {least : Precedence} {k : Kind}
    (hl : least.level ≤ levels.length + 1) (h : continuation least k = .stop) :
    Follows (least.level - 1) k := by
  rw [continuation] at h
  split at h
  · next hk => exact hk.elim .inl fun hk ↦ .inr (.inl hk)
  split at h
  · exact absurd h (by simp)
  dsimp only at h
  split at h
  · exact absurd h (by simp)
  next hnone =>
  split at h
  · next hlt =>
    have hpos : (Precedence.betweenOperands k).level ≠ Precedence.none.level :=
      fun he ↦ hnone (Precedence.level_injective he)
    rw [show Precedence.none.level = 0 from rfl] at hpos
    refine .inr (.inr ⟨(Precedence.betweenOperands k).level - 1, by omega, ?_⟩)
    exact isOperator_iff.mpr ⟨by omega, by omega⟩
  · split at h <;> exact absurd h (by simp)

theorem isOperator_of_continuation {least level : Precedence} {k : Kind}
    (h : continuation least k = .operator level) :
    IsOperator (level.level - 1) k ∧ least.level ≤ level.level ∧ 0 < level.level ∧
      level.level ≤ levels.length := by
  rw [continuation] at h
  split at h
  · exact absurd h (by simp)
  split at h
  · exact absurd h (by simp)
  dsimp only at h
  split at h
  · exact absurd h (by simp)
  next hnone =>
  split at h
  · exact absurd h (by simp)
  next hle =>
  split at h
  · exact absurd h (by simp)
  next hcall =>
  obtain rfl : Precedence.betweenOperands k = level := by simpa using h
  have hpos : 0 < (Precedence.betweenOperands k).level := by
    rcases Nat.eq_zero_or_pos (Precedence.betweenOperands k).level with h0 | h0
    · exact absurd (Precedence.level_injective (q := .none) h0) hnone
    · exact h0
  have hmax : (Precedence.betweenOperands k).level ≤ levels.length := by
    revert hcall
    rcases k with s | k | _ | _ | _ | _ | _
    · cases s <;> decide
    all_goals simp [Precedence.betweenOperands, Precedence.level, levels]
  exact ⟨isOperator_iff.mpr ⟨by omega, by omega⟩, by omega, hpos, hmax⟩

/-- Phrases of level `n` within the bounds. -/
def PhraseWithin (limit room n : Nat) (d : Phrase) : Prop :=
  d.AtLevel n ∧ d.nesting ≤ room ∧ d.height ≤ limit

/-- A reader of phrases of level `n`, of which `room` may be open at once. -/
def ReadsPhrases (limit room n : Nat) (p : Parser Expression) : Prop :=
  ∀ c : Cursor, p.Ensures c
    (fun e c' ↦ Takes Phrase.lexemes Phrase.expression (PhraseWithin limit room n) c e c' ∧
      Follows n c'.kind)
    (Stuck (fun w ↦ ∃ d : Phrase, d.AtLevel n ∧ d.lexemes = w) c)

variable {limit room : Nat}

theorem operand_ensures {inner : Parser Expression} (hi : ReadsPhrases limit room 0 inner)
    (c : Cursor) : (operand inner).Ensures c
      (Takes Phrase.lexemes Phrase.expression (PhraseWithin limit (room + 1) levels.length) c)
      (Stuck (fun w ↦ ∃ d : Phrase, d.AtLevel levels.length ∧ d.lexemes = w) c) := by
  have hword : ∃ w, ∃ d : Phrase, d.AtLevel levels.length ∧ d.lexemes = w :=
    ⟨_, .number (.sample .number), .number _, rfl⟩
  rw [operand]
  refine .get_bind ?_
  dsimp only
  split
  · next hk =>
    have hahead := Cursor.ahead_eq_cons (c := c) (by rw [Cursor.kind_eq]; simp [hk])
    refine .advance_bind ?_
    split
    · next x hx =>
      refine .pure ⟨.number ⟨c.current, hk⟩, c.ahead.tail, ⟨.number _, ?_, ?_⟩, hahead, rfl, ?_⟩
      · simp [Phrase.nesting]
      · simp [Phrase.height]
      · rw [Phrase.expression, numberValue, hx]
        rfl
    · next hx =>
      -- the number has been taken when it is found not to be one
      refine .intro_error (run_throw _ _) ⟨[c.current], hahead, rfl, ?_, fun hf ↦ hf.elim⟩
      refine ⟨c.current, List.mem_singleton_self _, rfl, ?_⟩
      intro hr
      simpa [hx] using hr hk
  · next hk =>
    have hahead := Cursor.ahead_eq_cons (c := c) (by rw [Cursor.kind_eq]; simp [hk])
    have hopen : ¬ EndsPart c.current.kind := by simp [hk, EndsPart]
    refine .advance_bind (.bind (hi c.advance) (fun e c₁ he ↦ ?_) fun f c' hf ↦ ?_)
    · obtain ⟨⟨d, rest, ⟨hd, hn, hh⟩, hc, rfl, rfl⟩, hfollows⟩ := he
      have hahead' : c.ahead = (c.current :: d.lexemes) ++ rest := hahead.trans (congrArg _ hc)
      refine .bind (expect_ensures (by simp) _ _) (fun l c₂ hl ↦ ?_) fun f c' hf ↦ ?_
      · obtain ⟨t, rest', hrest, rfl, rfl⟩ := hl
        refine .pure ⟨.group ⟨c.current, hk⟩ d t, rest', ⟨.group _ _ hd, ?_, hh⟩, ?_, rfl, rfl⟩
        · rw [Phrase.nesting]
          omega
        · rw [Cursor.ahead_seek] at hrest
          rw [hahead', hrest, Phrase.lexemes]
          simp
      · refine hf.prepend_of_ne hahead' rfl hfollows.ne_endOfSource ?_
        rintro w ⟨t, rfl⟩
        exact ⟨[], .group ⟨c.current, hk⟩ d t, .group _ _ hd, by simp [Phrase.lexemes]⟩
    · refine hf.prepend hahead rfl (fun _ ↦ not_endsPart_of_getLast? hopen []) ?_
      rintro w ⟨d, hd, rfl⟩
      exact ⟨[(Terminal.sample (.symbol .rightParen)).1],
        .group ⟨c.current, hk⟩ d (.sample _), .group _ _ hd, by simp [Phrase.lexemes]⟩
  · exact .intro_error (run_unexpected _ _) (.unexpected _ hword)
  · split
    · exact .intro_error (run_unexpected _ _) (.unexpected _ hword)
    · exact .intro_error (run_unexpected _ _) (.unexpected _ hword)

/-- A tail was read behind the phrase `left`, and `left` with the tail is a phrase of level `n`. -/
def Extends (limit room n : Nat) (left : Phrase) (c : Cursor) (e : Expression) (c' : Cursor) :
    Prop :=
  (∃ (d : Phrase) (tail rest : List Lexeme), PhraseWithin limit room n d ∧
    d.lexemes = left.lexemes ++ tail ∧ c.ahead = tail ++ rest ∧ c' = c.seek rest ∧
      e = d.expression) ∧ Follows n c'.kind

/-- An operator and its right operand are part of the tail. -/
theorem Extends.of_binary {n : Nat} {left d : Phrase} {operator : Lexeme} {c c' : Cursor}
    {rest : List Lexeme} {e : Expression}
    (h : Extends limit room n (.binary left operator d) (c.seek rest) e c')
    (hc : c.ahead = (operator :: d.lexemes) ++ rest) : Extends limit room n left c e c' := by
  obtain ⟨⟨d', tail, rest', hd', hlex, hrest, rfl, rfl⟩, hfollows⟩ := h
  rw [Cursor.ahead_seek] at hrest
  refine ⟨⟨d', operator :: (d.lexemes ++ tail), rest', hd', ?_, ?_, rfl, rfl⟩, hfollows⟩
  · rw [hlex, Phrase.lexemes]
    simp
  · rw [hc, hrest]
    simp

/-- What a climb ensures from the phrase `left` on. The recursion is on what the height of `left`
leaves of the limit. -/
theorem climb_ensures {right : Precedence → Parser Expression}
    (hright : ∀ level : Precedence, level.level ≤ levels.length + 1 →
      ReadsPhrases limit room (level.level - 1) (right level))
    {least : Precedence} (hl : least.level ≤ levels.length + 1) (left : Phrase) (c : Cursor)
    (hleft : PhraseWithin limit (room + 1) (least.level - 1) left)
    (hinv : ∀ m, IsOperator m c.kind → left.AtLevel m) :
    (climb limit right least left.expression).Ensures c
      (Extends limit (room + 1) (least.level - 1) left c)
      (Stuck (fun w ↦ ∃ d : Phrase, d.AtLevel (least.level - 1) ∧
        d.lexemes = left.lexemes ++ w) c) := by
  induction hm : limit - left.height using Nat.strongRecOn generalizing left c with
  | ind m ih =>
  obtain ⟨hlevel, hnesting, hheight⟩ := hleft
  rw [climb]
  refine .get_bind ?_
  split
  · next hstop =>
    refine .pure ⟨⟨left, [], c.ahead, ⟨hlevel, hnesting, hheight⟩, ?_, rfl, rfl, rfl⟩, ?_⟩
    · rw [List.append_nil]
    · exact follows_of_continuation hl hstop
  · exact .intro_error (run_unexpected _ _) (.unexpected _ ⟨[], left, hlevel, by simp⟩)
  next level hop =>
  obtain ⟨hisop, hle, hpos, hmax⟩ := isOperator_of_continuation hop
  have hlow : least.level - 1 ≤ level.level - 1 := by omega
  have htighter : level.tighter.level = level.level + 1 := level_tighter_of_le hmax
  have hahead : c.ahead = [c.current] ++ c.ahead.tail :=
    Cursor.ahead_eq_cons hisop.ne_endOfSource
  -- with any right operand of a tighter level the operator makes a phrase of its level
  have hbinary (d : Phrase) (hd : d.AtLevel (level.level - 1 + 1)) :
      (Phrase.binary left c.current d).AtLevel (level.level - 1) :=
    .binary hisop (hinv _ hisop) hd
  have hr := hright level.tighter (by omega)
  rw [show level.tighter.level - 1 = level.level - 1 + 1 by omega] at hr
  refine .advance_bind (.bind (hr c.advance) (fun e c₁ he ↦ ?_) fun f c' hf ↦ ?_)
  · obtain ⟨⟨d, rest, ⟨hd, hn, hh⟩, hc, rfl, rfl⟩, hfollows⟩ := he
    have hahead' : c.ahead = (c.current :: d.lexemes) ++ rest := hahead.trans (congrArg _ hc)
    split
    · next hbound =>
      rw [Phrase.height_expression, Phrase.height_expression] at hbound
      have hwithin : PhraseWithin limit (room + 1) (least.level - 1)
          (.binary left c.current d) := by
        refine ⟨(hbinary d hd).mono hlow, ?_, ?_⟩
        · rw [Phrase.nesting]
          omega
        · rw [Phrase.height]
          omega
      -- what is after the right operand is no tighter than the operator: the invariant again
      have hrest := ih _ (by rw [Phrase.height]; omega) (.binary left c.current d) (c.seek rest)
        hwithin (fun _ ↦ (hbinary d hd).of_follows hfollows) rfl
      refine hrest.mono (fun e c' he ↦ he.of_binary hahead') fun f c' hf ↦ ?_
      refine hf.prepend_of_ne hahead' rfl hfollows.ne_endOfSource ?_
      rintro w ⟨d', hd', hlex⟩
      exact ⟨[], d', hd', by rw [hlex, Phrase.lexemes]; simp⟩
    · refine .intro_error (run_throw _ _) ⟨c.current :: d.lexemes, hahead', rfl, trivial, ?_⟩
      exact fun hf ↦ hf.elim
  · refine hf.prepend hahead rfl (fun _ ↦ not_endsPart_of_getLast? hisop.not_endsPart []) ?_
    rintro w ⟨d, hd, rfl⟩
    exact ⟨[], .binary left c.current d, (hbinary d hd).mono hlow, by simp [Phrase.lexemes]⟩

theorem expressionWithin_ensures (room : Nat) : ∀ least : Precedence,
    least.level ≤ levels.length + 1 →
      ReadsPhrases limit room (least.level - 1) (expressionWithin limit room least) := by
  induction room with
  | zero =>
    intro least _ c
    -- no phrase may be opened any more, and the depth is counted before that is found
    have hrun : (expressionWithin limit 0 least).run c
        = .error (.tooDeep limit c.current.token) { c with depth := c.depth + 1 } := rfl
    exact .intro_error hrun ⟨[], rfl, rfl, trivial, fun hf ↦ hf.elim⟩
  | succ room ih =>
    intro least hl c
    rw [expressionWithin, descend]
    refine .modify_bind (.bind (operand_ensures (ih .none (by simp [Precedence.level])) _)
      (fun e c₁ he ↦ ?_) fun f c' hf ↦ ?_)
    · obtain ⟨d, rest, ⟨hd, hn, hh⟩, hc, rfl, rfl⟩ := he
      -- an operand may stand to the left of any operator
      have hinv : ∀ m, IsOperator m ((Cursor.mk c.ahead c.endStart c.endLength
          (c.depth + 1)).seek rest).kind → d.AtLevel m :=
        fun m hm ↦ hd.mono (Nat.le_of_lt (isOperator_iff.mp hm).1)
      refine .bind (climb_ensures ih hl d _ ⟨hd.mono (by omega), hn, hh⟩ hinv)
        (fun e c₂ he ↦ ?_) fun f c' hf ↦ ?_
      · obtain ⟨⟨d', tail, rest', hd', hlex, hrest, rfl, rfl⟩, hfollows⟩ := he
        refine .modify_bind (.pure ⟨⟨d', rest', hd', ?_, rfl, rfl⟩, hfollows⟩)
        rw [hlex, List.append_assoc, ← hrest]
        exact hc
      · refine hf.prepend hc rfl (fun hend l hl ↦ ?_) ?_
        · exact Phrase.not_endsPart_of_mem hd (List.mem_of_getLast? hl)
        · rintro w ⟨d', hd', hlex⟩
          exact ⟨[], d', hd', by rw [hlex, List.append_nil]⟩
    · have hf' : Stuck (fun w ↦ ∃ d : Phrase, d.AtLevel levels.length ∧ d.lexemes = w) c f c' := hf
      refine hf'.widen ?_
      rintro w ⟨d, hd, rfl⟩
      exact ⟨[], d, hd.mono (by omega), by simp⟩

theorem expression_ensures {least : Precedence} (hl : least.level ≤ levels.length + 1)
    (c : Cursor) : (expression limit least).Ensures c
      (fun e c' ↦ Takes Phrase.lexemes Phrase.expression
        (PhraseWithin limit (limit - c.depth) (least.level - 1)) c e c' ∧
          Follows (least.level - 1) c'.kind)
      (Stuck (fun w ↦ ∃ d : Phrase, d.AtLevel (least.level - 1) ∧ d.lexemes = w) c) := by
  rw [expression]
  exact .get_bind (expressionWithin_ensures _ least hl c)

/-! ## Statements -/

/-- Statements within the bounds. -/
def StatementWithin (limit room : Nat) (r : Statement) : Prop :=
  r.result.nesting ≤ room ∧ r.result.height ≤ limit

theorem run_statement_of_return {c : Cursor} (h : c.kind = .keyword .return) :
    (statement limit).run c = (returned limit).run c := by
  rw [statement, run_get_bind, if_pos h]

/-- What is missing where no statement begins, by the current lexeme and the one after it. -/
def missingStatement (kind : Kind) (next? : Option Kind) : Expectation :=
  if kind = .keyword .func ∧ next? = some .identifier then .noFunction else .statement

theorem run_statement_of_ne {c : Cursor} (h : c.kind ≠ .keyword .return) :
    (statement limit).run c
      = .error (.unexpected (missingStatement c.kind c.nextKind?) c.current.token) c := by
  rw [statement, run_get_bind, if_neg h, missingStatement]
  split
  · rfl
  · rfl

theorem returned_ensures (c : Cursor) : (returned limit).Ensures c
    (Takes Statement.lexemes (fun r ↦ r.result.expression)
      (StatementWithin limit (limit - c.depth)) c)
    (Stuck (fun w ↦ ∃ r : Statement, r.lexemes = w) c) := by
  have hnumber : (Phrase.number (.sample .number)).AtLevel 0 :=
    (Phrase.AtLevel.number _).mono (Nat.zero_le _)
  rw [returned]
  refine expect_bind (by simp) (by simp [EndsPart])
    (fun t ↦ ⟨_, ⟨t, .number (.sample .number), .sample _, hnumber⟩, rfl⟩) fun keyword rest hc ↦ ?_
  refine .bind (expression_ensures (by simp [Precedence.level]) _) (fun e c₂ he ↦ ?_)
    fun f c' hf ↦ ?_
  · obtain ⟨⟨d, rest', ⟨hd, hn, hh⟩, hrest, rfl, rfl⟩, hfollows⟩ := he
    rw [Cursor.ahead_seek] at hrest
    refine .bind (expect_ensures (by simp) _ _) (fun l c₃ hl ↦ ?_) fun f c' hf ↦ ?_
    · obtain ⟨semicolon, rest'', hrest', rfl, rfl⟩ := hl
      refine .pure ⟨⟨keyword, d, semicolon, hd⟩, rest'', ⟨hn, hh⟩, ?_, rfl, rfl⟩
      rw [Cursor.ahead_seek] at hrest'
      rw [hc, hrest, hrest', Statement.lexemes]
      simp
    · refine hf.prepend_of_ne hrest rfl hfollows.ne_endOfSource ?_
      rintro w ⟨t, rfl⟩
      exact ⟨[], ⟨keyword, d, t, hd⟩, by simp [Statement.lexemes]⟩
  · refine hf.widen ?_
    rintro w ⟨d, hd, rfl⟩
    exact ⟨[(Terminal.sample (.symbol .semicolon)).1], ⟨keyword, d, .sample _, hd⟩, rfl⟩

theorem statement_ensures (c : Cursor) : (statement limit).Ensures c
    (Takes Statement.lexemes (fun r ↦ r.result.expression)
      (StatementWithin limit (limit - c.depth)) c)
    (Stuck (fun w ↦ ∃ r : Statement, r.lexemes = w) c) := by
  have hword : ∃ w, ∃ r : Statement, r.lexemes = w :=
    ⟨_, ⟨.sample _, .number (.sample .number), .sample _,
      (Phrase.AtLevel.number _).mono (Nat.zero_le _)⟩, rfl⟩
  by_cases hreturn : c.kind = .keyword .return
  · have hreturned : (returned limit).Ensures c _ _ := returned_ensures c
    rwa [Ensures, ← run_statement_of_return hreturn] at hreturned
  · exact .intro_error (run_statement_of_ne hreturn) (.unexpected _ hword)

/-! ## Blocks -/

/-- What a block reads before each statement: it must not be the end. -/
def blockItem (limit : Nat) (opening : Lexeme) : Parser Expression := do
  if (← get).atEnd then throw (.unclosedBlock opening.token) else statement limit

/-- Whether a block goes on. -/
def blockGoesOn (c : Cursor) : Bool := c.kind != .symbol .rightBrace

theorem block_eq : block limit = (do
    let opening ← expect (.symbol .leftBrace) "to open a block"
    let returns ← collectAll blockGoesOn (blockItem limit opening)
    let _ ← advance
    return returns) := rfl

theorem blockItem_ensures (opening : Lexeme) (c : Cursor) : (blockItem limit opening).Ensures c
    (Takes Statement.lexemes (fun r ↦ r.result.expression)
      (StatementWithin limit (limit - c.depth)) c)
    (fun f c' ↦ (f = .unclosedBlock opening.token ∧ c' = c ∧ c.kind = .endOfSource) ∨
      c.kind ≠ .endOfSource ∧ Stuck (fun w ↦ ∃ r : Statement, r.lexemes = w) c f c') := by
  rw [blockItem]
  refine .get_bind ?_
  split
  · next hend =>
    exact .intro_error (run_throw _ _) (.inl ⟨rfl, rfl, by simpa [Cursor.atEnd] using hend⟩)
  · next hend =>
    refine (statement_ensures c).mono (fun _ _ h ↦ h) fun f c' hf ↦ .inr ⟨?_, hf⟩
    simpa [Cursor.atEnd] using hend

theorem consumes_blockItem (opening : Lexeme) : Consumes blockGoesOn (blockItem limit opening) :=
  fun c _ _ _ h ↦ ((blockItem_ensures opening c).of_run_ok h).length_lt fun r ↦ by
    simp [Statement.lexemes]

/-- The statements of a block. At the end of the source it is the block that is to blame, and before
it the statement that is being read. -/
theorem body_ensures (opening : Lexeme) (c : Cursor) :
    (collectAll blockGoesOn (blockItem limit opening)).Ensures c
      (fun es c' ↦ Takes (List.flatMap Statement.lexemes)
        (List.map fun r ↦ r.result.expression)
        (∀ r ∈ ·, StatementWithin limit (limit - c.depth) r) c es c' ∧
          c'.kind = .symbol .rightBrace)
      (fun f c' ↦ (f = .unclosedBlock opening.token ∧ c'.kind = .endOfSource ∧ c'.last = c.last ∧
          ∃ body : List Statement, c.ahead = body.flatMap Statement.lexemes ++ c'.ahead) ∨
        c.kind ≠ .endOfSource ∧
          Stuck (fun w ↦ ∃ body : List Statement, body.flatMap Statement.lexemes = w) c f c') := by
  induction hm : c.ahead.length using Nat.strongRecOn generalizing c with
  | ind m ih =>
  refine .collectAll (consumes_blockItem opening) (fun hmore ↦ ?_) fun _ ↦ ?_
  · refine ⟨⟨[], c.ahead, by simp, rfl, rfl, rfl⟩, ?_⟩
    simpa [blockGoesOn] using hmore
  · refine (blockItem_ensures opening c).mono (fun e c₁ he ↦ ?_) fun f c' hf ↦ ?_
    · have hlt := he.length_lt fun r ↦ by simp [Statement.lexemes]
      obtain ⟨r, rest, hr, hc, rfl, rfl⟩ := he
      refine (ih _ (by omega) (c.seek rest) rfl).mono (fun es c' hes ↦ ?_) fun f c' hf ↦ ?_
      · obtain ⟨⟨body, rest', hbody, hrest, rfl, rfl⟩, hkind⟩ := hes
        refine ⟨⟨r :: body, rest', ?_, ?_, rfl, rfl⟩, hkind⟩
        · simpa using ⟨hr, hbody⟩
        · rw [Cursor.ahead_seek] at hrest
          rw [hc, hrest, List.flatMap_cons, List.append_assoc]
      · have hc₀ : c.kind ≠ .endOfSource := by
          rw [Statement.lexemes, List.cons_append] at hc
          rw [Cursor.kind, Cursor.current_of_ahead_eq_cons hc]
          simp [r.keyword.2]
        rcases hf with ⟨rfl, hend, hlast, body, hbody⟩ | ⟨hkind, hf⟩
        · refine .inl ⟨rfl, hend, hlast, r :: body, ?_⟩
          rw [Cursor.ahead_seek] at hbody
          rw [hc, hbody, List.flatMap_cons, List.append_assoc]
        · refine .inr ⟨hc₀, hf.prepend_of_ne hc rfl hkind ?_⟩
          rintro w ⟨body, rfl⟩
          exact ⟨[], r :: body, by simp⟩
    · rcases hf with ⟨rfl, rfl, hend⟩ | ⟨hkind, hf⟩
      · exact .inl ⟨rfl, hend, rfl, [], rfl⟩
      · refine .inr ⟨hkind, hf.widen ?_⟩
        rintro w ⟨r, rfl⟩
        exact ⟨[], [r], by simp⟩

theorem block_ensures (c : Cursor) : (block limit).Ensures c
    (fun es c' ↦ ∃ (leftBrace : Terminal (.symbol .leftBrace)) (body : List Statement)
      (rightBrace : Terminal (.symbol .rightBrace)) (rest : List Lexeme),
        (∀ r ∈ body, StatementWithin limit (limit - c.depth) r) ∧
        c.ahead = leftBrace.1 :: (body.flatMap Statement.lexemes ++ rightBrace.1 :: rest) ∧
        c' = c.seek rest ∧ es = body.map fun r ↦ r.result.expression)
    (Stuck (fun w ↦ ∃ (leftBrace : Terminal (.symbol .leftBrace)) (body : List Statement)
      (rightBrace : Terminal (.symbol .rightBrace)),
        leftBrace.1 :: (body.flatMap Statement.lexemes ++ [rightBrace.1]) = w) c) := by
  rw [block_eq]
  refine .bind (expect_ensures (by simp) _ c) (fun l c₁ hl ↦ ?_) fun f c' hf ↦ ?_
  · obtain ⟨brace, rest, hc, rfl, rfl⟩ := hl
    refine .bind (body_ensures brace.1 _) (fun es c₂ hes ↦ ?_) fun f c' hf ↦ ?_
    · obtain ⟨⟨body, rest', hbody, hrest, rfl, rfl⟩, hkind⟩ := hes
      obtain ⟨rightBrace, rest'', hrest', -, hadvance⟩ := ahead_eq_terminal (by simp) hkind
      refine .advance_bind (.pure ⟨brace, body, rightBrace, rest'', hbody, ?_, hadvance, rfl⟩)
      rw [Cursor.ahead_seek] at hrest hrest'
      rw [hc, hrest, hrest']
    · rw [Cursor.ahead_seek] at hf
      rcases hf with ⟨rfl, hend, hlast, body, hbody⟩ | ⟨hkind, hf⟩
      · -- only here it is known which brace has been open since
        refine ⟨brace.1 :: body.flatMap Statement.lexemes, ?_, hlast, ?_, fun _ ↦ ?_⟩
        · rw [hc, hbody, List.cons_append]
        · exact ⟨hend, [], brace, body, rfl, rfl⟩
        · exact ⟨[(Terminal.sample (.symbol .rightBrace)).1], brace, body, .sample _, rfl⟩
      · refine hf.prepend_of_ne (show c.ahead = [brace.1] ++ rest from hc) rfl hkind ?_
        rintro w ⟨body, rfl⟩
        exact ⟨[(Terminal.sample (.symbol .rightBrace)).1], brace, body, .sample _, by simp⟩
  · refine hf.widen ?_
    rintro w ⟨t, rfl⟩
    exact ⟨_, t, [], .sample _, rfl⟩

/-! ## Functions -/

/-- What a parameter leaves: the parenthesis that ends the list, or what is after its comma. -/
theorem parameter_ensures (c : Cursor) : parameter.Ensures c
    (fun name c' ↦ ∃ t : Terminal .identifier, name = t.1.text ∧
      ((∃ rest, c.ahead = t.1 :: rest ∧ c' = c.seek rest ∧ c'.kind = .symbol .rightParen) ∨
        ∃ (comma : Terminal (.symbol .comma)) (rest : List Lexeme),
          c.ahead = t.1 :: comma.1 :: rest ∧ c' = c.seek rest))
    (Stuck (fun w ↦ ∃ ps : Parameters, ps.lexemes = w) c) := by
  rw [parameter]
  refine expect_bind (by simp) (by simp [EndsPart])
    (fun t ↦ ⟨[], ⟨t, [], none⟩, by simp [Parameters.lexemes]⟩) fun name rest hc ↦ .get_bind ?_
  split
  · next hk => exact .pure ⟨name, rfl, .inl ⟨rest, hc, rfl, hk⟩⟩
  · refine expect_bind (by simp) (by simp [EndsPart])
      (fun comma ↦ ⟨[], .cons name comma none, Parameters.lexemes_cons name comma none⟩)
      fun comma rest' hrest ↦ ?_
    rw [Cursor.ahead_seek] at hrest
    exact .pure ⟨name, rfl, .inr ⟨comma, rest', by rw [hc, hrest], rfl⟩⟩

/-- Whether a list of parameters goes on. -/
def parametersGoOn (c : Cursor) : Bool := c.kind != .symbol .rightParen

theorem function_eq : function limit = (do
    let _ ← expect (.keyword .func) "to start a function declaration"
    let name ← expect .identifier "as the function's name"
    let _ ← expect (.symbol .leftParen) "to open the parameter list"
    let params ← collectAll parametersGoOn parameter
    let _ ← advance
    let returns ← block limit
    return ⟨name.text, params, returns⟩) := rfl

theorem consumes_parameter : Consumes parametersGoOn parameter := by
  intro c a c' _ h
  obtain ⟨t, _, ⟨rest, hc, rfl, _⟩ | ⟨comma, rest, hc, rfl⟩⟩ := (parameter_ensures c).of_run_ok h
  · simp [hc]
  · rw [hc, Cursor.ahead_seek, List.length_cons, List.length_cons]
    omega

theorem parameters_ensures (c : Cursor) : (collectAll parametersGoOn parameter).Ensures c
    (fun names c' ↦ Takes parameterLexemes parameterNames (fun _ ↦ True) c names c' ∧
      c'.kind = .symbol .rightParen)
    (Stuck (fun w ↦ ∃ ps? : Option Parameters, parameterLexemes ps? = w) c) := by
  induction hm : c.ahead.length using Nat.strongRecOn generalizing c with
  | ind m ih =>
  refine .collectAll consumes_parameter (fun hmore ↦ ?_) fun _ ↦ ?_
  · refine ⟨⟨none, c.ahead, trivial, rfl, rfl, rfl⟩, ?_⟩
    simpa [parametersGoOn] using hmore
  · refine (parameter_ensures c).mono (fun name c₁ hname ↦ ?_) fun f c' hf ↦ ?_
    · obtain ⟨t, rfl, ⟨rest, hc, rfl, hk⟩ | ⟨comma, rest, hc, rfl⟩⟩ := hname
      · have hstop : parametersGoOn (c.seek rest) = false := by simp [parametersGoOn, hk]
        exact .intro_ok (run_collectAll_of_stop consumes_parameter hstop)
          ⟨⟨some ⟨t, [], none⟩, rest, trivial, by simpa [parameterLexemes, Parameters.lexemes],
            rfl, rfl⟩, hk⟩
      · -- the comma may end the list or go on with it: what is behind it is again such a list
        have hlt : rest.length < m := by
          rw [← hm, hc, List.length_cons, List.length_cons]
          omega
        refine (ih _ hlt (c.seek rest) rfl).mono (fun names c' hnames ↦ ?_) fun f c' hf ↦ ?_
        · obtain ⟨⟨ps?, rest', _, hrest, rfl, rfl⟩, hkind⟩ := hnames
          refine ⟨⟨some (.cons t comma ps?), rest', trivial, ?_, rfl, ?_⟩, hkind⟩
          · rw [Cursor.ahead_seek] at hrest
            rw [hc, hrest]
            exact congrArg (· ++ rest') (Parameters.lexemes_cons t comma ps?).symm
          · exact (Parameters.names_cons t comma ps?).symm
        · have hc' : c.ahead = ([t.1] ++ [comma.1]) ++ rest := hc
          have hcomma : ¬ EndsPart comma.1.kind := by simp [EndsPart, comma.2]
          refine hf.prepend hc' rfl (fun _ ↦ not_endsPart_of_getLast? hcomma _) ?_
          rintro w ⟨ps?, rfl⟩
          refine ⟨[], some (.cons t comma ps?), ?_⟩
          rw [List.append_nil]
          exact Parameters.lexemes_cons t comma ps?
    · refine hf.widen ?_
      rintro w ⟨ps, rfl⟩
      exact ⟨[], some ps, by rw [List.append_nil]; rfl⟩

theorem function_ensures (c : Cursor) : (function limit).Ensures c
    (Takes Declaration.lexemes Declaration.function
      (fun d ↦ ∀ r ∈ d.body, StatementWithin limit (limit - c.depth) r) c)
    (Stuck (fun w ↦ ∃ d : Declaration, d.lexemes = w) c) := by
  rw [function_eq]
  refine expect_bind (by simp) (by simp [EndsPart])
    (fun t ↦ ⟨_, ⟨t, .sample _, .sample _, none, .sample _, .sample _, [], .sample _⟩, rfl⟩)
    fun keyword rest₁ h₁ ↦ ?_
  refine expect_bind (by simp) (by simp [EndsPart])
    (fun t ↦ ⟨_, ⟨keyword, t, .sample _, none, .sample _, .sample _, [], .sample _⟩, rfl⟩)
    fun name rest₂ h₂ ↦ ?_
  refine expect_bind (by simp) (by simp [EndsPart])
    (fun t ↦ ⟨_, ⟨keyword, name, t, none, .sample _, .sample _, [], .sample _⟩, rfl⟩)
    fun opening rest₃ h₃ ↦ ?_
  refine .bind (parameters_ensures _) (fun names c₄ hnames ↦ ?_) fun f c' hf ↦ ?_
  · obtain ⟨⟨ps?, rest₄, _, h₄, rfl, rfl⟩, hkind⟩ := hnames
    obtain ⟨closing, rest₅, h₅, -, hadvance⟩ := ahead_eq_terminal (by simp) hkind
    rw [Cursor.ahead_seek] at h₂ h₃ h₄ h₅
    refine .advance_bind ?_
    rw [hadvance]
    have h₃₅ : rest₃ = (parameterLexemes ps? ++ [closing.1]) ++ rest₅ := by rw [h₄, h₅]; simp
    refine .bind (block_ensures _) (fun es c₅ hes ↦ ?_) fun f c' hf ↦ ?_
    · obtain ⟨leftBrace, body, rightBrace, rest₆, hbody, h₆, rfl, rfl⟩ := hes
      refine .pure ⟨⟨keyword, name, opening, ps?, closing, leftBrace, body, rightBrace⟩, rest₆,
        hbody, ?_, rfl, rfl⟩
      rw [Cursor.ahead_seek] at h₆
      rw [h₁, h₂, h₃, h₃₅, h₆, Declaration.lexemes, Declaration.header]
      simp
    · have hclosing : ¬ EndsPart closing.1.kind := by simp [EndsPart, closing.2]
      refine hf.prepend h₃₅ rfl (fun _ ↦ not_endsPart_of_getLast? hclosing _) ?_
      rintro w ⟨leftBrace, body, rightBrace, rfl⟩
      refine ⟨[], ⟨keyword, name, opening, ps?, closing, leftBrace, body, rightBrace⟩, ?_⟩
      simp [Declaration.lexemes, Declaration.header]
  · refine hf.widen ?_
    rintro w ⟨ps?, rfl⟩
    refine ⟨[(Terminal.sample (.symbol .rightParen)).1, (Terminal.sample (.symbol .leftBrace)).1,
      (Terminal.sample (.symbol .rightBrace)).1],
      ⟨keyword, name, opening, ps?, .sample _, .sample _, [], .sample _⟩, ?_⟩
    simp [Declaration.lexemes, Declaration.header]

/-! ## Programs -/

/-- What a program reads for each function: its first lexeme must be the word for one. -/
def programItem (limit : Nat) : Parser Function := do
  if (← get).kind = .keyword .func then function limit else unexpected .declaration

/-- Whether a program goes on. -/
def programGoesOn (c : Cursor) : Bool := !c.atEnd

theorem program_eq : program limit = (do
    let functions ← collectAll programGoesOn (programItem limit)
    return ⟨functions⟩) := rfl

theorem programItem_ensures (c : Cursor) : (programItem limit).Ensures c
    (Takes Declaration.lexemes Declaration.function
      (fun d ↦ ∀ r ∈ d.body, StatementWithin limit (limit - c.depth) r) c)
    (Stuck (fun w ↦ ∃ d : Declaration, d.lexemes = w) c) := by
  rw [programItem]
  refine .get_bind ?_
  split
  · exact function_ensures c
  · refine .intro_error (run_unexpected _ _) (.unexpected _ ?_)
    exact ⟨_, ⟨.sample _, .sample _, .sample _, none, .sample _, .sample _, [], .sample _⟩, rfl⟩

theorem consumes_programItem : Consumes programGoesOn (programItem limit) :=
  fun c _ _ _ h ↦ ((programItem_ensures c).of_run_ok h).length_lt fun d ↦ by
    simp [Declaration.lexemes]

theorem functions_ensures (c : Cursor) :
    (collectAll programGoesOn (programItem limit)).Ensures c
      (fun fs c' ↦ Takes (List.flatMap Declaration.lexemes) (List.map Declaration.function)
        (∀ d ∈ ·, ∀ r ∈ d.body, StatementWithin limit (limit - c.depth) r) c fs c' ∧
          c'.kind = .endOfSource)
      (Stuck (fun w ↦ ∃ ds : List Declaration, ds.flatMap Declaration.lexemes = w) c) := by
  induction hm : c.ahead.length using Nat.strongRecOn generalizing c with
  | ind m ih =>
  refine .collectAll consumes_programItem (fun hmore ↦ ?_) fun _ ↦ ?_
  · refine ⟨⟨[], c.ahead, by simp, rfl, rfl, rfl⟩, ?_⟩
    simpa [programGoesOn, Cursor.atEnd] using hmore
  · refine (programItem_ensures c).mono (fun e c₁ he ↦ ?_) fun f c' hf ↦ ?_
    · have hlt := he.length_lt fun d ↦ by simp [Declaration.lexemes]
      obtain ⟨d, rest, hd, hc, rfl, rfl⟩ := he
      refine (ih _ (by omega) (c.seek rest) rfl).mono (fun fs c' hfs ↦ ?_) fun f c' hf ↦ ?_
      · obtain ⟨⟨ds, rest', hds, hrest, rfl, rfl⟩, hkind⟩ := hfs
        refine ⟨⟨d :: ds, rest', ?_, ?_, rfl, rfl⟩, hkind⟩
        · exact List.forall_mem_cons.mpr ⟨hd, hds⟩
        · rw [Cursor.ahead_seek] at hrest
          rw [hc, hrest, List.flatMap_cons, List.append_assoc]
      · have hbrace : ¬ EndsPart d.rightBrace.1.kind := by simp [EndsPart, d.rightBrace.2]
        refine hf.prepend hc rfl (fun _ ↦ ?_) ?_
        · rw [Declaration.lexemes, ← List.cons_append, ← List.append_assoc]
          exact not_endsPart_of_getLast? hbrace _
        · rintro w ⟨ds, rfl⟩
          exact ⟨[], d :: ds, by simp⟩
    · refine hf.widen ?_
      rintro w ⟨d, rfl⟩
      exact ⟨[], [d], by simp⟩

theorem program_ensures (c : Cursor) : (program limit).Ensures c
    (fun p c' ↦ Takes (List.flatMap Declaration.lexemes) (fun ds ↦ ⟨ds.map Declaration.function⟩)
      (∀ d ∈ ·, ∀ r ∈ d.body, StatementWithin limit (limit - c.depth) r) c p c' ∧
        c'.kind = .endOfSource)
    (Stuck (fun w ↦ ∃ ds : List Declaration, ds.flatMap Declaration.lexemes = w) c) := by
  rw [program_eq]
  refine .bind (functions_ensures c) (fun fs c' hfs ↦ ?_) fun _ _ hf ↦ hf
  obtain ⟨⟨ds, rest, hds, hc, rfl, rfl⟩, hkind⟩ := hfs
  exact .pure ⟨⟨ds, rest, hds, hc, rfl, rfl⟩, hkind⟩

end Parser

end InfixCompiler
