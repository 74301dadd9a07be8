import InfixCompiler.Proofs.Grammar

/-!
# The grammar is unambiguous

`lexemes_injective` says that a list of lexemes has at most one derivation. For the parts of a
program it is stated with what comes after them: two parts that begin two equal lists are equal, and
so is what is left.

For functions, statements and parameters this is plain, as the next lexeme shows which rule is used.
Phrases are left-recursive and need another view: a phrase begins with a number or a parenthesis and
grows by operators with their right operands, from left to right. `Continues` is that growth.
Whatever a list of lexemes begins with, a phrase that is put together by the rules is met on the way
(`continues_of_reads`), so two phrases that both are ends of the growth are the same.
-/

namespace InfixCompiler.Grammar

theorem Terminal.val_ne {j k : Kind} (h : j ≠ k) (s : Terminal j) (t : Terminal k) : s.1 ≠ t.1 :=
  fun he ↦ h (by rw [← s.2, ← t.2, he])

theorem IsOperator.unique {m n : Nat} {k : Kind} (hm : IsOperator m k) (hn : IsOperator n k) :
    m = n := by
  have := (isOperator_iff.mp hm).2
  have := (isOperator_iff.mp hn).2
  omega

/-! ## Growth of phrases -/

/-- `Continues n d ls d' ls'`: with `ls` ahead, the phrase `d` grows into `d'` by operators of level
`n` and tighter ones, and `ls'` is left. -/
inductive Continues (n : Nat) : Phrase → List Lexeme → Phrase → List Lexeme → Prop
  | done (d : Phrase) (ls : List Lexeme) : Continues n d ls d ls
  | step {m : Nat} {d right d' : Phrase} {operator : Lexeme} {ls ls' : List Lexeme} (hnm : n ≤ m)
      (ho : IsOperator m operator.kind) (hr : right.AtLevel (m + 1)) (hs : Stops (m + 1) ls)
      (h : Continues n (.binary d operator right) ls d' ls') :
      Continues n d (operator :: (right.lexemes ++ ls)) d' ls'

/-- `Reads n ls d ls'`: `ls` begins with an operand that grows into `d`, and `ls'` is left. -/
inductive Reads (n : Nat) : List Lexeme → Phrase → List Lexeme → Prop
  | number {d' : Phrase} {ls ls' : List Lexeme} (literal : Terminal .number)
      (h : Continues n (.number literal) ls d' ls') : Reads n (literal.1 :: ls) d' ls'
  | group {inner d' : Phrase} {ls ls' : List Lexeme} (opening : Terminal (.symbol .leftParen))
      (closing : Terminal (.symbol .rightParen)) (hi : inner.AtLevel 0)
      (h : Continues n (.group opening inner closing) ls d' ls') :
      Reads n (opening.1 :: (inner.lexemes ++ closing.1 :: ls)) d' ls'

/-- No growth happens where a phrase can only stop. -/
theorem Continues.eq_of_stops {n : Nat} {d d' : Phrase} {ls ls' : List Lexeme}
    (h : Continues n d ls d' ls') (hs : Stops n ls) : d = d' ∧ ls = ls' := by
  cases h with
  | done => exact ⟨rfl, rfl⟩
  | step hnm ho hr hs' h => exact absurd hs (ho.not_follows hnm)

/-- A phrase by the rules is reached by growth, and what it grows into after that is also reached
from its first operand. -/
theorem reads_of_continues {n : Nat} {d : Phrase} (h : d.AtLevel n) :
    ∀ {m : Nat} {d' : Phrase} {ls ls' : List Lexeme}, m ≤ n → Stops (n + 1) ls →
      Continues m d ls d' ls' → Reads m (d.lexemes ++ ls) d' ls' := by
  induction h with
  | number literal =>
    intro m d' ls ls' _ _ hc
    exact .number literal hc
  | group opening closing hi _ =>
    intro m d' ls ls' _ _ hc
    simpa [Phrase.lexemes] using Reads.group opening closing hi hc
  | @binary n left right operator ho hl hr ihl _ =>
    intro m d' ls ls' hmn hs hc
    -- behind the left operand, the operator with its right operand is one step of the growth
    have hstep : Continues m left (operator :: (right.lexemes ++ ls)) d' ls' :=
      .step hmn ho hr hs hc
    have := ihl hmn (ho.stops (Nat.lt_succ_self n) _) hstep
    simpa [Phrase.lexemes] using this
  | looser _ ih =>
    intro m d' ls ls' hmn hs hc
    exact ih (by omega) (hs.mono (by omega)) hc

/-- A phrase by the rules is met by every growth that begins with its lexemes. -/
theorem continues_of_reads {n : Nat} {d : Phrase} (h : d.AtLevel n) :
    ∀ {m : Nat} {d' : Phrase} {ls ls' : List Lexeme}, m ≤ n → Stops (n + 1) ls →
      Reads m (d.lexemes ++ ls) d' ls' → Stops m ls' → Continues m d ls d' ls' := by
  induction h with
  | number literal =>
    intro m d' ls ls' _ _ hr _
    generalize hw : (Phrase.number literal).lexemes ++ ls = w at hr
    cases hr with
    | number literal' h =>
      obtain ⟨hl, rfl⟩ := List.cons.inj hw
      rwa [Subtype.ext hl]
    | group opening closing hi h =>
      exact absurd (List.cons.inj hw).1 (Terminal.val_ne (by decide) literal opening)
  | @group inner opening closing hi ih =>
    intro m d' ls ls' _ _ hr _
    generalize hw : (Phrase.group opening inner closing).lexemes ++ ls = w at hr
    cases hr with
    | number literal h =>
      exact absurd (List.cons.inj hw).1 (Terminal.val_ne (by decide) opening literal)
    | @group inner' _ ls₀ _ opening' closing' hi' h =>
      rw [Phrase.lexemes, List.cons_append, List.append_assoc, List.singleton_append] at hw
      obtain ⟨ho, hw⟩ := List.cons.inj hw
      -- both insides are phrases of the loosest level before a parenthesis, where both must end
      have hr' : Reads 0 (inner.lexemes ++ closing.1 :: ls) inner' (closing'.1 :: ls₀) := by
        rw [hw]
        exact reads_of_continues hi' le_rfl (closing'.stops_rightParen ls₀) (.done _ _)
      obtain ⟨rfl, hc⟩ := (ih le_rfl (closing.stops_rightParen ls) hr'
        (closing'.stops_rightParen ls₀)).eq_of_stops (closing.stops_rightParen ls)
      obtain ⟨hclosing, rfl⟩ := List.cons.inj hc
      rwa [Subtype.ext ho, Subtype.ext hclosing]
  | @binary n left right operator ho hl hr ihl ihr =>
    intro m d' ls ls' hmn hs hread hs'
    have hread' : Reads m (left.lexemes ++ operator :: (right.lexemes ++ ls)) d' ls' := by
      simpa [Phrase.lexemes] using hread
    -- the growth passes through the left operand, and can not end there
    have hleft := ihl hmn (ho.stops (Nat.lt_succ_self n) _) hread' hs'
    generalize hw : operator :: (right.lexemes ++ ls) = w at hleft
    cases hleft with
    | done => subst hw; exact absurd hs' (ho.not_follows hmn)
    | @step i _ right' _ operator' ls₀ _ hmi ho' hr' hs₀ hc =>
      obtain ⟨rfl, hright⟩ := List.cons.inj hw
      obtain rfl := ho.unique ho'
      -- the step takes the same operator, and with it the same right operand
      have hread'' : Reads (n + 1) (right.lexemes ++ ls) right' ls₀ := by
        rw [hright]
        exact reads_of_continues hr' le_rfl (hs₀.mono (by omega)) (.done _ _)
      obtain ⟨rfl, rfl⟩ := (ihr le_rfl (hs.mono (by omega)) hread'' hs₀).eq_of_stops hs
      exact hc
  | looser _ ih =>
    intro m d' ls ls' hmn hs hr hs'
    exact ih (by omega) (hs.mono (by omega)) hr hs'

/-- Two phrases of one level that begin equal lists, and end where such a phrase can only stop, are
equal. -/
theorem Phrase.append_inj {n : Nat} {d d' : Phrase} {ls ls' : List Lexeme} (h : d.AtLevel n)
    (h' : d'.AtLevel n) (hs : Stops n ls) (hs' : Stops n ls')
    (he : d.lexemes ++ ls = d'.lexemes ++ ls') : d = d' ∧ ls = ls' := by
  have hread : Reads n (d.lexemes ++ ls) d' ls' := by
    rw [he]
    exact reads_of_continues h' le_rfl (hs'.mono (by omega)) (.done _ _)
  exact (continues_of_reads h le_rfl (hs.mono (by omega)) hread hs').eq_of_stops hs

/-! ## Lists of parts -/

/-- Parts that are told apart by what they begin with, in a list that ends before something else. -/
theorem flatMap_append_inj {α : Type} {f : α → List Lexeme} {first : Kind}
    (hf : ∀ {a b : α} {ls ls' : List Lexeme}, f a ++ ls = f b ++ ls' → a = b ∧ ls = ls')
    (hfirst : ∀ a, ∃ t : Terminal first, ∃ ls, f a = t.1 :: ls) {k : Kind} (hk : k ≠ first)
    {as bs : List α} {s t : Terminal k} {ls ls' : List Lexeme}
    (h : as.flatMap f ++ s.1 :: ls = bs.flatMap f ++ t.1 :: ls') :
    as = bs ∧ s = t ∧ ls = ls' := by
  induction as generalizing bs with
  | nil =>
    cases bs with
    | nil =>
      obtain ⟨hst, hls⟩ := List.cons.inj h
      exact ⟨rfl, Subtype.ext hst, hls⟩
    | cons b bs =>
      obtain ⟨u, us, hb⟩ := hfirst b
      rw [List.flatMap_cons, hb] at h
      exact absurd (List.cons.inj h).1 (Terminal.val_ne hk s u)
  | cons a as ih =>
    cases bs with
    | nil =>
      obtain ⟨u, us, ha⟩ := hfirst a
      rw [List.flatMap_cons, ha] at h
      exact absurd (List.cons.inj h).1.symm (Terminal.val_ne hk t u)
    | cons b bs =>
      rw [List.flatMap_cons, List.flatMap_cons, List.append_assoc, List.append_assoc] at h
      obtain ⟨rfl, hrest⟩ := hf h
      obtain ⟨rfl, hst, hls⟩ := ih hrest
      exact ⟨rfl, hst, hls⟩

theorem Statement.append_inj {r r' : Statement} {ls ls' : List Lexeme}
    (h : r.lexemes ++ ls = r'.lexemes ++ ls') : r = r' ∧ ls = ls' := by
  simp only [Statement.lexemes, List.cons_append, List.append_assoc, List.nil_append] at h
  obtain ⟨hk, h⟩ := List.cons.inj h
  obtain ⟨hd, h⟩ := Phrase.append_inj r.atLevel r'.atLevel (r.semicolon.stops_semicolon _)
    (r'.semicolon.stops_semicolon _) h
  obtain ⟨hs, rfl⟩ := List.cons.inj h
  exact ⟨Statement.ext (Subtype.ext hk) hd (Subtype.ext hs), rfl⟩

/-- What comes after the first name. A comma is followed by a name unless it is the last one. -/
theorem Parameters.append_inj {f f' : Terminal .identifier}
    {others others' : List (Terminal (.symbol .comma) × Terminal .identifier)}
    {trailing? trailing?' : Option (Terminal (.symbol .comma))}
    {s t : Terminal (.symbol .rightParen)} {ls ls' : List Lexeme}
    (h : (Parameters.mk f others trailing?).lexemes ++ s.1 :: ls
      = (Parameters.mk f' others' trailing?').lexemes ++ t.1 :: ls') :
    f = f' ∧ others = others' ∧ trailing? = trailing?' ∧ s = t ∧ ls = ls' := by
  obtain ⟨hf, htail⟩ := List.cons.inj h
  refine ⟨Subtype.ext hf, ?_⟩
  clear h hf
  induction others generalizing others' with
  | nil =>
    cases others' with
    | nil =>
      rcases trailing? with _ | comma <;> rcases trailing?' with _ | comma'
      · obtain ⟨hst, hls⟩ := List.cons.inj htail
        exact ⟨rfl, rfl, Subtype.ext hst, hls⟩
      · exact absurd (List.cons.inj htail).1 (Terminal.val_ne (by decide) s comma')
      · exact absurd (List.cons.inj htail).1 (Terminal.val_ne (by decide) comma t)
      · obtain ⟨hc, hrest⟩ := List.cons.inj htail
        obtain ⟨hst, hls⟩ := List.cons.inj hrest
        exact ⟨rfl, congrArg some (Subtype.ext hc), Subtype.ext hst, hls⟩
    | cons p others' =>
      -- after a comma, a name and the end of the list can not be mistaken for each other
      rcases trailing? with _ | comma
      · exact absurd (List.cons.inj htail).1 (Terminal.val_ne (by decide) s p.1)
      · exact absurd (List.cons.inj (List.cons.inj htail).2).1
          (Terminal.val_ne (by decide) s p.2)
  | cons p others ih =>
    cases others' with
    | nil =>
      rcases trailing?' with _ | comma
      · exact absurd (List.cons.inj htail).1 (Terminal.val_ne (by decide) p.1 t)
      · exact absurd (List.cons.inj (List.cons.inj htail).2).1
          (Terminal.val_ne (by decide) p.2 t)
    | cons p' others' =>
      obtain ⟨hc, hname⟩ := List.cons.inj htail
      obtain ⟨hn, hrest⟩ := List.cons.inj hname
      obtain ⟨rfl, htrailing⟩ := ih hrest
      exact ⟨by rw [Prod.ext (Subtype.ext hc) (Subtype.ext hn)], htrailing⟩

theorem parameterLexemes_append_inj {ps? ps?' : Option Parameters}
    {s t : Terminal (.symbol .rightParen)} {ls ls' : List Lexeme}
    (h : parameterLexemes ps? ++ s.1 :: ls = parameterLexemes ps?' ++ t.1 :: ls') :
    ps? = ps?' ∧ s = t ∧ ls = ls' := by
  rcases ps? with _ | ⟨first, others, trailing?⟩ <;>
    rcases ps?' with _ | ⟨first', others', trailing?'⟩
  · obtain ⟨hst, hls⟩ := List.cons.inj h
    exact ⟨rfl, Subtype.ext hst, hls⟩
  · exact absurd (List.cons.inj h).1 (Terminal.val_ne (by decide) s first')
  · exact absurd (List.cons.inj h).1 (Terminal.val_ne (by decide) first t)
  · obtain ⟨rfl, rfl, rfl, hrest⟩ := Parameters.append_inj h
    exact ⟨rfl, hrest⟩

theorem Declaration.append_inj {d d' : Declaration} {ls ls' : List Lexeme}
    (h : d.lexemes ++ ls = d'.lexemes ++ ls') : d = d' ∧ ls = ls' := by
  simp only [Declaration.lexemes, Declaration.header, List.cons_append, List.append_assoc,
    List.nil_append] at h
  obtain ⟨hk, h⟩ := List.cons.inj h
  obtain ⟨hn, h⟩ := List.cons.inj h
  obtain ⟨ho, h⟩ := List.cons.inj h
  obtain ⟨hps, hc, h⟩ := parameterLexemes_append_inj h
  obtain ⟨hl, h⟩ := List.cons.inj h
  obtain ⟨hb, hr, hls⟩ := flatMap_append_inj Statement.append_inj
    (fun r ↦ ⟨r.keyword, _, rfl⟩) (by decide) h
  exact ⟨Declaration.ext (Subtype.ext hk) (Subtype.ext hn) (Subtype.ext ho) hps hc
    (Subtype.ext hl) hb hr, hls⟩

/-- **Unambiguity.** A list of lexemes has one derivation at most. -/
theorem Derivation.lexemes_injective : Function.Injective Derivation.lexemes := by
  intro d d' h
  obtain ⟨hd, hl, _⟩ := flatMap_append_inj Declaration.append_inj
    (fun f ↦ ⟨f.keyword, _, rfl⟩) (by decide) h
  exact Derivation.ext hd hl

end InfixCompiler.Grammar
