import InfixCompiler.Proofs.Reading.Acceptance
import InfixCompiler.Proofs.Session
import Mathlib.Data.List.TakeWhile

/-!
# Where an expression of a least level ends

A chain is operands with operators between them. Asked for a least level, an expression takes a
chain up to the first operator that is looser, and it is read as if the chain ended there and
nothing had been asked for. That the outermost climb stops there is plain. But other climbs are open
at that operator, one for each right operand that is not complete, and these have least levels of
their own.

No climb is followed here. The part before the operator is a phrase of the level that was asked for,
as it has no looser operator (`Chain.exists_phrase`). So it is one of the loosest level as well, and
what the reading of a phrase comes to is the same for all levels that it has.
-/

namespace InfixCompiler

namespace Grammar

/-! ## Chains -/

/-- A number, or a phrase in parentheses. -/
abbrev Operand := {d : Phrase // d.AtLevel levels.length}

/-- An operator of any level. -/
abbrev Connective := {l : Lexeme // ∃ n, IsOperator n l.kind}

/-- Operands with operators between them. -/
structure Chain where
  /-- The first operand. -/
  first : Operand
  /-- The other operands, each with the operator before it. -/
  others : List (Connective × Operand)

/-- The lexemes of operands with the operators before them. -/
def linkLexemes (links : List (Connective × Operand)) : List Lexeme :=
  links.flatMap fun link ↦ link.1.1 :: link.2.1.lexemes

namespace Chain

variable (chain : Chain) (least : Precedence)

/-- The lexemes of a chain in the order of the text. -/
def lexemes : List Lexeme := chain.first.1.lexemes ++ linkLexemes chain.others

/-- Whether an operator binds at least as tightly as `least`. -/
def binds (link : Connective × Operand) : Bool :=
  least.level ≤ (Precedence.betweenOperands link.1.1.kind).level

/-- The chain up to the first operator that is looser than `least`. -/
def cut : Chain := ⟨chain.first, chain.others.takeWhile (binds least)⟩

/-- The lexemes of the chain from the first operator on that is looser than `least`. -/
def beyond : List Lexeme := linkLexemes (chain.others.dropWhile (binds least))

theorem lexemes_cut_append_beyond :
    (chain.cut least).lexemes ++ chain.beyond least = chain.lexemes := by
  rw [lexemes, cut, beyond, lexemes, List.append_assoc, linkLexemes, linkLexemes,
    ← List.flatMap_append, List.takeWhile_append_dropWhile, linkLexemes]

end Chain

/-! ## Chains as phrases -/

/-- A phrase goes on with an operator that is not looser than its level: the operator takes it as
the left operand, or its rightmost part that is tight enough. -/
theorem Phrase.AtLevel.exists_append {m n : Nat} {d o : Phrase} {operator : Lexeme}
    (hd : d.AtLevel n) (hnm : n ≤ m) (hoperator : IsOperator m operator.kind)
    (ho : o.AtLevel levels.length) :
    ∃ d' : Phrase, d'.AtLevel n ∧ d'.lexemes = d.lexemes ++ operator :: o.lexemes := by
  have hm := (isOperator_iff.mp hoperator).1
  induction hd with
  | number literal => exact absurd hnm (by omega)
  | group opening closing _ => exact absurd hnm (by omega)
  | @binary n left right between hbetween hl hr _ ihr =>
    rcases hnm.eq_or_lt with rfl | hlt
    · exact ⟨_, .binary hoperator (.binary hbetween hl hr) (ho.mono hm), rfl⟩
    · obtain ⟨right', hright', hlexemes⟩ := ihr hlt
      refine ⟨_, .binary hbetween hl hright', ?_⟩
      rw [lexemes, hlexemes, lexemes, List.append_assoc, List.cons_append]
  | looser h ih =>
    rcases hnm.eq_or_lt with rfl | hlt
    · exact ⟨_, .binary hoperator h.looser (ho.mono hm), rfl⟩
    · obtain ⟨d', hd', hlexemes⟩ := ih hlt
      exact ⟨d', hd'.looser, hlexemes⟩

/-- It goes on with any number of such operators. -/
theorem Phrase.AtLevel.exists_append_links {n : Nat} {d : Phrase} (hd : d.AtLevel n)
    {links : List (Connective × Operand)}
    (h : ∀ link ∈ links, n < (Precedence.betweenOperands link.1.1.kind).level) :
    ∃ d' : Phrase, d'.AtLevel n ∧ d'.lexemes = d.lexemes ++ linkLexemes links := by
  induction links generalizing d with
  | nil => exact ⟨d, hd, (List.append_nil _).symm⟩
  | cons link links ih =>
    rw [List.forall_mem_cons] at h
    obtain ⟨m, hoperator⟩ := link.1.2
    have hm := (isOperator_iff.mp hoperator).2
    obtain ⟨d₁, hd₁, hlexemes₁⟩ := hd.exists_append (by omega) hoperator link.2.2
    obtain ⟨d', hd', hlexemes⟩ := ih hd₁ h.2
    refine ⟨d', hd', ?_⟩
    rw [hlexemes, hlexemes₁, linkLexemes, linkLexemes, List.flatMap_cons, List.append_assoc]

/-- A chain without operators that are looser than a level is a phrase of that level. -/
theorem Chain.exists_phrase (chain : Chain) {n : Nat} (hn : n ≤ levels.length)
    (h : ∀ link ∈ chain.others, n < (Precedence.betweenOperands link.1.1.kind).level) :
    ∃ d : Phrase, d.AtLevel n ∧ d.lexemes = chain.lexemes :=
  (chain.first.2.mono hn).exists_append_links h

namespace Chain

variable (chain : Chain) (least : Precedence)

theorem exists_phrase_cut :
    ∃ d : Phrase, d.AtLevel (levelOf least) ∧ d.lexemes = (chain.cut least).lexemes := by
  refine (chain.cut least).exists_phrase (Nat.min_le_right _ _) fun link hlink ↦ ?_
  have hbinds : binds least link := List.mem_takeWhile_imp hlink
  rw [binds, decide_eq_true_eq] at hbinds
  obtain ⟨m, hoperator⟩ := link.1.2
  have hm := (isOperator_iff.mp hoperator).2
  rw [levelOf]
  omega

/-- Behind the cut is the first operator that is looser, or what is behind the chain. -/
theorem stops_beyond {rest : List Lexeme} (hrest : Stops 0 rest) :
    Stops (levelOf least) (chain.beyond least ++ rest) := by
  rw [beyond]
  cases hlinks : chain.others.dropWhile (binds least) with
  | nil => exact hrest.mono (Nat.zero_le _)
  | cons link links =>
    have hlooser : ¬ binds least link := by
      have := List.head?_dropWhile_not (binds least) chain.others
      simpa [hlinks] using this
    obtain ⟨m, hoperator⟩ := link.1.2
    obtain ⟨hlength, hm⟩ := isOperator_iff.mp hoperator
    rw [binds, decide_eq_true_eq] at hlooser
    refine hoperator.stops ?_ _
    rw [levelOf]
    omega

end Chain

/-! ## Faults of readable phrases -/

/-- If all its numbers can be read, a phrase only fails for the limit. -/
theorem Phrase.exists_tooDeep_of_fault? {limit room : Nat} {d : Phrase}
    (hread : ∀ l ∈ d.lexemes, Readable l) {f : ParseFault} (h : d.fault? limit room = some f) :
    ∃ token, f = .tooDeep limit token := by
  induction d generalizing room with
  | number literal =>
    cases room with
    | zero => exact ⟨_, (Option.some.inj h).symm⟩
    | succ room =>
      rw [fault?, if_pos (hread literal.1 (List.mem_singleton_self _) literal.2)] at h
      exact absurd h (by simp)
  | group opening inner closing ih =>
    cases room with
    | zero => exact ⟨_, (Option.some.inj h).symm⟩
    | succ room => exact ih (fun l hl ↦ hread l (by simp [lexemes, hl])) h
  | binary left operator right ihl ihr =>
    cases room with
    | zero => exact ⟨_, (Option.some.inj h).symm⟩
    | succ room =>
      rw [fault?, Option.or_eq_some_iff, Option.or_eq_some_iff] at h
      rcases h with (h | ⟨-, h⟩) | ⟨-, h⟩
      · exact ihl (fun l hl ↦ hread l (by simp [lexemes, hl])) h
      · exact ihr (fun l hl ↦ hread l (by simp [lexemes, hl])) h
      · split at h
        · exact absurd h (by simp)
        · exact ⟨_, (Option.some.inj h).symm⟩

end Grammar

/-! ## Expressions of a least level -/

namespace Parser

open Grammar

/-- What an expression of a least level takes from a chain, and what is left. -/
theorem exists_runsTo_expression_chain (limit : Nat) (chain : Chain) (least : Precedence) :
    ∃ d : Phrase, d.lexemes = (chain.cut least).lexemes ∧
      (∀ (c : Cursor) {rest : List Lexeme}, Stops 0 rest →
        (expression limit least).RunsTo (c.seek (chain.lexemes ++ rest))
          (d.fault? limit (limit - c.depth))
          (.ok d.expression (c.seek (chain.beyond least ++ rest)))) ∧
      ∀ (c : Cursor) {rest : List Lexeme}, Stops 0 rest →
        (expression limit .none).RunsTo (c.seek ((chain.cut least).lexemes ++ rest))
          (d.fault? limit (limit - c.depth)) (.ok d.expression (c.seek rest)) := by
  obtain ⟨d, hd, hlexemes⟩ := chain.exists_phrase_cut least
  refine ⟨d, hlexemes, fun c rest hrest ↦ ?_, fun c rest hrest ↦ ?_⟩
  · have hstops := chain.stops_beyond least hrest
    rw [← chain.lexemes_cut_append_beyond least, List.append_assoc, ← hlexemes]
    exact runsTo_expression limit c hd le_rfl (hstops.mono (Nat.le_succ _))
      (hstops.mono (Nat.min_le_left _ _))
  · rw [← hlexemes]
    exact runsTo_expression limit c (hd.mono (Nat.zero_le _)) le_rfl
      (hrest.mono (Nat.zero_le 1)) hrest

/-- **Expressions of a least level.** On a chain with `;` or `)` behind it, an expression of a least
level has the outcome of an expression of any level on the chain up to the first looser operator,
with `;` behind it: the same tree, with the cursor at that operator, or the same fault. If the
numbers can be read the fault is that of the limit. -/
theorem construct_expression_cut (limit : Nat) (least : Precedence) (chain : Chain) {l : Lexeme}
    (hl : l.kind = .symbol .semicolon ∨ l.kind = .symbol .rightParen)
    (semicolon : Terminal (.symbol .semicolon)) (rest rest' : List Lexeme) (c c' : Cursor)
    (hdepth : c'.depth = c.depth) :
    (∃ t, (construct limit (.expression least)).run (c.seek (chain.lexemes ++ l :: rest))
        = .ok t (c.seek (chain.beyond least ++ l :: rest)) ∧
      (construct limit (.expression .none)).run
          (c'.seek ((chain.cut least).lexemes ++ semicolon.1 :: rest'))
        = .ok t (c'.seek (semicolon.1 :: rest'))) ∨
    ∃ f c₁ c₁', (construct limit (.expression least)).run (c.seek (chain.lexemes ++ l :: rest))
        = .error f c₁ ∧
      (construct limit (.expression .none)).run
          (c'.seek ((chain.cut least).lexemes ++ semicolon.1 :: rest'))
        = .error f c₁' ∧
      ((∀ l ∈ (chain.cut least).lexemes, Readable l) → ∃ token, f = .tooDeep limit token) := by
  obtain ⟨d, hlexemes, hleast, hnone⟩ := exists_runsTo_expression_chain limit chain least
  have hstops : Stops 0 (l :: rest) := hl.elim .inl fun h ↦ .inr (.inl h)
  have hrun := hleast c hstops
  have hrun' := hnone c' (semicolon.stops_semicolon rest')
  rw [hdepth] at hrun'
  cases hfault : d.fault? limit (limit - c.depth) with
  | none =>
    rw [hfault] at hrun hrun'
    exact .inl ⟨_, run_map_eq_ok.mpr ⟨_, hrun, rfl⟩, run_map_eq_ok.mpr ⟨_, hrun', rfl⟩⟩
  | some f =>
    rw [hfault] at hrun hrun'
    obtain ⟨c₁, hrun⟩ := hrun
    obtain ⟨c₁', hrun'⟩ := hrun'
    refine .inr ⟨f, c₁, c₁', run_map_eq_error.mpr hrun, run_map_eq_error.mpr hrun', fun hread ↦ ?_⟩
    exact d.exists_tooDeep_of_fault? (hlexemes ▸ hread) hfault

/-- A product is asked for and a sum is there: only its first operand is read. -/
theorem construct_expression_cut_product : ∃ t,
    (construct 256 (.expression .product)).run ⟨[⟨⟨.number, 0, 1⟩, "1"⟩,
        ⟨⟨.symbol .plus, 2, 1⟩, "+"⟩, ⟨⟨.number, 4, 1⟩, "2"⟩, ⟨⟨.symbol .star, 6, 1⟩, "*"⟩,
        ⟨⟨.number, 8, 1⟩, "3"⟩, ⟨⟨.symbol .semicolon, 9, 1⟩, ";"⟩], 10, 0, 0⟩
      = .ok t ⟨[⟨⟨.symbol .plus, 2, 1⟩, "+"⟩, ⟨⟨.number, 4, 1⟩, "2"⟩,
          ⟨⟨.symbol .star, 6, 1⟩, "*"⟩, ⟨⟨.number, 8, 1⟩, "3"⟩,
          ⟨⟨.symbol .semicolon, 9, 1⟩, ";"⟩], 10, 0, 0⟩ ∧
    (construct 256 (.expression .none)).run
        ⟨[⟨⟨.number, 0, 1⟩, "1"⟩, ⟨⟨.symbol .semicolon, 1, 1⟩, ";"⟩], 2, 0, 0⟩
      = .ok t ⟨[⟨⟨.symbol .semicolon, 1, 1⟩, ";"⟩], 2, 0, 0⟩ := by
  let literal (start : Nat) (text : String) : Operand :=
    ⟨.number ⟨⟨⟨.number, start, 1⟩, text⟩, rfl⟩, .number _⟩
  let chain : Chain := ⟨literal 0 "1",
    [(⟨⟨⟨.symbol .plus, 2, 1⟩, "+"⟩, 5, .plus, by decide, rfl⟩, literal 4 "2"),
      (⟨⟨⟨.symbol .star, 6, 1⟩, "*"⟩, 6, .star, by decide, rfl⟩, literal 8 "3")]⟩
  let semicolon : Terminal (.symbol .semicolon) := ⟨⟨⟨.symbol .semicolon, 9, 1⟩, ";"⟩, rfl⟩
  let semicolon' : Terminal (.symbol .semicolon) := ⟨⟨⟨.symbol .semicolon, 1, 1⟩, ";"⟩, rfl⟩
  have hcut := construct_expression_cut 256 .product chain (.inl semicolon.2) semicolon' [] []
    ⟨[], 10, 0, 0⟩ ⟨[], 2, 0, 0⟩ rfl
  refine hcut.resolve_right ?_
  rintro ⟨f, c₁, c₁', -, h, -⟩
  let c : Cursor := ⟨[⟨⟨.number, 0, 1⟩, "1"⟩, ⟨⟨.symbol .semicolon, 1, 1⟩, ";"⟩], 2, 0, 0⟩
  have hok : ((construct 256 (.expression .none)).run c matches .ok ..) = true := by
    decide +kernel
  have hfail : (construct 256 (.expression .none)).run c = .error f c₁' := h
  rw [hfail] at hok
  exact absurd hok Bool.false_ne_true

end Parser

end InfixCompiler
