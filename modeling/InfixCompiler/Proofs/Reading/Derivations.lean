import InfixCompiler.Proofs.Grammar.Unambiguity
import InfixCompiler.Proofs.Lexing.Readings
import InfixCompiler.Proofs.Reading.Acceptance

/-!
# Programs and derivations

The tokens of a source spell a program if and only if they are in the grammar and what they return
is within the limit. The program is then that of the one derivation there is. Soundness is what the
readers ensure, completeness is what they read, and that there is one derivation is a fact about the
grammar alone.
-/

namespace InfixCompiler

open Grammar

/-! ## Numbers of a source -/

theorem isSome_readDecimal?_of_isDigit {ds : List Char} (hne : ds ≠ [])
    (hds : ∀ d ∈ ds, d.isDigit) : (Binary64.readDecimal? ds).isSome := by
  have hspan : Binary64.spanDigits ds = (ds, []) := by
    rw [Binary64.spanDigits, List.takeWhile_eq_self_iff.mpr hds, List.dropWhile_eq_nil_iff.mpr hds]
  rw [Binary64.readDecimal?, hspan]
  simp [Binary64.takeFraction, Binary64.exponent?, hne]

theorem takeSign_of_isDigit {c : Char} {cs : List Char} (hc : c.isDigit) :
    Binary64.takeSign (c :: cs) = (false, c :: cs) := by
  unfold Binary64.takeSign
  split
  · next heq =>
    obtain ⟨rfl, -⟩ := List.cons.inj heq
    exact absurd hc (by decide)
  · next heq =>
    obtain ⟨rfl, -⟩ := List.cons.inj heq
    exact absurd hc (by decide)
  · rfl

/-- Digits spell a number. They could only fail to by being a name, and names are numbers too. -/
theorem isSome_read?_of_isDigit {c : Char} {cs : List Char} (hc : c.isDigit)
    (hcs : ∀ d ∈ cs, d.isDigit) : (Binary64.read? (c :: cs)).isSome := by
  have hdecimal : (Binary64.readDecimal? (c :: cs)).isSome :=
    isSome_readDecimal?_of_isDigit (List.cons_ne_nil c cs) (List.forall_mem_cons.mpr ⟨hc, hcs⟩)
  rw [Binary64.read?, takeSign_of_isDigit hc, Option.isSome_map, Binary64.readUnsigned?]
  split
  · rfl
  split
  · rfl
  · exact hdecimal

theorem IsLexeme.readable {l : Lexeme} (h : IsLexeme l.text.toList l.kind) : Readable l := by
  intro hk
  rw [hk] at h
  generalize l.text.toList = text at h
  rcases h with hc | ⟨hc, hcs⟩
  exact isSome_read?_of_isDigit hc hcs

/-! ## The cursor of a source -/

/-- The cursor at the first token of a source. -/
theorem exists_ofTokens {s : Source} {tokens : List Token} (h : s.tokens = .ok tokens) :
    ∃ ls : List Lexeme, (∀ l ∈ ls, IsLexeme l.text.toList l.kind) ∧
      Cursor.ofTokens s tokens = ⟨ls, s.size, 0, 0⟩ ∧
      s.lexemes tokens = ls ++ [⟨.endAt s.size, ""⟩] := by
  obtain ⟨ts, rfl, hts⟩ := Source.isLexeme_of_tokens h
  refine ⟨s.lexemes ts, hts, ?_, ?_⟩
  · rw [Cursor.ofTokens, List.getLast?_concat]
    dsimp only
    rw [if_pos (show (Token.endAt s.size).kind = .endOfSource from rfl), List.dropLast_concat]
    rfl
  · rw [Source.lexemes_append, Source.lexemes_endAt]

namespace Grammar.Derivation

variable {limit : Nat} {ls : List Lexeme} {size : Nat}

/-- A run over lexemes comes to its end on the lexemes of a derivation within the limit. -/
theorem exists_of_run (hls : ∀ l ∈ ls, IsLexeme l.text.toList l.kind) {p : Program} {c' : Cursor}
    (h : (Parser.program limit).run ⟨ls, size, 0, 0⟩ = .ok p c') :
    ∃ d : Derivation, d.lexemes = ls ++ [⟨.endAt size, ""⟩] ∧ d.Within limit ∧ p = d.program := by
  obtain ⟨⟨ds, rest, hds, hc, rfl, rfl⟩, hkind⟩ := (Parser.program_ensures _).of_run_ok h
  -- the end of the source is no lexeme of it, so the run has come to the end of them all
  have hrest : rest = [] := by
    rcases rest with _ | ⟨l, rest⟩
    · rfl
    · have hls' : ls = _ := hc
      have hl : l ∈ ls := hls' ▸ List.mem_append_right _ List.mem_cons_self
      exact absurd hkind (hls l hl).ne_endOfSource
  subst hrest
  rw [List.append_nil] at hc
  refine ⟨⟨ds, ⟨⟨.endAt size, ""⟩, rfl⟩⟩, ?_, hds, rfl⟩
  rw [lexemes, ← hc]

/-- The lexemes of a derivation within the limit are read as its program. -/
theorem run_program (hls : ∀ l ∈ ls, IsLexeme l.text.toList l.kind) {d : Derivation}
    (hd : d.lexemes = ls ++ [⟨.endAt size, ""⟩]) (hlimit : d.Within limit) :
    ∃ c', (Parser.program limit).run ⟨ls, size, 0, 0⟩ = .ok d.program c' := by
  obtain ⟨hds, -⟩ := List.append_inj' hd rfl
  have hrun := Parser.run_program ⟨ls, size, 0, 0⟩ d.declarations [] hlimit
    (fun l hl ↦ (hls l (hds ▸ hl)).readable) (Cursor.kind_of_ahead_eq_nil rfl)
  rw [List.append_nil, hds] at hrun
  exact ⟨_, hrun⟩

end Grammar.Derivation

/-- **The grammar of programs.** Tokens of a source are read, at any limit, if and only if they are
in the grammar and both the nesting and the height of all that is returned are within the limit.
What is read is then the tree of the derivation, of which there is no other one. -/
theorem Program.ofTokens_ok_iff_derivation {s : Source} {tokens : List Token}
    (h : s.tokens = .ok tokens) (limit : Nat) :
    ((∃ p, Program.ofTokens limit s tokens = .ok p) ↔
      ∃ d : Derivation, d.lexemes = s.lexemes tokens ∧ d.Within limit) ∧
    ∀ p, Program.ofTokens limit s tokens = .ok p →
      ∃ d : Derivation, d.lexemes = s.lexemes tokens ∧ p.tree = d.tree ∧
        ∀ d' : Derivation, d'.lexemes = s.lexemes tokens → d' = d := by
  obtain ⟨ls, hls, hcursor, hlexemes⟩ := exists_ofTokens h
  have hsound : ∀ p, Program.ofTokens limit s tokens = .ok p → ∃ d : Derivation,
      d.lexemes = s.lexemes tokens ∧ d.Within limit ∧ p = d.program := by
    intro p hp
    rw [Program.ofTokens, hcursor] at hp
    rw [hlexemes]
    split at hp
    · next hrun =>
      obtain rfl := Except.ok.inj hp
      exact Derivation.exists_of_run hls hrun
    · exact absurd hp (by simp)
  constructor
  · constructor
    · rintro ⟨p, hp⟩
      obtain ⟨d, hd, hlimit, -⟩ := hsound p hp
      exact ⟨d, hd, hlimit⟩
    · rintro ⟨d, hd, hlimit⟩
      obtain ⟨c', hrun⟩ := Derivation.run_program hls (hd.trans hlexemes) hlimit
      rw [Program.ofTokens, hcursor, hrun]
      exact ⟨_, rfl⟩
  · intro p hp
    obtain ⟨d, hd, -, rfl⟩ := hsound p hp
    exact ⟨d, hd, d.tree_program, fun d' hd' ↦ Derivation.lexemes_injective (hd'.trans hd.symm)⟩

/-- A number in parentheses is read at the limit `2`, and is the result of its function. -/
theorem Program.ofTokens_ok_group : ∃ p,
    Program.ofTokens 2 (.ofString "func f() \x7b return (7); \x7d")
    [⟨.keyword .func, 0, 4⟩, ⟨.identifier, 5, 1⟩, ⟨.symbol .leftParen, 6, 1⟩,
      ⟨.symbol .rightParen, 7, 1⟩, ⟨.symbol .leftBrace, 9, 1⟩, ⟨.keyword .return, 11, 6⟩,
      ⟨.symbol .leftParen, 18, 1⟩, ⟨.number, 19, 1⟩, ⟨.symbol .rightParen, 20, 1⟩,
      ⟨.symbol .semicolon, 21, 1⟩, ⟨.symbol .rightBrace, 23, 1⟩, .endAt 24] = .ok p := by
  let inner : Phrase := .number ⟨⟨⟨.number, 19, 1⟩, "7"⟩, rfl⟩
  let body : Statement := ⟨⟨⟨⟨.keyword .return, 11, 6⟩, "return"⟩, rfl⟩,
    .group ⟨⟨⟨.symbol .leftParen, 18, 1⟩, "("⟩, rfl⟩ inner
      ⟨⟨⟨.symbol .rightParen, 20, 1⟩, ")"⟩, rfl⟩,
    ⟨⟨⟨.symbol .semicolon, 21, 1⟩, ";"⟩, rfl⟩,
    (Phrase.AtLevel.group _ _ ((Phrase.AtLevel.number _).mono (by decide))).mono (by decide)⟩
  let function : Declaration := ⟨⟨⟨⟨.keyword .func, 0, 4⟩, "func"⟩, rfl⟩,
    ⟨⟨⟨.identifier, 5, 1⟩, "f"⟩, rfl⟩, ⟨⟨⟨.symbol .leftParen, 6, 1⟩, "("⟩, rfl⟩, none,
    ⟨⟨⟨.symbol .rightParen, 7, 1⟩, ")"⟩, rfl⟩, ⟨⟨⟨.symbol .leftBrace, 9, 1⟩, "\x7b"⟩, rfl⟩, [body],
    ⟨⟨⟨.symbol .rightBrace, 23, 1⟩, "\x7d"⟩, rfl⟩⟩
  have hscan : (Source.ofString "func f() \x7b return (7); \x7d").scan = ⟨[⟨.keyword .func, 0, 4⟩,
      ⟨.identifier, 5, 1⟩, ⟨.symbol .leftParen, 6, 1⟩, ⟨.symbol .rightParen, 7, 1⟩,
      ⟨.symbol .leftBrace, 9, 1⟩, ⟨.keyword .return, 11, 6⟩, ⟨.symbol .leftParen, 18, 1⟩,
      ⟨.number, 19, 1⟩, ⟨.symbol .rightParen, 20, 1⟩, ⟨.symbol .semicolon, 21, 1⟩,
      ⟨.symbol .rightBrace, 23, 1⟩], none⟩ := by
    decide +kernel
  refine (Program.ofTokens_ok_iff_derivation (Source.tokens_of_scan hscan) 2).1.mpr
    ⟨⟨[function], ⟨⟨.endAt 24, ""⟩, rfl⟩⟩, by decide, ?_⟩
  intro f hf r hr
  obtain rfl := List.mem_singleton.mp hf
  obtain rfl := List.mem_singleton.mp hr
  decide

end InfixCompiler
