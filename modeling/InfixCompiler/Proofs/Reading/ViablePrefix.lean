import InfixCompiler.Proofs.Reading.Derivations
import InfixCompiler.Proofs.Reading.Locality

/-!
# Errors are found at the first lexeme that is one

Where reading fails, all that was taken can be completed to a program, and with the lexeme at the
cursor it can not. The first half is `Stuck`, which the readers ensure. For the second half suppose
a program that begins with all of it. Its numbers may not be readable and its expressions may be
too deep, but with other numbers and a higher limit the reader would read it to its end. It would
also fail, as it sees nothing that it did not see before (`program_mirrors`).
-/

namespace InfixCompiler

open Grammar

/-! ## Programs that can be read -/

/-- The lexeme with a readable text if it is a number and has none. -/
def readableTwin (l : Lexeme) : Lexeme :=
  if l.kind = .number ∧ Binary64.read? l.text.toList = none then ⟨l.token, "0"⟩ else l

theorem kind_readableTwin (l : Lexeme) : (readableTwin l).kind = l.kind := by
  rw [readableTwin]
  split <;> rfl

theorem readable_readableTwin (l : Lexeme) : Readable (readableTwin l) := by
  have hzero : (Binary64.read? "0".toList).isSome := by
    rw [show "0".toList = ['0'] from rfl]
    exact isSome_read?_of_isDigit (by decide) (by simp)
  rw [readableTwin]
  split
  · exact fun _ ↦ hzero
  · next h =>
    intro hk
    rw [Option.isSome_iff_ne_none]
    exact fun hnone ↦ h ⟨hk, hnone⟩

theorem readableTwin_eq_self {l : Lexeme} (h : Readable l) : readableTwin l = l := by
  rw [readableTwin, if_neg]
  rintro ⟨hk, hnone⟩
  have := h hk
  rw [hnone] at this
  exact absurd this (by simp)

theorem exists_bound {α : Type} (g : α → Nat) (as : List α) : ∃ n, ∀ a ∈ as, g a ≤ n := by
  induction as with
  | nil => exact ⟨0, by simp⟩
  | cons a as ih =>
    obtain ⟨n, hn⟩ := ih
    refine ⟨max (g a) n, List.forall_mem_cons.mpr ⟨by omega, ?_⟩⟩
    intro b hb
    have := hn b hb
    omega

namespace Grammar.Derivation

theorem readable_of_mem_map {d : Derivation} {l : Lexeme}
    (h : l ∈ (d.map readableTwin kind_readableTwin).lexemes) : Readable l := by
  rw [lexemes_map, List.mem_map] at h
  obtain ⟨l, -, rfl⟩ := h
  exact readable_readableTwin l

theorem exists_within (d : Derivation) : ∃ n, d.Within n := by
  obtain ⟨n, hn⟩ := exists_bound (fun r : Statement ↦ max r.result.nesting r.result.height)
    (d.declarations.flatMap Declaration.body)
  refine ⟨n, ?_⟩
  intro f hf r hr
  have := hn r (List.mem_flatMap.mpr ⟨f, hf, hr⟩)
  omega

theorem Within.mono {d : Derivation} {m n : Nat} (h : d.Within m) (hmn : m ≤ n) : d.Within n :=
  fun f hf r hr ↦ ⟨(h f hf r hr).1.trans hmn, (h f hf r hr).2.trans hmn⟩

end Grammar.Derivation

/-! ## No program goes on with the lexeme of a fault -/

section

variable {limit size : Nat} {ls seen : List Lexeme} {f : ParseFault} {c : Cursor}

/-- Lexemes that a program is known to begin with, up to one at which a reader stops: behind them
its declarations go on with that one. -/
theorem exists_declarations_eq {d : Derivation} (hbegins : seen ++ [c.current] <+: d.lexemes)
    (hahead : ∀ l ∈ c.ahead, l.kind ≠ .endOfSource) :
    ∃ r, d.declarations.flatMap Declaration.lexemes = seen ++ r ∧
      (c.seek r).current = c.current := by
  obtain ⟨w, hw⟩ := hbegins
  rw [Derivation.lexemes] at hw
  rcases List.eq_nil_or_concat' w with rfl | ⟨w, last, rfl⟩
  · rw [List.append_nil] at hw
    obtain ⟨hseen, hlast⟩ := List.append_inj' hw rfl
    refine ⟨[], by rw [hseen, List.append_nil], ?_⟩
    have hkind : c.current.kind = .endOfSource := by
      rw [List.singleton_inj.mp hlast]
      exact d.last.2
    rcases hc : c.ahead with _ | ⟨l, rest⟩
    · rw [Cursor.current, Cursor.current, hc]
      rfl
    · rw [Cursor.current_of_ahead_eq_cons hc] at hkind
      exact absurd hkind (hahead l (by simp [hc]))
  · rw [← List.append_assoc] at hw
    obtain ⟨hseen, -⟩ := List.append_inj' hw rfl
    exact ⟨c.current :: w, by rw [← hseen, List.append_assoc]; rfl, rfl⟩

theorem readable_of_seen (hls : ∀ l ∈ seen ++ c.ahead, IsLexeme l.text.toList l.kind) :
    ∀ l ∈ seen ++ [c.current], Readable l := by
  intro l hl
  rcases List.mem_append.mp hl with hl | hl
  · exact (hls l (List.mem_append_left _ hl)).readable
  obtain rfl := List.mem_singleton.mp hl
  rcases hc : c.ahead with _ | ⟨l, rest⟩
  · intro hk
    have hend := Cursor.kind_of_ahead_eq_nil hc
    rw [Cursor.kind_eq, hk] at hend
    exact absurd hend (by simp)
  · rw [Cursor.current_of_ahead_eq_cons hc]
    exact (hls l (List.mem_append_right _ (by simp [hc]))).readable

/-- No program begins with what was taken and the lexeme of the fault. -/
theorem not_prefix_of_run (hls : ∀ l ∈ seen ++ c.ahead, IsLexeme l.text.toList l.kind)
    (hrun : (Parser.program limit).run ⟨seen ++ c.ahead, size, 0, 0⟩ = .error f c)
    (hf : ∀ n t, f ≠ .tooDeep n t) (d : Derivation) : ¬ seen ++ [c.current] <+: d.lexemes := by
  intro hbegins
  -- the same program with numbers that can be read, and a limit that it is within
  have hbegins' : seen ++ [c.current] <+: (d.map readableTwin kind_readableTwin).lexemes := by
    have hsame : ∀ l ∈ seen ++ [c.current], readableTwin l = l :=
      fun l hl ↦ readableTwin_eq_self (readable_of_seen hls l hl)
    have hmap := hbegins.map readableTwin
    rwa [← Derivation.lexemes_map, List.map_congr_left hsame, List.map_id'] at hmap
  obtain ⟨n, hn⟩ := (d.map readableTwin kind_readableTwin).exists_within
  obtain ⟨r, hr, hstop⟩ := exists_declarations_eq hbegins' fun l hl ↦
    (hls l (List.mem_append_right _ hl)).ne_endOfSource
  have hread := Parser.run_program ⟨seen ++ c.ahead, size, 0, 0⟩ _ []
    (hn.mono (Nat.le_max_right limit n))
    (fun l hl ↦ Derivation.readable_of_mem_map (List.mem_append_left _ hl))
    (Cursor.kind_of_ahead_eq_nil rfl)
  -- it is read at that limit, although it fails there where the first run failed
  have hmirrors := Parser.program_mirrors (Nat.le_max_left limit n) ⟨seen ++ c.ahead, size, 0, 0⟩
  rw [Parser.Mirrors, hrun] at hmirrors
  obtain ⟨seen', hseen', -, hfail⟩ := hmirrors fun h ↦ h.2.elim (hf limit)
  obtain rfl : seen = seen' := List.append_cancel_right hseen'
  obtain ⟨f', hfail, -⟩ := hfail r hstop
  rw [List.append_nil, hr] at hread
  exact absurd (hread.symm.trans hfail) (by simp)

/-! ## The place of a fault -/

/-- A block that is open after `seen`, between two of its statements. -/
def OpenBlock (seen : List Lexeme) (brace : Lexeme) : Prop :=
  brace.kind = .symbol .leftBrace ∧ ∃ (front : List Lexeme) (body : List Statement),
    seen = front ++ brace :: body.flatMap Statement.lexemes

theorem Grammar.Statement.ne_leftBrace_of_mem {r : Statement} {l : Lexeme} (h : l ∈ r.lexemes) :
    l.kind ≠ .symbol .leftBrace := by
  rw [lexemes, List.mem_cons, List.mem_append, List.mem_singleton] at h
  rcases h with rfl | h | rfl
  · rw [r.keyword.2]
    simp
  · exact fun hk ↦ Phrase.not_endsPart_of_mem r.atLevel h (.inl hk)
  · rw [r.semicolon.2]
    simp

/-- The brace of an open block is the last one, as statements have no braces. -/
theorem OpenBlock.find?_reverse {brace : Lexeme} (h : OpenBlock seen brace) :
    seen.reverse.find? (fun l ↦ l.kind = .symbol .leftBrace) = some brace := by
  obtain ⟨hk, front, body, rfl⟩ := h
  have hnone : (body.flatMap Statement.lexemes).reverse.find?
      (fun l ↦ l.kind = .symbol .leftBrace) = none := by
    rw [List.find?_eq_none]
    intro l hl
    obtain ⟨r, -, hr⟩ := List.mem_flatMap.mp (List.mem_reverse.mp hl)
    simpa using Statement.ne_leftBrace_of_mem hr
  rw [List.reverse_append, List.reverse_cons, List.append_assoc, List.find?_append, hnone,
    Option.none_or, List.singleton_append, List.find?_cons_of_pos (by simpa using hk)]

/-- Between two statements of a block its brace or a semicolon is last. -/
theorem OpenBlock.endsPart {brace : Lexeme} (h : OpenBlock seen brace) :
    ∃ l ∈ seen.getLast?, EndsPart l.kind := by
  obtain ⟨hk, front, body, rfl⟩ := h
  rcases List.eq_nil_or_concat' body with rfl | ⟨body, r, rfl⟩
  · exact ⟨brace, List.getLast?_concat, .inl hk⟩
  · refine ⟨r.semicolon.1, ?_, .inr r.semicolon.2⟩
    have hlast : front ++ brace :: (body ++ [r]).flatMap Statement.lexemes
        = (front ++ brace :: (body.flatMap Statement.lexemes ++ r.keyword.1 :: r.result.lexemes))
          ++ [r.semicolon.1] := by
      simp [Statement.lexemes]
    rw [hlast]
    exact List.getLast?_concat

end

/-- The notes of a block that is open at the end: from its brace to the end, and the brace. -/
theorem notes_unclosedBlock {s : Source} {t : Token} (hk : t.kind ≠ .endOfSource)
    (hstop : t.stop ≤ s.size) : (ParseFault.unclosedBlock t).notes s
      = [⟨⟨s, t.start, s.size - t.start⟩, none⟩, ⟨t.span s, some "block opened here"⟩] := by
  have hstart : t.start ≤ s.size := (Nat.le_add_right _ _).trans hstop
  have hcombine : (t.span s).combine (Span.point s s.size) = ⟨s, t.start, s.size - t.start⟩ := by
    rw [Token.stop] at hstop
    simp only [Span.combine, Token.span, Span.point, Span.stop]
    rw [Nat.min_eq_left hstart, Nat.add_zero, Nat.max_eq_right hstop]
  rw [ParseFault.notes, Token.place, if_neg hk, hcombine]

/-- A fault that is about the order of lexemes: neither depths nor numbers are to blame. -/
theorem isSyntactic_of_blames {seen : List Lexeme} {f : ParseFault} {c : Cursor}
    (h : Blames seen c f) (hf : ∀ n t, f ≠ .tooDeep n t) (hseen : ∀ l ∈ seen, Readable l) :
    f.IsSyntactic := by
  cases f with
  | tooDeep n t => exact absurd rfl (hf n t)
  | badNumber t =>
    obtain ⟨l, hl, -, hbad⟩ := h
    exact absurd (hseen l hl) hbad
  | _ => trivial

/-- The fault `f` is about the lexeme `found`, which is the first that no program can have after
`seen`. It is noted at that lexeme, unless a block is open at the end and between its statements. -/
structure IsEarliestFault (s : Source) (f : ParseFault) (seen : List Lexeme) (found : Lexeme) :
    Prop where
  /-- Some program begins with what is before it. -/
  viable : ∃ d : Derivation, seen <+: d.lexemes
  /-- No program begins with that and the lexeme itself. -/
  not_viable : ∀ d : Derivation, ¬ seen ++ [found] <+: d.lexemes
  /-- An open block is noted from its brace to the end, and once more at the brace. -/
  notes_of_openBlock : ∀ brace : Lexeme, found.kind = .endOfSource → OpenBlock seen brace →
    (f.diagnostic s).notes = [⟨⟨s, brace.token.start, s.size - brace.token.start⟩, none⟩,
      ⟨brace.token.span s, some "block opened here"⟩]
  /-- All else is noted at the lexeme. -/
  notes_of_not_openBlock : (∀ brace : Lexeme, found.kind = .endOfSource → ¬ OpenBlock seen brace) →
    (f.diagnostic s).notes = [⟨found.token.span s, none⟩]

/-- **The earliest error.** Where reading fails, other than at the depth limit, the cursor is on the
lexeme at which the tokens cease to begin a program, and the fault is noted there. -/
theorem Program.earliest_error {s : Source} {tokens : List Token} (h : s.tokens = .ok tokens)
    {limit : Nat} {f : ParseFault} {c : Cursor}
    (hrun : (Parser.program limit).run (Cursor.ofTokens s tokens) = .error f c)
    (hf : ∀ n t, f ≠ .tooDeep n t) :
    ∃ (seen later : List Lexeme) (found : Lexeme), s.lexemes tokens = seen ++ found :: later ∧
      c.ahead ++ [c.last] = found :: later ∧ IsEarliestFault s f seen found := by
  have hplaces := Source.places_of_tokens h
  obtain ⟨ls, hls, hcursor, hlexemes⟩ := exists_ofTokens h
  rw [hcursor] at hrun
  obtain ⟨seen, hc, hlast, hblames, hviable⟩ := (Parser.program_ensures _).of_run_error hrun
  obtain rfl : ls = seen ++ c.ahead := hc
  have hlast' : c.last = ⟨.endAt s.size, ""⟩ := hlast
  have hsyntactic : f.IsSyntactic := isSyntactic_of_blames hblames hf fun l hl ↦
    (hls l (List.mem_append_left _ hl)).readable
  have hcurrent : c.ahead ++ [c.last] = c.current :: (c.ahead ++ [c.last]).tail := by
    rw [Cursor.current]
    rcases c.ahead with _ | ⟨l, rest⟩ <;> rfl
  have hfound : s.lexemes tokens = seen ++ c.current :: (c.ahead ++ [c.last]).tail := by
    rw [hlexemes, ← hcurrent, hlast', List.append_assoc]
  have hplace : c.current.token.place s = c.current.token.span s := by
    rcases hahead : c.ahead with _ | ⟨l, rest⟩
    · rw [Cursor.current, hahead, List.headD_nil, hlast']
      rfl
    · rw [Cursor.current_of_ahead_eq_cons hahead, Token.place, if_neg]
      exact (hls l (by simp [hahead])).ne_endOfSource
  refine ⟨seen, (c.ahead ++ [c.last]).tail, c.current, hfound, hcurrent, ⟨?_,
    not_prefix_of_run hls hrun hf, ?_, ?_⟩⟩
  · obtain ⟨rest, ds, hds⟩ := hviable hsyntactic
    exact ⟨⟨ds, .sample _⟩, rest ++ [_], by rw [← List.append_assoc, ← hds]; rfl⟩
  · intro brace hend hopen
    cases f with
    | unexpected e t =>
      -- between two statements the end is no unexpected lexeme
      obtain ⟨l, hl, hends⟩ := hopen.endsPart
      exact absurd hends (hblames.2 hend l hl)
    | unclosedBlock t =>
      obtain ⟨-, front, brace', body, hseen, rfl⟩ := hblames
      have hopen' : OpenBlock seen brace'.1 := ⟨brace'.2, front, body, hseen⟩
      -- both are the last brace that was taken
      obtain rfl := Option.some.inj (hopen.find?_reverse.symm.trans hopen'.find?_reverse)
      have hmem : brace'.1 ∈ s.lexemes tokens := by
        rw [hfound, hseen]
        simp
      obtain ⟨t, ht, hbrace⟩ := List.mem_map.mp hmem
      have hk : t.kind = .symbol .leftBrace := (congrArg Lexeme.kind hbrace).trans brace'.2
      rw [← hbrace]
      exact notes_unclosedBlock (hk.trans_ne (by simp)) (hplaces.stop_le t ht)
    | tooDeep n t => exact hsyntactic.elim
    | badNumber t => exact hsyntactic.elim
  · intro hclosed
    cases f with
    | unexpected e t =>
      obtain ⟨rfl, -⟩ := hblames
      change [Note.mk (c.current.token.place s) none] = _
      rw [hplace]
    | unclosedBlock t =>
      obtain ⟨hend, front, brace, body, hseen, -⟩ := hblames
      exact absurd ⟨brace.2, front, body, hseen⟩ (hclosed brace.1 hend)
    | tooDeep n t => exact hsyntactic.elim
    | badNumber t => exact hsyntactic.elim

/-- A block that is open at the end of a source. -/
theorem Program.earliest_error_openBlock : ∃ (seen later : List Lexeme) (found : Lexeme),
    Source.lexemes (.ofString "func f() \x7b")
      [⟨.keyword .func, 0, 4⟩, ⟨.identifier, 5, 1⟩, ⟨.symbol .leftParen, 6, 1⟩,
        ⟨.symbol .rightParen, 7, 1⟩, ⟨.symbol .leftBrace, 9, 1⟩, .endAt 10]
      = seen ++ found :: later ∧
      [⟨.endAt 10, ""⟩] = found :: later ∧
      IsEarliestFault (.ofString "func f() \x7b") (.unclosedBlock ⟨.symbol .leftBrace, 9, 1⟩)
        seen found := by
  have hscan : (Source.ofString "func f() \x7b").scan = ⟨[⟨.keyword .func, 0, 4⟩,
      ⟨.identifier, 5, 1⟩, ⟨.symbol .leftParen, 6, 1⟩, ⟨.symbol .rightParen, 7, 1⟩,
      ⟨.symbol .leftBrace, 9, 1⟩], none⟩ := by
    decide +kernel
  have hrun : (Parser.program defaultLimit).run (Cursor.ofTokens (.ofString "func f() \x7b")
      [⟨.keyword .func, 0, 4⟩, ⟨.identifier, 5, 1⟩, ⟨.symbol .leftParen, 6, 1⟩,
        ⟨.symbol .rightParen, 7, 1⟩, ⟨.symbol .leftBrace, 9, 1⟩, .endAt 10])
      = .error (.unclosedBlock ⟨.symbol .leftBrace, 9, 1⟩) ⟨[], 10, 0, 0⟩ := by
    rfl
  exact Program.earliest_error (Source.tokens_of_scan hscan) hrun (by simp)

end InfixCompiler
