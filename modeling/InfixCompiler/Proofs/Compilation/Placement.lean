import InfixCompiler.Proofs.Compilation
import InfixCompiler.Proofs.Reading.ViablePrefix

/-!
# Places make no difference

Two sources with the same lexemes may differ in all that is between them. They are read as the same
program or with the same fault, and they have the same code or none for the same reason.

What is the same is said by index: tokens are *counterparts* if they are of the same kind and length
and the same number of tokens is before them. Counterparts are a relation on tokens as readers keep
it (`Parser.program_correspond`), so what is left to show is that notes of counterparts are at
counterparts, which is where the two sources come in again.
-/

namespace InfixCompiler

open Grammar Text

/-! ## Counterparts -/

/-- The tokens are the same but for where they begin, and have the same index in two lists. -/
structure Counterparts (ts ts' : List Token) (t t' : Token) : Prop where
  /-- They are of one kind. -/
  kind : t.kind = t'.kind
  /-- They are of one length. -/
  length : t.length = t'.length
  /-- As many tokens are before the one as before the other. -/
  index : ∃ i : Nat, ts[i]? = some t ∧ ts'[i]? = some t'

/-- The range from the token on to the end of the source. -/
def Token.spanToEnd (t : Token) (source : Source) : Span :=
  ⟨source, t.start, source.size - t.start⟩

/-- The notes have the same hint, and are both at a token or both from a brace on to the end. -/
structure Note.Corresponds (s s' : Source) (ts ts' : List Token) (n n' : Note) : Prop where
  /-- The hint is the same. -/
  hint : n.hint? = n'.hint?
  /-- The places are those of counterparts. -/
  place : ∃ t t', Counterparts ts ts' t t' ∧
    (n.span = t.span s ∧ n'.span = t'.span s' ∨
      t.kind = .symbol .leftBrace ∧ n.span = t.spanToEnd s ∧ n'.span = t'.spanToEnd s')

/-- What two sources with the tokens `ts` and `ts'` come to is the same but for places. -/
structure Source.SameButForPlaces (s s' : Source) (ts ts' : List Token) : Prop where
  /-- At any limit they are read as programs that differ in the places of operators alone, or with
  faults that do in the places of their notes. -/
  reading : ∀ limit,
    (∃ p p', Program.ofTokens limit s ts = .ok p ∧ Program.ofTokens limit s' ts' = .ok p' ∧
      p.Alike (Counterparts ts ts') p') ∨
    ∃ f f', Program.ofTokens limit s ts = .error f ∧ Program.ofTokens limit s' ts' = .error f' ∧
      (f.diagnostic s).reason = (f'.diagnostic s').reason ∧
      List.Forall₂ (Note.Corresponds s s' ts ts') (f.diagnostic s).notes (f'.diagnostic s').notes
  /-- They have the same module, or none for the same reason. -/
  compiling :
    (∃ m, s.compile = .ok m ∧ s'.compile = .ok m) ∨
    ∃ f f', s.compile = .error f ∧ s'.compile = .error f' ∧
      (f.diagnostic s).kind = (f'.diagnostic s').kind ∧
      (f.diagnostic s).reason = (f'.diagnostic s').reason

theorem keepsKinds_counterparts (ts ts' : List Token) : KeepsKinds (Counterparts ts ts') :=
  fun _ _ h ↦ h.kind

/-- The length of a token is that of its text. -/
theorem Lexes.length_token {front cs : List Char} {ls : List Lexeme} (h : Lexes front cs ls) :
    ∀ l ∈ ls, l.token.length = byteLength l.text.toList := by
  intro l hl
  obtain ⟨front', inside, back, hcs, hstart, hlength⟩ :=
    exists_place_of_scan h.scan l.token (List.mem_map_of_mem hl)
  have htext := h.text l hl
  rw [hcs, Token.text_append hstart hlength] at htext
  rw [hlength, ← htext, String.toList_ofList]

/-- Tokens of lexemes with the same contents are counterparts. -/
theorem forall₂_counterparts {ls ls' : List Lexeme} (last last' : Token)
    (hlength : ∀ l ∈ ls, l.token.length = byteLength l.text.toList)
    (hlength' : ∀ l ∈ ls', l.token.length = byteLength l.text.toList)
    (h : ls.map Lexeme.content = ls'.map Lexeme.content) :
    List.Forall₂ (Lexeme.Alike (Counterparts (ls.map Lexeme.token ++ [last])
      (ls'.map Lexeme.token ++ [last']))) ls ls' := by
  have hcount : ls.length = ls'.length := by simpa using congrArg List.length h
  refine List.forall₂_iff_get.mpr ⟨hcount, fun i hi hi' ↦ ?_⟩
  have hcontent : ls[i].content = ls'[i].content := by
    have := congrArg (·[i]?) h
    simpa [hi, hi'] using this
  obtain ⟨hkind, htext⟩ := Prod.mk.inj hcontent
  refine ⟨⟨hkind, ?_, i, ?_, ?_⟩, htext⟩
  · rw [hlength _ (List.get_mem ls ⟨i, hi⟩), hlength' _ (List.get_mem ls' ⟨i, hi'⟩)]
    exact congrArg (fun text ↦ byteLength text.toList) htext
  · simp [List.getElem?_append_left, hi]
  · simp [List.getElem?_append_left, hi']

namespace Source

variable {s s' : Source} {ts ts' : List Token}

/-- Sources with the same contents have cursors that are alike. -/
theorem alike_ofTokens (h : s.tokens = .ok ts) (h' : s'.tokens = .ok ts')
    (hsame : (s.lexemes ts).map Lexeme.content = (s'.lexemes ts').map Lexeme.content) :
    (Cursor.ofTokens s ts).Alike (Counterparts ts ts') (Cursor.ofTokens s' ts') := by
  obtain ⟨ls, hls, rfl⟩ := exists_lexes_of_tokens h
  obtain ⟨ls', hls', rfl⟩ := exists_lexes_of_tokens h'
  rw [lexemes_of_lexes hls, lexemes_of_lexes hls', List.map_append, List.map_append] at hsame
  obtain ⟨hcontents, -⟩ := List.append_inj' hsame rfl
  rw [(ofTokens_of_lexes hls).1, (ofTokens_of_lexes hls').1]
  have hcount : ls.length = ls'.length := by simpa using congrArg List.length hcontents
  refine ⟨forall₂_counterparts _ _ hls.length_token hls'.length_token hcontents,
    ⟨⟨rfl, rfl, ls.length, ?_, ?_⟩, rfl⟩, rfl⟩
  · simp [Cursor.last, Token.endAt]
  · simp [Cursor.last, Token.endAt, hcount]

/-- Messages about a token of a source point at its range, and this goes for the end as well. -/
theorem place_eq_span (h : s.tokens = .ok ts) {t : Token} (ht : t ∈ ts) :
    t.place s = t.span s := by
  obtain ⟨us, rfl, hus⟩ := isLexeme_of_tokens h
  rcases List.mem_append.mp ht with ht | ht
  · rw [Token.place, if_neg]
    exact (hus ⟨t, t.text s.chars⟩ (List.mem_map_of_mem ht)).ne_endOfSource
  · obtain rfl := List.mem_singleton.mp ht
    rfl

end Source

section Faults

variable {s s' : Source} {ts ts' : List Token} (h : s.tokens = .ok ts) (h' : s'.tokens = .ok ts')
include h h'

theorem Counterparts.corresponds {t t' : Token} (ht : Counterparts ts ts' t t')
    (hint? : Option String) :
    Note.Corresponds s s' ts ts' ⟨t.place s, hint?⟩ ⟨t'.place s', hint?⟩ := by
  obtain ⟨i, hi, hi'⟩ := id ht.index
  refine ⟨rfl, t, t', ht, .inl ⟨?_, ?_⟩⟩
  · exact Source.place_eq_span h (List.mem_of_getElem? hi)
  · exact Source.place_eq_span h' (List.mem_of_getElem? hi')

/-- Alike faults have corresponding notes. A block is opened by a brace. -/
theorem ParseFault.Alike.corresponds {f f' : ParseFault} (hf : f.Alike (Counterparts ts ts') f')
    (hbrace : ∀ t, f = .unclosedBlock t → t.kind = .symbol .leftBrace) :
    List.Forall₂ (Note.Corresponds s s' ts ts') (f.notes s) (f'.notes s') := by
  cases hf with
  | unexpected e ht | tooDeep limit ht | badNumber ht => exact .cons (ht.corresponds h h' none) .nil
  | @unclosedBlock t t' ht =>
    obtain ⟨i, hi, hi'⟩ := id ht.index
    have hk : t.kind = .symbol .leftBrace := hbrace t rfl
    have hk' : t'.kind = .symbol .leftBrace := ht.kind.symm.trans hk
    have hstop := (Source.places_of_tokens h).stop_le t (List.mem_of_getElem? hi)
    have hstop' := (Source.places_of_tokens h').stop_le t' (List.mem_of_getElem? hi')
    rw [notes_unclosedBlock (hk.trans_ne (by simp)) hstop,
      notes_unclosedBlock (hk'.trans_ne (by simp)) hstop']
    exact .cons ⟨rfl, t, t', ht, .inr ⟨hk, rfl, rfl⟩⟩
      (.cons ⟨rfl, t, t', ht, .inl ⟨rfl, rfl⟩⟩ .nil)

end Faults

/-! ## Sources with the same lexemes -/

theorem Program.Alike.lower_tree {R : Token → Token → Prop} (hR : KeepsKinds R) {p p' : Program}
    (h : p.Alike R p') : p.tree.lower = p'.tree.lower := by
  rw [tree, tree, Tree.lower, Tree.lower, assemble_congr hR h]

/-- The block that a program leaves open was opened by a brace. -/
theorem kind_of_run_unclosedBlock {limit : Nat} {c c' : Cursor} {t : Token}
    (h : (Parser.program limit).run c = .error (.unclosedBlock t) c') :
    t.kind = .symbol .leftBrace := by
  obtain ⟨seen, -, -, ⟨-, front, brace, body, -, rfl⟩, -⟩ :=
    (Parser.program_ensures c).of_run_error h
  exact brace.2

/-- The outcome of reading the tokens of sources with the same lexemes. -/
theorem Source.reading_sameButForPlaces {s s' : Source} {ts ts' : List Token}
    (h : s.tokens = .ok ts) (h' : s'.tokens = .ok ts')
    (hsame : (s.lexemes ts).map Lexeme.content = (s'.lexemes ts').map Lexeme.content)
    (limit : Nat) :
    (∃ p p', Program.ofTokens limit s ts = .ok p ∧ Program.ofTokens limit s' ts' = .ok p' ∧
      p.Alike (Counterparts ts ts') p') ∨
    ∃ f f', Program.ofTokens limit s ts = .error f ∧ Program.ofTokens limit s' ts' = .error f' ∧
      (f.diagnostic s).reason = (f'.diagnostic s').reason ∧
      List.Forall₂ (Note.Corresponds s s' ts ts') (f.diagnostic s).notes
        (f'.diagnostic s').notes := by
  have hR := keepsKinds_counterparts ts ts'
  have hresult := Parser.program_correspond hR limit (alike_ofTokens h h' hsame)
  rw [Program.ofTokens, Program.ofTokens]
  cases hrun : (Parser.program limit).run (Cursor.ofTokens s ts) with
  | ok p c =>
    rw [hrun] at hresult
    generalize (Parser.program limit).run (Cursor.ofTokens s' ts') = r' at hresult ⊢
    cases hresult with
    | ok hp _ => exact .inl ⟨p, _, rfl, rfl, hp⟩
  | error f c =>
    rw [hrun] at hresult
    generalize (Parser.program limit).run (Cursor.ofTokens s' ts') = r' at hresult ⊢
    cases hresult with
    | error hf _ =>
      refine .inr ⟨f, _, rfl, rfl, hf.reason hR, hf.corresponds h h' fun t ht ↦ ?_⟩
      rw [ht] at hrun
      exact kind_of_run_unclosedBlock hrun

/-- **Layout makes no difference.** If two sources have tokens of the same kinds with the same
texts, what they are read as, at any limit, and what they are compiled to is the same but for
places. -/
theorem Source.sameButForPlaces_of_content {s s' : Source} {ts ts' : List Token}
    (h : s.tokens = .ok ts) (h' : s'.tokens = .ok ts')
    (hsame : (s.lexemes ts).map Lexeme.content = (s'.lexemes ts').map Lexeme.content) :
    s.SameButForPlaces s' ts ts' := by
  have hreading := reading_sameButForPlaces h h' hsame
  refine ⟨hreading, ?_⟩
  rw [compile, compile, program, program, h, h']
  dsimp only
  rcases hreading defaultLimit with ⟨p, p', hp, hp', halike⟩ | ⟨f, f', hf, hf', hreason, -⟩
  · rw [hp, hp']
    -- code has no places, so it is the same code
    have hlower := halike.lower_tree (keepsKinds_counterparts ts ts')
    dsimp only [Except.mapError]
    rw [hlower]
    cases p'.tree.lower with
    | ok m => exact .inl ⟨m, rfl, rfl⟩
    | error fault => exact .inr ⟨_, _, rfl, rfl, rfl, rfl⟩
  · rw [hf, hf']
    exact .inr ⟨_, _, rfl, rfl, rfl, hreason⟩

/-- A block that is left open, with more and with less space around it. -/
theorem Source.sameButForPlaces_openBlock :
    (ofString "func f()\x7b").SameButForPlaces (ofString "func\tf ( )\n\x7b ")
      [⟨.keyword .func, 0, 4⟩, ⟨.identifier, 5, 1⟩, ⟨.symbol .leftParen, 6, 1⟩,
        ⟨.symbol .rightParen, 7, 1⟩, ⟨.symbol .leftBrace, 8, 1⟩, .endAt 9]
      [⟨.keyword .func, 0, 4⟩, ⟨.identifier, 5, 1⟩, ⟨.symbol .leftParen, 7, 1⟩,
        ⟨.symbol .rightParen, 9, 1⟩, ⟨.symbol .leftBrace, 11, 1⟩, .endAt 13] := by
  have hscan : (ofString "func f()\x7b").scan = ⟨[⟨.keyword .func, 0, 4⟩, ⟨.identifier, 5, 1⟩,
      ⟨.symbol .leftParen, 6, 1⟩, ⟨.symbol .rightParen, 7, 1⟩, ⟨.symbol .leftBrace, 8, 1⟩],
      none⟩ := by
    decide +kernel
  have hscan' : (ofString "func\tf ( )\n\x7b ").scan = ⟨[⟨.keyword .func, 0, 4⟩,
      ⟨.identifier, 5, 1⟩, ⟨.symbol .leftParen, 7, 1⟩, ⟨.symbol .rightParen, 9, 1⟩,
      ⟨.symbol .leftBrace, 11, 1⟩], none⟩ := by
    decide +kernel
  exact Source.sameButForPlaces_of_content (Source.tokens_of_scan hscan)
    (Source.tokens_of_scan hscan') (by decide +kernel)

end InfixCompiler
