import InfixCompiler.Proofs.Compilation.Placement
import InfixCompiler.Proofs.Lexing.Failure

/-!
# Notes point into the source

The notes of a source that is no program are at a token, at a character that begins none, at the end
of the source, or at a brace and from there to the end. No other place is ever noted, whatever the
limit on depths. All of these places can be shown: they are parts of the text as a list of
characters, so both ends are between characters, and only the end of the source is empty.

That a fault of reading is at a token of the source needs no look at the readers. Readers keep any
relation of tokens (`Parser.program_correspond`), and one such relation is to be the same token and
among those of the source.
-/

namespace InfixCompiler

open Grammar Text

/-! ## Places that can be shown -/

/-- The span is a part of its source, and so are the lines that it is on. -/
structure Span.IsShowable (p : Span) : Prop where
  /-- It ends in the source. -/
  stop_le : p.stop ≤ p.source.size
  /-- Both ends are between characters, and what is shown is all that is between the ends. -/
  boundaries : ∃ front back, p.source.chars = front ++ p.contents ++ back ∧
    p.offset = byteLength front ∧ p.length = byteLength p.contents
  /-- Its first line is not behind its last one. -/
  firstLine_le : p.lineAt p.offset ≤ p.lineAt p.stop
  /-- Its last line is a line of the source. -/
  lastLine_lt : p.lineAt p.stop < (Text.lines p.source.chars).length
  /-- It is on all lines from the first to the last one. -/
  length_lines : p.lines.length = p.lineAt p.stop - p.lineAt p.offset + 1

/-- The span of some characters of a source. -/
theorem Span.isShowable_of_append {p : Span} {front inside back : List Char}
    (hchars : p.source.chars = front ++ inside ++ back) (hoffset : p.offset = byteLength front)
    (hlength : p.length = byteLength inside) : p.contents = inside ∧ p.IsShowable := by
  have hcontents : p.contents = inside := p.contents_of_append hchars hoffset hlength
  refine ⟨hcontents, ?_, ⟨front, back, ?_, hoffset, ?_⟩, p.lineAt_offset_le_stop, p.lineAt_lt _,
    p.length_lines⟩
  · rw [stop, Source.size, hchars, hoffset, hlength, byteLength_append, byteLength_append]
    exact Nat.le_add_right _ _
  · rw [hcontents, hchars]
  · rw [hcontents, hlength]

/-- The note shows something of the source, or its end. -/
structure Note.PointsInto (n : Note) (s : Source) : Prop where
  /-- It is about the source. -/
  source : n.span.source = s
  /-- Its place can be shown. -/
  isShowable : n.span.IsShowable
  /-- There is something to be shown, but for the end. -/
  contents_ne_nil : n.span ≠ Span.point s s.size → n.span.contents ≠ []

theorem Note.pointsInto_of_append {n : Note} {s : Source} {front inside back : List Char}
    (hsource : n.span.source = s) (hchars : s.chars = front ++ inside ++ back)
    (hoffset : n.span.offset = byteLength front) (hlength : n.span.length = byteLength inside)
    (hne : inside ≠ []) : n.PointsInto s := by
  rw [← hsource] at hchars
  obtain ⟨hcontents, hshowable⟩ := Span.isShowable_of_append hchars hoffset hlength
  exact ⟨hsource, hshowable, fun _ ↦ hcontents ▸ hne⟩

/-! ## The notes of a source -/

/-- The notes that a source which is no program can have. -/
inductive Source.HasNotes (s : Source) : List Note → Prop
  /-- A character that begins no token, behind those that were found. -/
  | character {failure : LexFailure} {front back : List Char} {c : Char} (hint? : Option String)
    (h : s.tokens = .error failure) (hchars : s.chars = front ++ c :: back) :
    s.HasNotes [⟨⟨s, byteLength front, c.utf8Size⟩, hint?⟩]
  /-- A token. -/
  | token {tokens : List Token} {t : Token} (h : s.tokens = .ok tokens) (ht : t ∈ tokens)
    (hk : t.kind ≠ .endOfSource) : s.HasNotes [⟨t.span s, none⟩]
  /-- The end of the source. -/
  | atEnd {tokens : List Token} (h : s.tokens = .ok tokens) :
    s.HasNotes [⟨Span.point s s.size, none⟩]
  /-- A block that is open at the end, from its brace on, and the brace. -/
  | openBlock {tokens : List Token} {seen : List Lexeme} {brace : Lexeme}
    (h : s.tokens = .ok tokens) (hlexemes : s.lexemes tokens = seen ++ [⟨.endAt s.size, ""⟩])
    (hopen : OpenBlock seen brace) :
    s.HasNotes [⟨brace.token.spanToEnd s, none⟩, ⟨brace.token.span s, some "block opened here"⟩]

/-- The diagnostic of a source that is no program, when the depth of expressions is limited. -/
inductive Source.Rejected (s : Source) (limit : Nat) : Diagnostic → Prop
  /-- It has no tokens. -/
  | lexing {failure : LexFailure} (h : s.tokens = .error failure) :
    s.Rejected limit (failure.diagnostic s)
  /-- Its tokens are no program. -/
  | parsing {tokens : List Token} {f : ParseFault} (h : s.tokens = .ok tokens)
    (hf : Program.ofTokens limit s tokens = .error f) : s.Rejected limit (f.diagnostic s)

namespace Source

variable {s : Source} {tokens : List Token}

theorem token_mem_of_mem_lexemes {l : Lexeme} (h : l ∈ s.lexemes tokens) : l.token ∈ tokens := by
  obtain ⟨t, ht, rfl⟩ := List.mem_map.mp h
  exact ht

/-- A fault of reading is at a token of the source. -/
theorem alike_of_run (h : s.tokens = .ok tokens) {limit : Nat} {f : ParseFault} {c : Cursor}
    (hrun : (Parser.program limit).run (Cursor.ofTokens s tokens) = .error f c) :
    f.Alike (fun t t' ↦ t = t' ∧ t ∈ tokens) f := by
  obtain ⟨ls, -, hcursor, hlexemes⟩ := exists_ofTokens h
  have hmem (l : Lexeme) (hl : l ∈ ls ++ [⟨.endAt s.size, ""⟩]) :
      l.Alike (fun t t' ↦ t = t' ∧ t ∈ tokens) l :=
    ⟨⟨rfl, token_mem_of_mem_lexemes (hlexemes ▸ hl)⟩, rfl⟩
  have hcursor_alike : (Cursor.ofTokens s tokens).Alike (fun t t' ↦ t = t' ∧ t ∈ tokens)
      (Cursor.ofTokens s tokens) := by
    rw [hcursor]
    exact ⟨List.forall₂_same.mpr fun l hl ↦ hmem l (List.mem_append_left _ hl),
      hmem _ List.mem_concat_self, rfl⟩
  have hresult := Parser.program_correspond (fun _ _ h ↦ congrArg Token.kind h.1) limit
    hcursor_alike
  rw [hrun] at hresult
  cases hresult with
  | error hf _ => exact hf

/-- A block that is open at the fault is open at the end of the source. -/
theorem exists_openBlock_of_run (h : s.tokens = .ok tokens) {limit : Nat} {t : Token} {c : Cursor}
    (hrun : (Parser.program limit).run (Cursor.ofTokens s tokens) = .error (.unclosedBlock t) c) :
    ∃ seen brace, s.lexemes tokens = seen ++ [⟨.endAt s.size, ""⟩] ∧ OpenBlock seen brace ∧
      t = brace.token := by
  obtain ⟨ls, hls, hcursor, hlexemes⟩ := exists_ofTokens h
  rw [hcursor] at hrun
  obtain ⟨seen, hseen, -, ⟨hend, front, brace, body, hopen, rfl⟩, -⟩ :=
    (Parser.program_ensures _).of_run_error hrun
  obtain rfl : ls = seen ++ c.ahead := hseen
  -- no lexeme of the source is an end, so nothing is ahead of the cursor
  have hahead : c.ahead = [] := by
    by_contra hne
    obtain ⟨l, rest, hc⟩ := List.exists_cons_of_ne_nil hne
    refine (hls l (List.mem_append_right _ (hc ▸ List.mem_cons_self))).ne_endOfSource ?_
    rwa [Cursor.kind_eq, Cursor.current_of_ahead_eq_cons hc] at hend
  rw [hahead, List.append_nil] at hlexemes
  exact ⟨seen, brace.1, hlexemes, ⟨brace.2, front, body, hopen⟩, rfl⟩

theorem hasNotes_place (h : s.tokens = .ok tokens) {t : Token} (ht : t ∈ tokens) :
    s.HasNotes [⟨t.place s, none⟩] := by
  by_cases hk : t.kind = .endOfSource
  · rw [Token.place, if_pos hk]
    exact .atEnd h
  · rw [place_eq_span h ht]
    exact .token h ht hk

theorem Rejected.hasNotes {limit : Nat} {d : Diagnostic} (h : s.Rejected limit d) :
    s.HasNotes d.notes := by
  cases h with
  | @lexing failure h =>
    obtain ⟨front, c, back, hchars, hoffset, hfails⟩ :=
      exists_failsAt (congrArg (Scan.mk s.scan.tokens) (scan_of_tokens_eq_error h))
    rw [LexFailure.diagnostic, hoffset, Nat.zero_add, Munch.eq_ofChar_of_first hfails.first,
      LexFault.width_ofChar]
    exact .character _ h hchars
  | @parsing tokens f h hf =>
    obtain ⟨c, hrun⟩ := Program.ofTokens_eq_error_iff.mp hf
    have hplaces := places_of_tokens h
    cases alike_of_run h hrun with
    | unexpected _ ht | tooDeep _ ht | badNumber ht => exact hasNotes_place h ht.2
    | @unclosedBlock t _ ht =>
      obtain ⟨seen, brace, hlexemes, hopen, rfl⟩ := exists_openBlock_of_run h hrun
      have hk : brace.token.kind ≠ .endOfSource := hopen.1.trans_ne (by simp)
      rw [ParseFault.diagnostic, notes_unclosedBlock hk (hplaces.stop_le _ ht.2)]
      exact .openBlock h hlexemes hopen

/-! ## The places of notes -/

/-- A token of a source that is not its end has characters. -/
theorem exists_append_of_mem_tokens (h : s.tokens = .ok tokens) {t : Token} (ht : t ∈ tokens)
    (hk : t.kind ≠ .endOfSource) : ∃ front inside back, s.chars = front ++ inside ++ back ∧
      t.start = byteLength front ∧ t.length = byteLength inside ∧ inside ≠ [] := by
  have hplaces := places_of_tokens h
  obtain ⟨front, inside, back, hchars, hstart, hlength⟩ := hplaces.boundaries t ht
  refine ⟨front, inside, back, hchars, hstart, hlength, ?_⟩
  obtain ⟨us, rfl, -⟩ := isLexeme_of_tokens h
  have hpos : 0 < t.length := by
    rcases List.mem_append.mp ht with ht | ht
    · exact hplaces.length_pos t (List.dropLast_concat ▸ ht)
    · obtain rfl := List.mem_singleton.mp ht
      exact absurd rfl hk
  rintro rfl
  rw [hlength] at hpos
  exact absurd hpos (by simp)

theorem pointsInto_span (h : s.tokens = .ok tokens) {t : Token} (ht : t ∈ tokens)
    (hk : t.kind ≠ .endOfSource) (hint? : Option String) :
    Note.PointsInto ⟨t.span s, hint?⟩ s := by
  obtain ⟨front, inside, back, hchars, hstart, hlength, hne⟩ := exists_append_of_mem_tokens h ht hk
  exact Note.pointsInto_of_append rfl hchars hstart hlength hne

theorem pointsInto_spanToEnd (h : s.tokens = .ok tokens) {t : Token} (ht : t ∈ tokens)
    (hk : t.kind ≠ .endOfSource) (hint? : Option String) :
    Note.PointsInto ⟨t.spanToEnd s, hint?⟩ s := by
  obtain ⟨front, inside, back, hchars, hstart, -, hne⟩ := exists_append_of_mem_tokens h ht hk
  have hrest : s.chars = front ++ (inside ++ back) ++ [] := by
    rw [hchars, List.append_nil, List.append_assoc]
  have hlength : s.size - t.start = byteLength (inside ++ back) := by
    rw [size, hrest, List.append_nil, byteLength_append, hstart, Nat.add_sub_cancel_left]
  exact Note.pointsInto_of_append rfl hrest hstart hlength
    (List.append_ne_nil_of_left_ne_nil hne back)

theorem HasNotes.pointsInto {notes : List Note} (h : s.HasNotes notes) :
    ∀ n ∈ notes, n.PointsInto s := by
  cases h with
  | @character failure front back c hint? h hchars =>
    have hcharacter : s.chars = front ++ [c] ++ back := by
      rw [hchars, List.append_assoc, List.singleton_append]
    exact List.forall_mem_singleton.mpr
      (Note.pointsInto_of_append rfl hcharacter rfl rfl (List.cons_ne_nil c []))
  | token h ht hk => exact List.forall_mem_singleton.mpr (pointsInto_span h ht hk none)
  | atEnd h =>
    have hchars : s.chars = s.chars ++ [] ++ [] := by rw [List.append_nil, List.append_nil]
    have hshowable : (Span.point s s.size).IsShowable :=
      (Span.isShowable_of_append hchars rfl rfl).2
    exact List.forall_mem_singleton.mpr ⟨rfl, hshowable, fun hne ↦ absurd rfl hne⟩
  | @openBlock tokens seen brace h hlexemes hopen =>
    have hk : brace.token.kind ≠ .endOfSource := hopen.1.trans_ne (by simp)
    have ht : brace.token ∈ tokens := by
      obtain ⟨-, front, body, rfl⟩ := hopen
      refine token_mem_of_mem_lexemes (s := s) ?_
      rw [hlexemes]
      simp
    rw [List.forall_mem_cons, List.forall_mem_singleton]
    exact ⟨pointsInto_spanToEnd h ht hk _, pointsInto_span h ht hk _⟩

/-- **Notes point into the source.** If a source is no program, at any limit on depths and so if it
is not compiled for that reason, it has one of the notes above, and these point into it. -/
theorem notes_pointInto (s : Source) :
    (∀ fault, s.compile = .error fault →
      (∃ cause, (fault.diagnostic s).kind = .tokenizing cause) ∨
        (fault.diagnostic s).kind = .parsing → s.Rejected defaultLimit (fault.diagnostic s)) ∧
    ∀ limit d, s.Rejected limit d → s.HasNotes d.notes ∧ ∀ n ∈ d.notes, n.PointsInto s := by
  refine ⟨fun fault hfault hkind ↦ ?_, fun limit d hd ↦ ⟨hd.hasNotes, hd.hasNotes.pointsInto⟩⟩
  rcases compile_eq_error_iff.mp hfault with h | ⟨_, f, -, -, rfl⟩
  · rcases program_eq_error_iff.mp h with ⟨failure, htokens, rfl⟩ | ⟨tokens, f, htokens, hf, rfl⟩
    · exact .lexing htokens
    · exact .parsing htokens hf
  · exact absurd hkind (by simp [CompileFault.diagnostic, LoweringFault.diagnostic])

/-- A character of two bytes that begins no token, and a block that is open at the end and found to
be so at the lowest limit. -/
theorem notes_pointInto_openBlock :
    ((ofString "f é").HasNotes ((LexFailure.mk 2 (.unrecognized 'é')).diagnostic
        (ofString "f é")).notes ∧
      ∀ n ∈ ((LexFailure.mk 2 (.unrecognized 'é')).diagnostic (ofString "f é")).notes,
        n.PointsInto (ofString "f é")) ∧
    (ofString "func f(a) \x7b\n").HasNotes
      ((ParseFault.unclosedBlock ⟨.symbol .leftBrace, 10, 1⟩).diagnostic
        (ofString "func f(a) \x7b\n")).notes ∧
    ∀ n ∈ ((ParseFault.unclosedBlock ⟨.symbol .leftBrace, 10, 1⟩).diagnostic
        (ofString "func f(a) \x7b\n")).notes, n.PointsInto (ofString "func f(a) \x7b\n") := by
  have hcharacter : (ofString "f é").tokens = .error ⟨2, .unrecognized 'é'⟩ := by
    decide +kernel
  have hblock : (ofString "func f(a) \x7b\n").scan = ⟨[⟨.keyword .func, 0, 4⟩,
      ⟨.identifier, 5, 1⟩, ⟨.symbol .leftParen, 6, 1⟩, ⟨.identifier, 7, 1⟩,
      ⟨.symbol .rightParen, 8, 1⟩, ⟨.symbol .leftBrace, 10, 1⟩], none⟩ := by
    decide +kernel
  exact ⟨(notes_pointInto _).2 0 _ (.lexing hcharacter),
    (notes_pointInto _).2 0 _ (.parsing (tokens_of_scan hblock) (by decide +kernel))⟩

end Source

end InfixCompiler
