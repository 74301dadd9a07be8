import InfixCompiler.Proofs.Lexing

/-!
# The tokens of a text

A text is read as blanks and lexemes in turn, each lexeme the longest that there is where the blanks
before it end. The scan has tokens for a text if and only if the text has such a reading, and then
it has one for each lexeme, at the place of the lexeme (`Source.tokens_eq_ok_iff`).

Places are bytes and readings are characters. All statements about places are therefore made for a
reading behind some `front`, the characters that come before; the offset of the scan is the number
of their bytes.
-/

namespace InfixCompiler

open Text

theorem Text.byteLength_pos {cs : List Char} (h : cs ≠ []) : 0 < byteLength cs := by
  obtain ⟨c, cs, rfl⟩ := List.exists_cons_of_ne_nil h
  have := c.utf8Size_pos
  rw [byteLength_cons]
  omega

/-! ## Readings -/

/-- A lexeme and the blanks before it. -/
structure Piece where
  /-- The blanks. -/
  blanks : List Char
  /-- The lexeme. -/
  text : List Char
  /-- What the lexeme is. -/
  kind : Kind

/-- The text `input` is made of the pieces, and of blanks after them. -/
inductive IsReading : List Char → List Piece → Prop
  | blanks {ws : List Char} (hws : ∀ c ∈ ws, isBlank c) : IsReading ws []
  | piece {p : Piece} {rest : List Char} {ps : List Piece} (hblanks : ∀ c ∈ p.blanks, isBlank c)
      (hmaximal : ∀ c ∈ (p.text ++ rest).head?, ¬ isBlank c)
      (hlongest : IsLongestLexeme (p.text ++ rest) p.text p.kind) (hrest : IsReading rest ps) :
      IsReading (p.blanks ++ (p.text ++ rest)) (p :: ps)

/-- One token for each piece, from byte `offset` on. -/
def Piece.tokens : Nat → List Piece → List Token
  | _, [] => []
  | offset, p :: ps =>
    let token : Token := ⟨p.kind, offset + byteLength p.blanks, byteLength p.text⟩
    token :: tokens token.stop ps

theorem scan_blanks {ws : List Char} (hws : ∀ c ∈ ws, isBlank c) (offset : Nat) (cs : List Char) :
    scan offset (ws ++ cs) = scan (offset + byteLength ws) cs := by
  induction ws generalizing offset with
  | nil => rfl
  | cons w ws ih =>
    rw [List.forall_mem_cons] at hws
    rw [List.cons_append, scan, if_pos hws.1, ih hws.2, byteLength_cons, Nat.add_assoc]

/-- The scan of a text that begins with its longest lexeme. -/
theorem scan_of_isLongestLexeme {text rest : List Char} {k : Kind}
    (h : IsLongestLexeme (text ++ rest) text k) (offset : Nat) : scan offset (text ++ rest)
      = (scan (offset + byteLength text) rest).cons ⟨k, offset, byteLength text⟩ := by
  obtain ⟨c, cs, rfl⟩ := List.exists_cons_of_ne_nil h.isLexeme.ne_nil
  rw [List.cons_append] at h ⊢
  obtain ⟨m, hm, htext, hkind⟩ := Munch.first_eq_ok_iff.mpr h
  have hrest : m.rest = rest := by
    have := m.text_append_rest
    rw [htext, List.cons_append, List.cons.injEq] at this
    exact List.append_cancel_left this.2
  rw [scan, if_neg h.isLexeme.not_isBlank, hm]
  dsimp only
  rw [htext, hkind, hrest]
  rfl

/-- Induction along a scan. It passes blanks and takes longest lexemes, until the text ends or there
is no lexeme. -/
theorem scan_induction {motive : Nat → List Char → Prop} (nil : ∀ offset, motive offset [])
    (blank : ∀ offset c cs, isBlank c → motive (offset + c.utf8Size) cs → motive offset (c :: cs))
    (fails : ∀ offset c cs fault, ¬ isBlank c → Munch.first c cs = .error fault →
      motive offset (c :: cs))
    (lexeme : ∀ offset text rest k, IsLongestLexeme (text ++ rest) text k →
      motive (offset + byteLength text) rest → motive offset (text ++ rest))
    (offset : Nat) (cs : List Char) : motive offset cs := by
  induction hm : cs.length using Nat.strongRecOn generalizing offset cs with
  | ind m ih =>
  rcases cs with _ | ⟨c, cs⟩
  · exact nil offset
  by_cases hc : isBlank c
  · exact blank offset c cs hc (ih cs.length (hm ▸ Nat.lt_succ_self _) _ cs rfl)
  cases hfirst : Munch.first c cs with
  | error fault => exact fails offset c cs fault hc hfirst
  | ok m =>
    have hlongest : IsLongestLexeme (m.text ++ m.rest) m.text m.kind := by
      rw [m.text_append_rest]
      exact Munch.isLongestLexeme_first hfirst
    have hall := lexeme offset _ _ _ hlongest
      (ih m.rest.length (hm ▸ m.length_rest_lt) _ m.rest rfl)
    rwa [m.text_append_rest] at hall

/-- The scan of a text with a reading. -/
theorem scan_of_isReading {cs : List Char} {ps : List Piece} (h : IsReading cs ps) (offset : Nat) :
    scan offset cs = ⟨Piece.tokens offset ps, none⟩ := by
  induction h generalizing offset with
  | @blanks ws hws =>
    have := scan_blanks hws offset []
    rw [List.append_nil] at this
    rw [this, scan]
    rfl
  | piece hblanks hmaximal hlongest _ ih =>
    rw [scan_blanks hblanks, scan_of_isLongestLexeme hlongest, ih]
    rfl

theorem IsReading.cons_blank {c : Char} {cs : List Char} {ps : List Piece} (h : IsReading cs ps)
    (hc : isBlank c) : ∃ ps', IsReading (c :: cs) ps' := by
  rcases h with hws | ⟨hblanks, hmaximal, hlongest, hrest⟩
  · exact ⟨[], .blanks (List.forall_mem_cons.mpr ⟨hc, hws⟩)⟩
  · next p rest ps =>
    let p' : Piece := { p with blanks := c :: p.blanks }
    have hblanks' : ∀ c ∈ p'.blanks, isBlank c := List.forall_mem_cons.mpr ⟨hc, hblanks⟩
    exact ⟨p' :: ps, .piece hblanks' hmaximal hlongest hrest⟩

/-- A scan that comes to the end of the text has found a reading of it. -/
theorem exists_isReading {offset : Nat} {cs : List Char} (h : (scan offset cs).failure? = none) :
    ∃ ps, IsReading cs ps := by
  induction offset, cs using scan_induction with
  | nil => exact ⟨[], .blanks (List.forall_mem_nil _)⟩
  | blank offset c cs hc ih =>
    rw [scan, if_pos hc] at h
    obtain ⟨ps, hps⟩ := ih h
    exact hps.cons_blank hc
  | fails offset c cs fault hc hfirst =>
    rw [scan, if_neg hc, hfirst] at h
    exact absurd h (Option.some_ne_none _)
  | lexeme offset text rest k hlongest ih =>
    rw [scan_of_isLongestLexeme hlongest] at h
    obtain ⟨ps, hps⟩ := ih h
    have hmaximal : ∀ c ∈ (text ++ rest).head?, ¬ isBlank c := by
      obtain ⟨c, cs, rfl⟩ := List.exists_cons_of_ne_nil hlongest.isLexeme.ne_nil
      rintro _ ⟨⟩
      exact hlongest.isLexeme.not_isBlank
    exact ⟨_, .piece (p := ⟨[], text, k⟩) (List.forall_mem_nil _) hmaximal hlongest hps⟩

/-! ## Places -/

/-- A token of a reading is a lexeme at its place. -/
theorem IsReading.exists_place {cs : List Char} {ps : List Piece} (h : IsReading cs ps) :
    ∀ (front : List Char), ∀ t ∈ Piece.tokens (byteLength front) ps,
      ∃ front' inside back, front ++ cs = front' ++ inside ++ back ∧
        t.start = byteLength front' ∧ t.length = byteLength inside ∧ IsLexeme inside t.kind := by
  induction h with
  | blanks hws => simp [Piece.tokens]
  | @piece p rest ps hblanks hmaximal hlongest _ ih =>
    intro front t ht
    rw [Piece.tokens] at ht
    rcases List.mem_cons.mp ht with rfl | ht
    · refine ⟨front ++ p.blanks, p.text, rest, by simp, ?_, rfl, hlongest.isLexeme⟩
      rw [byteLength_append]
    · have hstop : byteLength front + byteLength p.blanks + byteLength p.text
          = byteLength (front ++ (p.blanks ++ p.text)) := by
        rw [byteLength_append, byteLength_append, Nat.add_assoc]
      rw [Token.stop, hstop] at ht
      obtain ⟨front', inside, back, hcs, hplace⟩ := ih _ t ht
      exact ⟨front', inside, back, by rw [← hcs]; simp, hplace⟩

/-- The tokens of a reading are in order, and nothing but blanks is between them. -/
def BlanksApart (cs : List Char) : Nat → List Token → Prop
  | _, [] => True
  | i, t :: ts =>
    (∃ front gap back, cs = front ++ gap ++ back ∧ byteLength front = i ∧
      byteLength (front ++ gap) = t.start ∧ ∀ c ∈ gap, isBlank c) ∧ BlanksApart cs t.stop ts

theorem IsReading.blanksApart {cs : List Char} {ps : List Piece} (h : IsReading cs ps)
    (front : List Char) : BlanksApart (front ++ cs) (byteLength front)
      (Piece.tokens (byteLength front) ps ++ [.endAt (byteLength (front ++ cs))]) := by
  induction h generalizing front with
  | @blanks ws hws =>
    refine ⟨⟨front, ws, [], ?_, rfl, rfl, hws⟩, trivial⟩
    rw [List.append_nil]
  | @piece p rest ps hblanks hmaximal hlongest _ ih =>
    refine ⟨⟨front, p.blanks, p.text ++ rest, by simp, rfl, byteLength_append _ _, hblanks⟩, ?_⟩
    have hstop : byteLength front + byteLength p.blanks + byteLength p.text
        = byteLength (front ++ (p.blanks ++ p.text)) := by
      rw [byteLength_append, byteLength_append, Nat.add_assoc]
    have hcs : front ++ (p.blanks ++ (p.text ++ rest)) = front ++ (p.blanks ++ p.text) ++ rest := by
      simp
    rw [Token.stop, hstop, hcs]
    exact ih _

theorem BlanksApart.le_start {cs : List Char} {i : Nat} {ts : List Token}
    (h : BlanksApart cs i ts) : ∀ t ∈ ts, i ≤ t.start := by
  induction ts generalizing i with
  | nil => simp
  | cons t ts ih =>
    obtain ⟨⟨front, gap, back, _, rfl, hstart, _⟩, hts⟩ := h
    have hle : byteLength front ≤ t.start := by
      rw [← hstart, byteLength_append]
      omega
    refine List.forall_mem_cons.mpr ⟨hle, ?_⟩
    intro u hu
    have := ih hts u hu
    rw [Token.stop] at this
    omega

theorem BlanksApart.pairwise {cs : List Char} {i : Nat} {ts : List Token}
    (h : BlanksApart cs i ts) : ts.Pairwise fun t u ↦ t.stop ≤ u.start := by
  induction ts generalizing i with
  | nil => exact .nil
  | cons t ts ih => exact .cons h.2.le_start (ih h.2)

/-- Where the tokens of a source are. -/
structure Source.Places (s : Source) (tokens : List Token) : Prop where
  /-- Both ends of a token are between two characters, or at an end of the source. -/
  boundaries : ∀ t ∈ tokens, ∃ front inside back, s.chars = front ++ inside ++ back ∧
    t.start = byteLength front ∧ t.length = byteLength inside
  /-- No token goes past the end of the source. -/
  stop_le : ∀ t ∈ tokens, t.stop ≤ s.size
  /-- Only the end of the source is empty. -/
  length_pos : ∀ t ∈ tokens.dropLast, 0 < t.length
  /-- Each token ends before the next ones begin. -/
  increasing : tokens.Pairwise fun t u ↦ t.stop ≤ u.start
  /-- Between two tokens, and before the first one, there are only blanks. -/
  blanksApart : BlanksApart s.chars 0 tokens

namespace Source

variable {s : Source} {tokens : List Token}

theorem tokens_of_scan {ts : List Token} (h : s.scan = ⟨ts, none⟩) :
    s.tokens = .ok (ts ++ [.endAt s.size]) := by
  rw [Source.tokens, h]

theorem scan_of_tokens (h : s.tokens = .ok tokens) :
    s.scan.failure? = none ∧ tokens = s.scan.tokens ++ [.endAt s.size] := by
  rw [Source.tokens] at h
  split at h
  · next hscan => exact ⟨hscan, (Except.ok.inj h).symm⟩
  · exact absurd h (by simp)

theorem scan_of_tokens_eq_error {failure : LexFailure} (h : s.tokens = .error failure) :
    s.scan.failure? = some failure := by
  rw [Source.tokens] at h
  split at h
  · exact absurd h (by simp)
  · next hscan => rw [hscan, Except.error.inj h]

theorem exists_isReading_of_tokens (h : s.tokens = .ok tokens) :
    ∃ ps, IsReading s.chars ps ∧ tokens = Piece.tokens 0 ps ++ [.endAt s.size] := by
  obtain ⟨hscan, rfl⟩ := scan_of_tokens h
  obtain ⟨ps, hps⟩ := exists_isReading hscan
  refine ⟨ps, hps, ?_⟩
  rw [Source.scan, scan_of_isReading hps]

theorem tokens_of_isReading {ps : List Piece} (h : IsReading s.chars ps) :
    s.tokens = .ok (Piece.tokens 0 ps ++ [.endAt s.size]) :=
  tokens_of_scan (scan_of_isReading h 0)

theorem places_of_isReading {ps : List Piece} (h : IsReading s.chars ps) :
    s.Places (Piece.tokens 0 ps ++ [.endAt s.size]) := by
  have happart := h.blanksApart []
  have hplace := h.exists_place []
  rw [List.nil_append, byteLength_nil] at happart hplace
  have hboundaries : ∀ t ∈ Piece.tokens 0 ps ++ [.endAt s.size], ∃ front inside back,
      s.chars = front ++ inside ++ back ∧ t.start = byteLength front ∧
        t.length = byteLength inside := by
    intro t ht
    rcases List.mem_append.mp ht with ht | ht
    · obtain ⟨front, inside, back, hcs, hstart, hlength, _⟩ := hplace t ht
      exact ⟨front, inside, back, hcs, hstart, hlength⟩
    · obtain rfl := List.mem_singleton.mp ht
      exact ⟨s.chars, [], [], by simp, rfl, rfl⟩
  refine ⟨hboundaries, ?_, ?_, happart.pairwise, happart⟩
  · intro t ht
    obtain ⟨front, inside, back, hcs, hstart, hlength⟩ := hboundaries t ht
    rw [Source.size, hcs, byteLength_append, byteLength_append, Token.stop, hstart, hlength]
    omega
  · intro t ht
    rw [List.dropLast_concat] at ht
    obtain ⟨front, inside, back, _, _, hlength, hlexeme⟩ := hplace t ht
    rw [hlength]
    exact byteLength_pos hlexeme.ne_nil

theorem places_of_tokens (h : s.tokens = .ok tokens) : s.Places tokens := by
  obtain ⟨ps, hps, rfl⟩ := exists_isReading_of_tokens h
  exact places_of_isReading hps

/-- **The tokens of a source.** There are tokens if and only if the source has a reading. They are
one for each lexeme, at its place and of its length and kind, and then the end. -/
theorem tokens_eq_ok_iff (s : Source) (tokens : List Token) :
    (s.tokens = .ok tokens ↔
      ∃ ps, IsReading s.chars ps ∧ tokens = Piece.tokens 0 ps ++ [.endAt s.size]) ∧
    (s.tokens = .ok tokens → s.Places tokens) := by
  constructor
  · constructor
    · exact exists_isReading_of_tokens
    · -- the scan of a text with a reading is that reading, whichever it is
      rintro ⟨ps, hps, rfl⟩
      exact tokens_of_isReading hps
  · exact places_of_tokens

/-- A symbol of two characters is one token, and so is a character of two bytes in its quotes. -/
theorem places_comparison : (ofString "x >= 'é'").Places
    [⟨.identifier, 0, 1⟩, ⟨.symbol .greaterEq, 2, 2⟩, ⟨.character, 5, 4⟩, .endAt 9] := by
  have hscan : (ofString "x >= 'é'").scan
      = ⟨[⟨.identifier, 0, 1⟩, ⟨.symbol .greaterEq, 2, 2⟩, ⟨.character, 5, 4⟩], none⟩ := by
    decide +kernel
  exact (tokens_eq_ok_iff _ _).2 (tokens_of_scan hscan)

/-! ## Texts of tokens -/

theorem lexemes_append (s : Source) (ts us : List Token) :
    s.lexemes (ts ++ us) = s.lexemes ts ++ s.lexemes us := List.map_append

theorem lexemes_endAt (s : Source) : s.lexemes [.endAt s.size] = [⟨.endAt s.size, ""⟩] := by
  have hslice := slice_append s.chars [] []
  rw [List.append_nil, List.append_nil, byteLength_nil] at hslice
  have htext : (Token.endAt s.size).text s.chars = "" := by
    rw [Token.text]
    exact congrArg String.ofList hslice
  exact congrArg (fun text ↦ [Lexeme.mk (.endAt s.size) text]) htext

/-- The tokens of a source before its end, with their texts, are lexemes. -/
theorem isLexeme_of_tokens (h : s.tokens = .ok tokens) : ∃ ts, tokens = ts ++ [.endAt s.size] ∧
    ∀ l ∈ s.lexemes ts, IsLexeme l.text.toList l.kind := by
  obtain ⟨ps, hps, rfl⟩ := exists_isReading_of_tokens h
  refine ⟨_, rfl, ?_⟩
  intro l hl
  obtain ⟨t, ht, rfl⟩ := List.mem_map.mp hl
  obtain ⟨front, inside, back, hcs, hstart, hlength, hlexeme⟩ := hps.exists_place [] t ht
  rw [List.nil_append] at hcs
  have htext : t.text s.chars = String.ofList inside := by
    rw [Token.text, hstart, hlength, hcs, slice_append]
  change IsLexeme (t.text s.chars).toList t.kind
  rwa [htext, String.toList_ofList]

end Source

end InfixCompiler
