import InfixCompiler.Proofs.Lexing.Readings

/-!
# The tokens of two texts in a row

A lexeme that is the longest one at the end of a text may be a longer one when more text follows.
It takes two characters for that, the last of the one text and the first of the other, which stand
side by side in some symbol, name or number: they *join*. Where they do not, the texts are *apart*,
and the scan of both is the scan of the first and then that of the second, from where the first
ends (`scan_append`).

Literals may hold any characters side by side. But a lexeme that a literal could grow from is a
literal itself, which has its closing quote and ends there whatever follows.
-/

namespace InfixCompiler

open Text

/-! ## Characters side by side -/

/-- Some name, number or symbol has `x` right before `y`. -/
def Joins (x y : Char) : Prop :=
  isNameChar x ∧ isNameChar y ∨ ∃ s : Symbol, [x, y] <:+: s.spelling.toList

/-- Nothing joins across the border from the text `a` to the text `b`. -/
def Apart (a b : List Char) : Prop := ∀ x ∈ a.getLast?, ∀ y ∈ b.head?, ¬ Joins x y

/-- The characters that some symbol has before another one. -/
def precedesInSymbol (c : Char) : Bool := ['!', '=', '>', '<', '.', '&', '|'].contains c

/-- The characters that some symbol has behind another one. -/
def followsInSymbol (c : Char) : Bool := ['=', '.', '&', '|'].contains c

theorem precedesInSymbol_of_followsInSymbol {c : Char} (h : followsInSymbol c) :
    precedesInSymbol c := by
  simp only [followsInSymbol, precedesInSymbol, List.contains_iff_mem, List.mem_cons] at h ⊢
  tauto

theorem isNameChar_of_isDigit {c : Char} (h : c.isDigit) : isNameChar c := by
  simp [isNameChar, Char.isAlphanum, h]

theorem isNameChar_of_isNameStart {c : Char} (h : isNameStart c) : isNameChar c := by
  rcases (Bool.or_eq_true _ _).mp h with h | h
  · simp [isNameChar, h]
  · simp [isNameChar, Char.isAlphanum, h]

theorem IsLexeme.isNameChar_of_mem {text : List Char} (h : IsLexeme text .identifier) :
    ∀ c ∈ text, isNameChar c := by
  cases h with
  | identifier hc hcs => exact List.forall_mem_cons.mpr ⟨isNameChar_of_isNameStart hc, hcs⟩

theorem not_precedesInSymbol_of_isNameChar {c : Char} (h : isNameChar c) :
    ¬ precedesInSymbol c := by
  intro hc
  simp only [precedesInSymbol, List.contains_iff_mem, List.mem_cons, List.not_mem_nil,
    or_false] at hc
  rcases hc with rfl | rfl | rfl | rfl | rfl | rfl | rfl <;> exact absurd h (by decide)

theorem Joins.cases {x y : Char} (h : Joins x y) :
    isNameChar x ∧ isNameChar y ∨ precedesInSymbol x ∧ followsInSymbol y := by
  rcases h with h | ⟨s, front, back, hs⟩
  · exact .inl h
  · right
    revert hs
    cases s <;> rcases front with _ | ⟨c, _ | ⟨d, _ | ⟨e, front⟩⟩⟩ <;>
      simp +contextual [Symbol.spelling, precedesInSymbol, followsInSymbol, eq_comm]

theorem Apart.of_append_left {u v b : List Char} (h : Apart (u ++ v) b) : Apart v b :=
  fun x hx ↦ h x (List.mem_getLast?_append_of_mem_getLast? hx)

/-- The characters that join nothing behind them. -/
def IsCloser (c : Char) : Prop := ¬ isNameChar c ∧ ¬ precedesInSymbol c

theorem isCloser_of_isBlank {c : Char} (h : isBlank c) : IsCloser c := by
  simp only [isBlank, Bool.or_eq_true, beq_iff_eq] at h
  rcases h with (((rfl | rfl) | rfl) | rfl) | rfl <;> exact ⟨by decide, by decide⟩

theorem apart_of_isCloser {a b : List Char} (h : ∀ x ∈ a.getLast?, IsCloser x) : Apart a b :=
  fun x hx _ _ hj ↦ hj.cases.elim (fun hn ↦ (h x hx).1 hn.1) fun hs ↦ (h x hx).2 hs.1

/-- Texts are apart if there is a name on at most one side of the border, and an end of a symbol
that could go on, or the rest of one, on at most one side. -/
theorem apart_of_not {a b : List Char}
    (hname : (∀ x ∈ a.getLast?, ¬ isNameChar x) ∨ ∀ y ∈ b.head?, ¬ isNameChar y)
    (hsymbol : (∀ x ∈ a.getLast?, ¬ precedesInSymbol x) ∨ ∀ y ∈ b.head?, ¬ followsInSymbol y) :
    Apart a b := by
  intro x hx y hy hj
  rcases hj.cases with ⟨hx', hy'⟩ | ⟨hx', hy'⟩
  · exact hname.elim (fun h ↦ h x hx hx') fun h ↦ h y hy hy'
  · exact hsymbol.elim (fun h ↦ h x hx hx') fun h ↦ h y hy hy'

/-- A blank joins nothing before it either. -/
theorem apart_of_head?_isBlank {a b : List Char} (h : ∀ y ∈ b.head?, isBlank y) : Apart a b :=
  apart_of_not (.inr fun y hy ↦ (isCloser_of_isBlank (h y hy)).1) (.inr fun y hy hfollows ↦
    (isCloser_of_isBlank (h y hy)).2 (precedesInSymbol_of_followsInSymbol hfollows))

/-! ## Lexemes across a border -/

/-- A string that begins with a lexeme is that lexeme. -/
theorem IsLexeme.eq_string_of_isPrefix {text ds : List Char} {k : Kind} (h : IsLexeme text k)
    (hds : '\"' ∉ ds) (hp : text <+: '\"' :: (ds ++ ['\"'])) : text = '\"' :: (ds ++ ['\"']) := by
  obtain ⟨ts, rfl, hts⟩ := Munch.exists_eq_cons_of_isLexeme hp h
  have hc := h.of_cons
  rw [if_neg (by decide), if_neg (by decide), if_pos rfl] at hc
  obtain ⟨-, es, rfl, hes⟩ := hc
  -- both end at the first quote
  rw [← Munch.takeWhile_eq_of_append hts hes,
    Munch.takeWhile_eq_of_append List.prefix_rfl hds]

/-- A quoted character that begins with a lexeme is that lexeme. -/
theorem IsLexeme.eq_character_of_isPrefix {text : List Char} {c : Char} {k : Kind}
    (h : IsLexeme text k) (hp : text <+: ['\'', c, '\'']) : text = ['\'', c, '\''] := by
  obtain ⟨ts, rfl, hts⟩ := Munch.exists_eq_cons_of_isLexeme hp h
  have hc := h.of_cons
  rw [if_neg (by decide), if_neg (by decide), if_neg (by decide), if_pos rfl] at hc
  obtain ⟨-, d, rfl⟩ := hc
  exact congrArg _ (hts.eq_of_length rfl)

/-- Two characters of a lexeme join, if they are behind a lexeme that it begins with. -/
theorem IsLexeme.joins {text front back : List Char} {x y : Char} {k k' : Kind}
    (h : IsLexeme text k) (h' : IsLexeme (front ++ x :: y :: back) k')
    (hp : text <+: front ++ [x]) : Joins x y := by
  have hsub : text <+: front ++ x :: y :: back :=
    hp.trans ⟨y :: back, by simp⟩
  have hne : text ≠ front ++ x :: y :: back := fun he ↦ by
    have := hp.length_le
    rw [he] at this
    simp at this
  generalize hw : front ++ x :: y :: back = w at h' hsub hne
  have hx : x ∈ w := by simp [← hw]
  have hy : y ∈ w := by simp [← hw]
  cases h' with
  | symbol s => exact .inr ⟨s, front, back, by simp [← hw]⟩
  | @number c cs hc hcs =>
    have hall : ∀ d ∈ c :: cs, d.isDigit := List.forall_mem_cons.mpr ⟨hc, hcs⟩
    exact .inl ⟨isNameChar_of_isDigit (hall x hx), isNameChar_of_isDigit (hall y hy)⟩
  | @keyword c cs k hc hcs hk =>
    have hall : ∀ d ∈ c :: cs, isNameChar d :=
      List.forall_mem_cons.mpr ⟨isNameChar_of_isNameStart hc, hcs⟩
    exact .inl ⟨hall x hx, hall y hy⟩
  | @identifier c cs hc hcs hk =>
    have hall : ∀ d ∈ c :: cs, isNameChar d :=
      List.forall_mem_cons.mpr ⟨isNameChar_of_isNameStart hc, hcs⟩
    exact .inl ⟨hall x hx, hall y hy⟩
  | string hcs => exact absurd (h.eq_string_of_isPrefix hcs hsub) hne
  | character c => exact absurd (h.eq_character_of_isPrefix hsub) hne

/-- What is the longest lexeme of a text stays it when another text follows that is apart. -/
theorem IsLongestLexeme.append {text rest b : List Char} {k : Kind}
    (h : IsLongestLexeme (text ++ rest) text k) (hab : Apart (text ++ rest) b) :
    IsLongestLexeme (text ++ (rest ++ b)) text k := by
  refine ⟨List.prefix_append _ _, h.isLexeme, ?_⟩
  intro text' k' ⟨more, hmore⟩ hk'
  rw [← List.append_assoc] at hmore
  rcases List.append_eq_append_iff.mp hmore with ⟨as, has, -⟩ | ⟨bs, rfl, hbs⟩
  · exact h.length_le text' k' ⟨as, has.symm⟩ hk'
  · rcases bs with _ | ⟨y, back⟩
    · rw [List.append_nil] at hk' ⊢
      exact h.length_le _ k' List.prefix_rfl hk'
    -- a lexeme that goes on behind the border has the characters at both sides of it
    obtain ⟨front, x, hfront⟩ := List.eq_nil_or_concat' (text ++ rest) |>.resolve_left
      fun he ↦ h.isLexeme.ne_nil (List.append_eq_nil_iff.mp he).1
    have hx : x ∈ (text ++ rest).getLast? := by rw [hfront, List.getLast?_concat]; rfl
    have hy : y ∈ b.head? := by rw [hbs]; rfl
    have hlexeme : IsLexeme (front ++ x :: y :: back) k' := by
      rwa [hfront, List.append_assoc] at hk'
    have htext : text <+: front ++ [x] := hfront ▸ List.prefix_append text rest
    exact absurd (h.isLexeme.joins hlexeme htext) (hab x hx y hy)

/-! ## Scans -/

/-- A lexeme alone is one token. -/
theorem scan_lexeme {text : List Char} {k : Kind} (h : IsLexeme text k) (offset : Nat) :
    scan offset text = ⟨[⟨k, offset, byteLength text⟩], none⟩ := by
  have hlongest : IsLongestLexeme (text ++ []) text k :=
    ⟨List.prefix_append _ _, h, fun text' _ hp _ ↦ by simpa using hp.length_le⟩
  have hscan := scan_of_isLongestLexeme hlongest offset
  rw [List.append_nil, scan] at hscan
  exact hscan

/-- More tokens in front of a scan. -/
def Scan.after (ts : List Token) (s : Scan) : Scan := { s with tokens := ts ++ s.tokens }

theorem scan_append_of_isReading {a b : List Char} {ps : List Piece} (h : IsReading a ps)
    (hab : Apart a b) (offset : Nat) :
    scan offset (a ++ b) = (scan (offset + byteLength a) b).after (Piece.tokens offset ps) := by
  induction h generalizing offset with
  | blanks hws => rw [scan_blanks hws]; rfl
  | @piece p rest ps hblanks hmaximal hlongest _ ih =>
    have hab' : Apart (p.text ++ rest) b := hab.of_append_left
    have hgrown := hlongest.append hab'
    have hoffset : offset + byteLength (p.blanks ++ (p.text ++ rest))
        = offset + byteLength p.blanks + byteLength p.text + byteLength rest := by
      rw [byteLength_append, byteLength_append]
      omega
    rw [List.append_assoc, List.append_assoc, hoffset, scan_blanks hblanks,
      scan_of_isLongestLexeme hgrown, ih hab'.of_append_left]
    rfl

/-- **Scans of two texts in a row.** Behind a text that has tokens, and apart from it, another text
is scanned as if nothing were before it. -/
theorem scan_append {offset : Nat} {a b : List Char} {ts : List Token}
    (h : scan offset a = ⟨ts, none⟩) (hab : Apart a b) :
    scan offset (a ++ b) = (scan (offset + byteLength a) b).after ts := by
  obtain ⟨ps, hps⟩ := exists_isReading (congrArg Scan.failure? h)
  rw [scan_of_isReading hps] at h
  rw [scan_append_of_isReading hps hab, (Scan.mk.inj h).1]

/-! ## Places -/

/-- The token `k` bytes further on. -/
def Token.shift (k : Nat) (t : Token) : Token := { t with start := t.start + k }

/-- The failure `k` bytes further on. -/
def LexFailure.shift (k : Nat) (f : LexFailure) : LexFailure := { f with offset := f.offset + k }

/-- The span, in `source`, `k` bytes further on. -/
def Span.shift (source : Source) (k : Nat) (s : Span) : Span := ⟨source, s.offset + k, s.length⟩

/-- The note, in `source`, `k` bytes further on. -/
def Note.shift (source : Source) (k : Nat) (note : Note) : Note :=
  { note with span := note.span.shift source k }

/-- The diagnostic, in `source`, with all of its notes `k` bytes further on. -/
def Diagnostic.shift (source : Source) (k : Nat) (d : Diagnostic) : Diagnostic :=
  { d with notes := d.notes.map (Note.shift source k) }

/-- The scan `k` bytes further on. -/
def Scan.shift (k : Nat) (s : Scan) : Scan :=
  ⟨s.tokens.map (Token.shift k), s.failure?.map (LexFailure.shift k)⟩

/-- Where a scan begins has no influence but on the places in it. -/
theorem scan_add (offset k : Nat) (cs : List Char) :
    scan (offset + k) cs = (scan offset cs).shift k := by
  induction offset, cs using scan_induction with
  | nil offset =>
    rw [scan, scan]
    rfl
  | blank offset c cs hc ih => rw [scan, scan, if_pos hc, if_pos hc, Nat.add_right_comm, ih]
  | fails offset c cs fault hc hfirst =>
    rw [scan, scan, if_neg hc, if_neg hc, hfirst]
    rfl
  | lexeme offset text rest kind hlongest ih =>
    rw [scan_of_isLongestLexeme hlongest, scan_of_isLongestLexeme hlongest, Nat.add_right_comm, ih]
    rfl

/-! ## Lexemes of a text -/

/-- What a lexeme is, wherever it is. -/
def Lexeme.content (l : Lexeme) : Kind × String := (l.kind, l.text)

/-- The lexeme that is written as `text` at byte `offset`. -/
def Lexeme.written (k : Kind) (offset : Nat) (text : List Char) : Lexeme :=
  ⟨⟨k, offset, byteLength text⟩, String.ofList text⟩

/-- The lexeme `k` bytes further on. -/
def Lexeme.shift (k : Nat) (l : Lexeme) : Lexeme := { l with token := l.token.shift k }

/-- Behind `front`, the text `cs` is scanned as the lexemes `ls`. -/
structure Lexes (front cs : List Char) (ls : List Lexeme) : Prop where
  /-- The scan comes to the end, and has the tokens of the lexemes. -/
  scan : scan (byteLength front) cs = ⟨ls.map Lexeme.token, none⟩
  /-- The texts of the lexemes are there. -/
  text : ∀ l ∈ ls, l.token.text (front ++ cs) = l.text

theorem Token.text_append {t : Token} {front inside : List Char}
    (hstart : t.start = byteLength front) (hlength : t.length = byteLength inside)
    (back : List Char) :
    t.text (front ++ inside ++ back) = String.ofList inside := by
  rw [Token.text, hstart, hlength, slice_append]

/-- Tokens of a scan are ranges of the text that was scanned. -/
theorem exists_place_of_scan {front cs : List Char} {ts : List Token}
    (h : scan (byteLength front) cs = ⟨ts, none⟩) : ∀ t ∈ ts, ∃ front' inside back,
      front ++ cs = front' ++ inside ++ back ∧ t.start = byteLength front' ∧
        t.length = byteLength inside := by
  intro t ht
  obtain ⟨ps, hps⟩ := exists_isReading (congrArg Scan.failure? h)
  rw [scan_of_isReading hps] at h
  rw [← (Scan.mk.inj h).1] at ht
  obtain ⟨front', inside, back, hcs, hstart, hlength, -⟩ := hps.exists_place front t ht
  exact ⟨front', inside, back, hcs, hstart, hlength⟩

namespace Lexes

variable {front a b ws cs : List Char} {ls ms : List Lexeme}

theorem of_scan {ts : List Token} (h : InfixCompiler.scan (byteLength front) cs = ⟨ts, none⟩) :
    Lexes front cs (ts.map fun t ↦ ⟨t, t.text (front ++ cs)⟩) := by
  refine ⟨by rw [h, List.map_map]; exact congrArg (Scan.mk · none) (List.map_id _).symm, ?_⟩
  intro l hl
  obtain ⟨t, -, rfl⟩ := List.mem_map.mp hl
  rfl

theorem blanks (hws : ∀ c ∈ ws, isBlank c) : Lexes front ws [] := by
  refine ⟨?_, List.forall_mem_nil _⟩
  have hscan := scan_blanks hws (byteLength front) []
  rw [List.append_nil] at hscan
  rw [hscan, InfixCompiler.scan]
  rfl

theorem lexeme {k : Kind} {text : List Char} (h : IsLexeme text k) :
    Lexes front text [.written k (byteLength front) text] := by
  refine ⟨scan_lexeme h _, List.forall_mem_singleton.mpr ?_⟩
  have := Token.text_append (t := ⟨k, byteLength front, byteLength text⟩) rfl rfl []
  rwa [List.append_nil] at this

theorem text_append (h : Lexes front cs ls) (back : List Char) :
    ∀ l ∈ ls, l.token.text (front ++ (cs ++ back)) = l.text := by
  intro l hl
  obtain ⟨front', inside, back', hcs, hstart, hlength⟩ :=
    exists_place_of_scan h.scan l.token (List.mem_map_of_mem hl)
  rw [← h.text l hl, ← List.append_assoc, hcs, Token.text_append hstart hlength, List.append_assoc,
    Token.text_append hstart hlength]

/-- The lexemes of two texts that are apart are those of the one and those of the other. -/
theorem append (ha : Lexes front a ls) (hb : Lexes (front ++ a) b ms) (hab : Apart a b) :
    Lexes front (a ++ b) (ls ++ ms) := by
  constructor
  · rw [scan_append ha.scan hab, ← byteLength_append, hb.scan, List.map_append]
    rfl
  · refine List.forall_mem_append.mpr ⟨ha.text_append b, ?_⟩
    rw [← List.append_assoc]
    exact hb.text

/-- Blanks behind a text are none of its lexemes. -/
theorem before_blanks (h : Lexes front cs ls) (hws : ∀ c ∈ ws, isBlank c) :
    Lexes front (cs ++ ws) ls := by
  have := h.append (blanks hws) (apart_of_head?_isBlank fun c hc ↦ hws c (List.mem_of_head? hc))
  rwa [List.append_nil] at this

/-- Blanks before a text are none of its lexemes. -/
theorem after_blanks (hws : ∀ c ∈ ws, isBlank c) (h : Lexes (front ++ ws) cs ls) :
    Lexes front (ws ++ cs) ls :=
  (blanks hws).append h (apart_of_isCloser fun c hc ↦
    isCloser_of_isBlank (hws c (List.mem_of_getLast? hc)))

/-- The lexemes of a text are further on behind another text. -/
theorem shift (h : Lexes [] cs ls) (front : List Char) :
    Lexes front cs (ls.map (Lexeme.shift (byteLength front))) := by
  have hscan := h.scan
  rw [byteLength_nil] at hscan
  constructor
  · rw [← Nat.zero_add (byteLength front), scan_add, hscan, Nat.zero_add, List.map_map]
    simp only [Scan.shift, List.map_map, Option.map_none]
    rfl
  · intro l hl
    obtain ⟨l, hl', rfl⟩ := List.mem_map.mp hl
    obtain ⟨front', inside, back, hcs, hstart, hlength⟩ :=
      exists_place_of_scan h.scan l.token (List.mem_map_of_mem hl')
    have htext := h.text l hl'
    rw [List.nil_append] at hcs htext
    have hstart' : (l.token.shift (byteLength front)).start = byteLength (front ++ front') := by
      rw [byteLength_append, Token.shift, hstart, Nat.add_comm]
    rw [hcs, Token.text_append hstart hlength] at htext
    rw [hcs, ← List.append_assoc, ← List.append_assoc]
    exact (Token.text_append hstart' hlength back).trans htext

end Lexes

namespace Source

variable {s : Source} {ls : List Lexeme}

/-- The tokens of a source by its lexemes. -/
theorem tokens_of_lexes (h : Lexes [] s.chars ls) :
    s.tokens = .ok (ls.map Lexeme.token ++ [.endAt s.size]) :=
  tokens_of_scan h.scan

theorem lexemes_map_token (h : Lexes [] s.chars ls) : s.lexemes (ls.map Lexeme.token) = ls := by
  rw [lexemes, List.map_map]
  conv_rhs => rw [← List.map_id ls]
  refine List.map_congr_left fun l hl ↦ ?_
  exact congrArg (Lexeme.mk l.token) (h.text l hl)

theorem lexemes_of_lexes (h : Lexes [] s.chars ls) :
    s.lexemes (ls.map Lexeme.token ++ [.endAt s.size]) = ls ++ [⟨.endAt s.size, ""⟩] := by
  rw [lexemes_append, lexemes_endAt, lexemes_map_token h]

theorem exists_lexes_of_tokens {tokens : List Token} (h : s.tokens = .ok tokens) :
    ∃ ls, Lexes [] s.chars ls ∧ tokens = ls.map Lexeme.token ++ [.endAt s.size] := by
  obtain ⟨hscan, rfl⟩ := scan_of_tokens h
  have hall : InfixCompiler.scan (byteLength []) s.chars = ⟨s.scan.tokens, none⟩ := by
    rw [← hscan]
    rfl
  refine ⟨_, .of_scan hall, ?_⟩
  rw [List.map_map]
  exact congrArg (· ++ [Token.endAt s.size]) (List.map_id _).symm

end Source

/-! ## Sources in a row -/

namespace Source

variable {s t u : Source} (hu : u.contents = s.contents ++ t.contents)
include hu

theorem chars_append : u.chars = s.chars ++ t.chars := by
  rw [chars, hu, String.toList_append]
  rfl

theorem size_append : u.size = t.size + s.size := by
  rw [size, chars_append hu, byteLength_append, Nat.add_comm]
  rfl

theorem lexes_append {ls ms : List Lexeme} (hls : Lexes [] s.chars ls) (hms : Lexes [] t.chars ms)
    (hapart : Apart s.chars t.chars) : Lexes [] u.chars (ls ++ ms.map (Lexeme.shift s.size)) :=
  chars_append hu ▸ hls.append (hms.shift s.chars) hapart

theorem tokens_append_of_ok {ls : List Lexeme} (hls : Lexes [] s.chars ls)
    (hapart : Apart s.chars t.chars) {ts : List Token} (h : t.tokens = .ok ts) :
    u.tokens = .ok (ls.map Lexeme.token ++ ts.map (Token.shift s.size)) := by
  obtain ⟨ms, hms, rfl⟩ := exists_lexes_of_tokens h
  have hend : Token.endAt u.size = (Token.endAt t.size).shift s.size := by
    rw [size_append hu]
    rfl
  rw [tokens_of_lexes (lexes_append hu hls hms hapart), hend, List.map_append, List.map_append,
    List.map_map, List.map_map, List.append_assoc]
  rfl

theorem tokens_append_of_error {ls : List Lexeme} (hls : Lexes [] s.chars ls)
    (hapart : Apart s.chars t.chars) {failure : LexFailure} (h : t.tokens = .error failure) :
    u.tokens = .error (failure.shift s.size) := by
  have hscan : u.scan = (t.scan.shift s.size).after (ls.map Lexeme.token) := by
    have happend := InfixCompiler.scan_append hls.scan hapart
    rw [byteLength_nil, scan_add] at happend
    rw [scan, chars_append hu, happend]
    rfl
  rw [tokens, hscan, Scan.after, Scan.shift, scan_of_tokens_eq_error h]
  rfl

end Source

end InfixCompiler
