import InfixCompiler.Proofs.Lexing.Concatenation

/-!
# Blanks between texts

A blank joins nothing, neither before it nor behind it. So a text behind blanks has its tokens, or
its failure, whatever text with tokens is before the blanks (`Source.tokens_append_blanks_append`).

The same holds lexeme by lexeme. The lexemes of a source may be written down again with any blanks
between them, and are then found again, each as what it was (`Source.tokens_of_spaced`). In the
source some of them may have had no blanks between them, but here there must be some: a dot and
three dots would be three dots and one.
-/

namespace InfixCompiler

open Text

/-! ## Two texts -/

/-- **Tokens across blanks.** Behind a source that has tokens, and at least one blank, another
source has the tokens or the failure that it has alone, further on by the length of both. -/
theorem Source.tokens_append_blanks_append {s t u : Source} {ws : String}
    (hu : u.contents = s.contents ++ ws ++ t.contents) (hne : ws ≠ "")
    (hws : ∀ c ∈ ws.toList, isBlank c) {ts : List Token} (h : s.tokens = .ok ts) :
    (∀ us, t.tokens = .ok us →
      u.tokens = .ok (ts.dropLast ++ us.map (Token.shift (s.size + byteLength ws.toList)))) ∧
    ∀ failure, t.tokens = .error failure →
      u.tokens = .error (failure.shift (s.size + byteLength ws.toList)) ∧
      (failure.shift (s.size + byteLength ws.toList)).diagnostic u
        = (failure.diagnostic t).shift u (s.size + byteLength ws.toList) := by
  obtain ⟨ls, hls, rfl⟩ := exists_lexes_of_tokens h
  let v := ofString (s.contents ++ ws)
  have hv : v.chars = s.chars ++ ws.toList := String.toList_append
  have hsize : v.size = s.size + byteLength ws.toList := by
    rw [size, hv, byteLength_append]
    rfl
  have hwide : Lexes [] v.chars ls := hv ▸ hls.before_blanks hws
  have hapart : Apart v.chars t.chars := by
    refine apart_of_isCloser fun x hx ↦ isCloser_of_isBlank (hws x ?_)
    rw [hv, List.getLast?_append_of_ne_nil _ (mt String.toList_eq_nil_iff.mp hne)] at hx
    exact List.mem_of_getLast? hx
  rw [← hsize, List.dropLast_concat]
  constructor
  · intro us hus
    exact tokens_append_of_ok hu hwide hapart hus
  · intro failure hfailure
    exact ⟨tokens_append_of_error hu hwide hapart hfailure, rfl⟩

/-- Dots that would be three without the line between them, and a quote that is not closed. -/
theorem Source.tokens_append_blanks_append_dots :
    (ofString "a.\n ..").tokens = .ok [⟨.identifier, 0, 1⟩, ⟨.symbol .dot, 1, 1⟩,
      ⟨.symbol .dot, 4, 1⟩, ⟨.symbol .dot, 5, 1⟩, .endAt 6] ∧
    (ofString "a.\n .'b").tokens = .error ⟨5, .openCharacter⟩ := by
  have ha : (ofString "a.").tokens
      = .ok [⟨.identifier, 0, 1⟩, ⟨.symbol .dot, 1, 1⟩, .endAt 2] := by
    decide +kernel
  have hdots : (ofString "..").tokens
      = .ok [⟨.symbol .dot, 0, 1⟩, ⟨.symbol .dot, 1, 1⟩, .endAt 2] := by
    decide +kernel
  have hquote : (ofString ".'b").tokens = .error ⟨1, .openCharacter⟩ := by
    decide +kernel
  have hws : ∀ c ∈ "\n ".toList, isBlank c := List.all_eq_true.mp (by decide)
  exact ⟨(tokens_append_blanks_append (u := ofString "a.\n ..") rfl (by decide) hws ha).1 _ hdots,
    ((tokens_append_blanks_append (u := ofString "a.\n .'b") rfl (by decide) hws ha).2 _
      hquote).1⟩

/-! ## Lexemes one by one -/

/-- The text is made of the words, with blanks between each two of them. -/
inductive Spaced : List String → List Char → Prop
  | nil : Spaced [] []
  | single (word : String) : Spaced [word] word.toList
  | cons (word : String) (gap : List Char) {next : String} {words : List String} {cs : List Char}
      (hne : gap ≠ []) (hgap : ∀ c ∈ gap, isBlank c) (hrest : Spaced (next :: words) cs) :
      Spaced (word :: next :: words) (word.toList ++ (gap ++ cs))

/-- A lexeme is found again wherever it is written. -/
theorem Lexeme.content_written (l : Lexeme) (offset : Nat) :
    (written l.kind offset l.text.toList).content = l.content :=
  congrArg (Prod.mk l.kind) String.ofList_toList

/-- Lexemes with blanks between them are found again. -/
theorem Spaced.exists_lexes {ls : List Lexeme} (h : ∀ l ∈ ls, IsLexeme l.text.toList l.kind)
    {cs : List Char} (hcs : Spaced (ls.map Lexeme.text) cs) (front : List Char) :
    ∃ ms, Lexes front cs ms ∧ ms.map Lexeme.content = ls.map Lexeme.content := by
  generalize hwords : ls.map Lexeme.text = words at hcs
  induction hcs generalizing ls front with
  | nil =>
    obtain rfl := List.map_eq_nil_iff.mp hwords
    exact ⟨[], .blanks (List.forall_mem_nil _), rfl⟩
  | single word =>
    obtain ⟨l, rfl, rfl⟩ := List.map_eq_singleton_iff.mp hwords
    refine ⟨_, .lexeme (h l List.mem_cons_self), ?_⟩
    rw [List.map_singleton, List.map_singleton, l.content_written]
  | @cons word gap next words cs hne hgap _ ih =>
    obtain ⟨l, ls, rfl, rfl, hrest⟩ := List.map_eq_cons_iff.mp hwords
    obtain ⟨hl, hls⟩ := List.forall_mem_cons.mp h
    obtain ⟨ms, hms, hcontent⟩ := ih hls (front ++ l.text.toList ++ gap) hrest
    have hapart : Apart l.text.toList (gap ++ cs) := by
      refine apart_of_head?_isBlank fun y hy ↦ hgap y ?_
      rw [List.head?_append_of_ne_nil _ hne] at hy
      exact List.mem_of_head? hy
    refine ⟨_, (Lexes.lexeme hl).append (.after_blanks hgap hms) hapart, ?_⟩
    rw [List.map_append, List.map_singleton, List.map_cons, l.content_written, hcontent]
    rfl

/-- **Lexemes written again.** A text of the lexemes of a source with blanks between them, and
perhaps before and behind them, has tokens of the same kinds with the same texts, and its end. -/
theorem Source.tokens_of_spaced {s t : Source} {ts : List Token} (h : s.tokens = .ok ts)
    {lead cs trail : List Char} (hlead : ∀ c ∈ lead, isBlank c) (htrail : ∀ c ∈ trail, isBlank c)
    (hcs : Spaced ((s.lexemes ts.dropLast).map Lexeme.text) cs)
    (ht : t.chars = lead ++ (cs ++ trail)) :
    ∃ us, t.tokens = .ok (us ++ [.endAt t.size]) ∧
      (t.lexemes us).map Lexeme.content = (s.lexemes ts.dropLast).map Lexeme.content := by
  obtain ⟨ts, rfl, hlexemes⟩ := isLexeme_of_tokens h
  rw [List.dropLast_concat] at hcs ⊢
  obtain ⟨ms, hms, hcontent⟩ := hcs.exists_lexes hlexemes lead
  have hall : Lexes [] t.chars ms := ht ▸ .after_blanks hlead (hms.before_blanks htrail)
  refine ⟨ms.map Lexeme.token, tokens_of_lexes hall, ?_⟩
  rw [lexemes_map_token hall, hcontent]

/-- Signs that would be others without the blanks, and a string that has blanks and a sign in it. -/
theorem Source.tokens_of_spaced_string :
    ∃ us, (ofString " =\n== . \"a\n.\"\t'é' ").tokens = .ok (us ++ [.endAt 19]) ∧
      ((ofString " =\n== . \"a\n.\"\t'é' ").lexemes us).map Lexeme.content
        = [(.symbol .equal, "="), (.symbol .equalEq, "=="), (.symbol .dot, "."),
          (.string, "\"a\n.\""), (.character, "'é'")] := by
  have htokens : (ofString "= ==.\"a\n.\"'é'").tokens = .ok [⟨.symbol .equal, 0, 1⟩,
      ⟨.symbol .equalEq, 2, 2⟩, ⟨.symbol .dot, 4, 1⟩, ⟨.string, 5, 5⟩, ⟨.character, 10, 4⟩,
      .endAt 14] := by
    decide +kernel
  have hspaced : Spaced ["=", "==", ".", "\"a\n.\"", "'é'"] "=\n== . \"a\n.\"\t'é'".toList :=
    .cons "=" ['\n'] (by simp) (List.forall_mem_singleton.mpr rfl) <|
    .cons "==" [' '] (by simp) (List.forall_mem_singleton.mpr rfl) <|
    .cons "." [' '] (by simp) (List.forall_mem_singleton.mpr rfl) <|
    .cons "\"a\n.\"" ['\t'] (by simp) (List.forall_mem_singleton.mpr rfl) (.single "'é'")
  have hspace : ∀ c ∈ [' '], isBlank c := List.forall_mem_singleton.mpr rfl
  have hagain := tokens_of_spaced (t := ofString " =\n== . \"a\n.\"\t'é' ") htokens hspace hspace
    hspaced (by decide +kernel)
  rw [show (ofString " =\n== . \"a\n.\"\t'é' ").size = 19 by decide +kernel] at hagain
  exact hagain

end InfixCompiler
