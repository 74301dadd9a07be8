import InfixCompiler.Proofs.Lexing.Concatenation

/-!
# Where a text stops having tokens

The scan of a text fails at a character that begins no lexeme. What is before that character has
the tokens that were found, and no longer beginning of the text has tokens: the failure is right
behind the longest one that has (`Source.standsBehind_of_tokens_eq_error`).

Both are about texts that are cut off, and both hold because less text offers less. A lexeme that
was the longest one stays the longest one while it is there, so the scan comes to where it failed
wherever behind that the text ends; and a character that makes no lexeme with all of the text behind
it makes none with a part.
-/

namespace InfixCompiler

open Text

/-! ## The character to blame -/

/-- What is wrong with a character that begins no lexeme. -/
def LexFault.ofChar (c : Char) : LexFault :=
  if c = '\"' then openString
  else if c = '\'' then openCharacter
  else if c = '&' then loneAmpersand
  else if c = '|' then lonePipe
  else unrecognized c

namespace LexFault

theorem width_ofChar (c : Char) : (ofChar c).width = c.utf8Size := by
  rw [ofChar]
  split_ifs <;> subst_vars <;> rfl

/-- Kinds of failures are classes of characters. -/
theorem kind_ofChar_iff (c : Char) :
    ((ofChar c).kind = .unpairedOperator ↔ c = '&' ∨ c = '|') ∧
    ((ofChar c).kind = .unterminatedLiteral ↔ c = '\"' ∨ c = '\'') ∧
    ((ofChar c).kind = .unrecognizedCharacter ↔ c ∉ ['&', '|', '\"', '\'']) := by
  rw [ofChar]
  split_ifs with hstring hcharacter hampersand hpipe
  case neg => simp [kind, hstring, hcharacter, hampersand, hpipe]
  -- each of the other characters is a constant
  all_goals
    subst_vars
    decide

end LexFault

namespace Munch

variable {c : Char} {cs : List Char} {fault : LexFault}

theorem eq_ofChar_of_first (h : first c cs = .error fault) : fault = .ofChar c := by
  rw [first] at h
  split at h
  · exact absurd h (by simp)
  rw [LexFault.ofChar]
  split_ifs at h ⊢ with hdigit hname hstring hcharacter
  · rw [string] at h
    split at h
    · exact absurd h (by simp)
    · exact (Except.error.inj h).symm
  · unfold character at h
    split at h
    · exact absurd h (by simp)
    · exact (Except.error.inj h).symm
  all_goals exact (Except.error.inj h).symm

/-- Less text offers no lexeme that the whole does not. -/
theorem exists_first_eq_error {cut : List Char} (h : first c cs = .error fault)
    (hcut : cut <+: cs) : ∃ fault', first c cut = .error fault' := by
  cases hfirst : first c cut with
  | error fault' => exact ⟨fault', rfl⟩
  | ok m =>
    have hlongest := isLongestLexeme_first hfirst
    obtain ⟨m', hm'⟩ := exists_first_eq_ok
      (hlongest.isPrefix.trans (List.prefix_cons_inj c |>.mpr hcut)) hlongest.isLexeme
    rw [h] at hm'
    exact absurd hm' (by simp)

end Munch

/-! ## Texts that are cut off -/

/-- The longest lexeme of a text is the longest one of less text, if it is still there. -/
theorem IsLongestLexeme.of_isPrefix {text rest cut : List Char} {k : Kind}
    (h : IsLongestLexeme (text ++ rest) text k) (hcut : cut <+: rest) :
    IsLongestLexeme (text ++ cut) text k := by
  refine ⟨List.prefix_append _ _, h.isLexeme, fun text' k' hp hk' ↦ ?_⟩
  exact h.length_le text' k' (hp.trans (List.prefix_append_right_inj text |>.mpr hcut)) hk'

/-- The scan of `front ++ c :: back` finds the tokens `ts` in `front`, and then no lexeme. -/
structure FailsAt (offset : Nat) (front : List Char) (c : Char) (back : List Char)
    (ts : List Token) (fault : LexFault) : Prop where
  /-- A lexeme should begin there. -/
  not_isBlank : ¬ isBlank c
  /-- There is none. -/
  first : Munch.first c back = .error fault
  /-- The tokens are found whatever is left of the text behind them. -/
  scan_cut : ∀ cut, cut <+: c :: back →
    scan offset (front ++ cut) = (scan (offset + byteLength front) cut).after ts

namespace FailsAt

variable {offset : Nat} {front back : List Char} {c : Char} {ts : List Token} {fault : LexFault}

theorem nil (hc : ¬ isBlank c) (hfirst : Munch.first c back = .error fault) :
    FailsAt offset [] c back [] fault :=
  ⟨hc, hfirst, fun _ _ ↦ rfl⟩

theorem blank {w : Char} (hw : isBlank w)
    (h : FailsAt (offset + w.utf8Size) front c back ts fault) :
    FailsAt offset (w :: front) c back ts fault := by
  refine ⟨h.not_isBlank, h.first, fun cut hcut ↦ ?_⟩
  rw [List.cons_append, scan, if_pos hw, h.scan_cut cut hcut, byteLength_cons, Nat.add_assoc]

theorem lexeme {text : List Char} {k : Kind}
    (hlongest : IsLongestLexeme (text ++ (front ++ c :: back)) text k)
    (h : FailsAt (offset + byteLength text) front c back ts fault) :
    FailsAt offset (text ++ front) c back (⟨k, offset, byteLength text⟩ :: ts) fault := by
  refine ⟨h.not_isBlank, h.first, fun cut hcut ↦ ?_⟩
  have hless := hlongest.of_isPrefix (List.prefix_append_right_inj front |>.mpr hcut)
  rw [List.append_assoc, scan_of_isLongestLexeme hless, h.scan_cut cut hcut, byteLength_append,
    Nat.add_assoc]
  rfl

/-- A beginning of the text that has tokens ends before the character that has none. -/
theorem isPrefix_of_scan (h : FailsAt offset front c back ts fault) {cs : List Char}
    (hcs : cs <+: front ++ c :: back) (hscan : (scan offset cs).failure? = none) :
    cs <+: front := by
  rcases List.prefix_or_prefix_of_prefix hcs (List.prefix_append front _) with hle | ⟨cut, rfl⟩
  · exact hle
  rw [List.prefix_append_right_inj] at hcs
  rcases List.prefix_cons_iff.mp hcs with rfl | ⟨cut, rfl, hcut⟩
  · rw [List.append_nil]
  obtain ⟨fault', hfault'⟩ := Munch.exists_first_eq_error h.first hcut
  rw [h.scan_cut _ hcs, scan, if_neg h.not_isBlank, hfault'] at hscan
  exact absurd hscan (Option.some_ne_none _)

end FailsAt

/-- A scan that fails does so at a character of the text. -/
theorem exists_failsAt {offset : Nat} {cs : List Char} {ts : List Token} {failure : LexFailure}
    (h : scan offset cs = ⟨ts, some failure⟩) : ∃ front c back, cs = front ++ c :: back ∧
      failure.offset = offset + byteLength front ∧
      FailsAt offset front c back ts failure.fault := by
  induction offset, cs using scan_induction generalizing ts with
  | nil =>
    rw [scan] at h
    exact absurd (Scan.mk.inj h).2.symm (Option.some_ne_none _)
  | blank offset w cs hw ih =>
    rw [scan, if_pos hw] at h
    obtain ⟨front, c, back, rfl, hoffset, hfails⟩ := ih h
    rw [Nat.add_assoc] at hoffset
    exact ⟨w :: front, c, back, rfl, hoffset, hfails.blank hw⟩
  | fails offset c cs fault hc hfirst =>
    rw [scan, if_neg hc, hfirst] at h
    obtain ⟨rfl, hfailure⟩ := Scan.mk.inj h
    obtain rfl := Option.some.inj hfailure
    exact ⟨[], c, cs, rfl, rfl, .nil hc hfirst⟩
  | lexeme offset text rest k hlongest ih =>
    rw [scan_of_isLongestLexeme hlongest] at h
    obtain ⟨rfl, hfailure⟩ := Scan.mk.inj h
    obtain ⟨front, c, back, rfl, hoffset, hfails⟩ := ih (congrArg (Scan.mk _) hfailure)
    refine ⟨text ++ front, c, back, (List.append_assoc ..).symm, ?_, hfails.lexeme hlongest⟩
    rw [hoffset, byteLength_append, Nat.add_assoc]

/-! ## The longest beginning that has tokens -/

/-- The text of `t` is the longest beginning of the source that has tokens, and has the tokens `ts`
before its end. -/
structure Source.IsLongestLexed (s t : Source) (ts : List Token) : Prop where
  /-- It is a beginning. -/
  isPrefix : t.chars <+: s.chars
  /-- It has these tokens. -/
  tokens : t.tokens = .ok (ts ++ [.endAt t.size])
  /-- No longer beginning has tokens. -/
  longest : ∀ (u : Source) (us : List Token), u.chars <+: s.chars → u.tokens = .ok us →
    u.size ≤ t.size

/-- The failure of `s` stands right behind the text of `t`, at the character `c`. -/
structure LexFailure.StandsBehind (failure : LexFailure) (s t : Source) (c : Char) : Prop where
  /-- Both are there. -/
  isPrefix : t.chars ++ [c] <+: s.chars
  /-- The tokens of the text before are those that were found before the failure. -/
  tokens : t.tokens = .ok (s.scan.tokens ++ [.endAt t.size])
  /-- No longer beginning of the source has tokens. -/
  longest : ∀ (u : Source) (ts : List Token), u.chars <+: s.chars → u.tokens = .ok ts →
    u.size ≤ t.size
  /-- There is one note, at the character. -/
  notes : (failure.diagnostic s).notes = [⟨⟨s, t.size, c.utf8Size⟩, failure.fault.hint?⟩]
  /-- The note shows the character. -/
  contents : (⟨s, t.size, c.utf8Size⟩ : Span).contents = [c]
  /-- A `&` or a `|` is alone. -/
  unpaired : (failure.diagnostic s).kind = .tokenizing .unpairedOperator ↔ c = '&' ∨ c = '|'
  /-- A quote opens a literal that is none. -/
  unterminated :
    (failure.diagnostic s).kind = .tokenizing .unterminatedLiteral ↔ c = '\"' ∨ c = '\''
  /-- All other characters are unknown. -/
  unrecognized : (failure.diagnostic s).kind = .tokenizing .unrecognizedCharacter ↔
    c ∉ ['&', '|', '\"', '\'']

namespace Source

variable {s : Source} {failure : LexFailure}

/-- The tokens that were found are those of the longest beginning that has some, and the failure is
about the character behind it. -/
theorem exists_isLongestLexed (h : s.tokens = .error failure) :
    ∃ t c, s.IsLongestLexed t s.scan.tokens ∧ t.chars ++ [c] <+: s.chars ∧
      failure = ⟨t.size, .ofChar c⟩ := by
  obtain ⟨front, c, back, hchars, hoffset, hfails⟩ :=
    exists_failsAt (congrArg (Scan.mk s.scan.tokens) (scan_of_tokens_eq_error h))
  let t := ofString (String.ofList front)
  have ht : t.chars = front := String.toList_ofList
  have hsize : failure.offset = t.size := by rw [hoffset, Nat.zero_add, size, ht]
  have hfault : failure.fault = .ofChar c := Munch.eq_ofChar_of_first hfails.first
  have hscan : t.scan = ⟨s.scan.tokens, none⟩ := by
    have hcut := hfails.scan_cut [] List.nil_prefix
    rw [List.append_nil, InfixCompiler.scan] at hcut
    rw [scan, ht, hcut, Scan.after, List.append_nil]
  refine ⟨t, c, ⟨⟨c :: back, ?_⟩, tokens_of_scan hscan, fun u us hu hus ↦ ?_⟩, ⟨back, ?_⟩, ?_⟩
  · rw [ht, hchars]
  · rw [size, size, ht]
    exact byteLength_le_of_isPrefix
      (hfails.isPrefix_of_scan (hchars ▸ hu) (scan_of_tokens hus).1)
  · rw [ht, hchars, List.append_assoc, List.singleton_append]
  · rw [← hsize, ← hfault]

/-- **Where the tokens of a source end.** If a source has no tokens, the longest beginning of it
that has some has those that were found, and the failure is the character behind it. -/
theorem standsBehind_of_tokens_eq_error (h : s.tokens = .error failure) :
    ∃ t c, failure.StandsBehind s t c := by
  obtain ⟨t, c, hlongest, ⟨back, hback⟩, rfl⟩ := exists_isLongestLexed h
  obtain ⟨hunpaired, hunterminated, hunrecognized⟩ := LexFault.kind_ofChar_iff c
  have hkind (k : TokenizingKind) :
      (LexFailure.diagnostic s ⟨t.size, .ofChar c⟩).kind = .tokenizing k ↔
        (LexFault.ofChar c).kind = k := by
    rw [LexFailure.diagnostic, DiagnosticKind.tokenizing.injEq]
  refine ⟨t, c, ⟨back, hback⟩, hlongest.tokens, hlongest.longest, ?_, ?_,
    (hkind _).trans hunpaired, (hkind _).trans hunterminated, (hkind _).trans hunrecognized⟩
  · rw [LexFailure.diagnostic, LexFault.width_ofChar]
  · rw [Span.contents, size, ← hback]
    have hslice := slice_append t.chars [c] back
    rwa [byteLength_cons, byteLength_nil] at hslice

/-- A character of two bytes before the failure, and a quote behind it that opens nothing. -/
theorem standsBehind_ampersand : ∃ t c, (LexFailure.mk 9 .loneAmpersand).StandsBehind
    (ofString "x = 'é' & 'ab'") t c := by
  have htokens : (ofString "x = 'é' & 'ab'").tokens = .error ⟨9, .loneAmpersand⟩ := by
    decide +kernel
  exact standsBehind_of_tokens_eq_error htokens

end Source

end InfixCompiler
