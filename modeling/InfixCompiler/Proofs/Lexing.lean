import InfixCompiler.Token.Lexer
import Mathlib.Data.List.Infix
import Mathlib.Data.List.TakeWhile
import Mathlib.Tactic.Common

/-!
# What the scan takes for a token

The lexemes of the language are the texts of `IsLexeme`, which says of each of what kind it is and
nothing about how it is found. `Munch.first` finds the longest one that a text begins with, if it
begins with one at all (`Munch.first_eq_ok_iff`).

The argument is that the first character of a lexeme decides its class: no symbol begins as a name,
a number or a literal does. So the class that the scan looks into is the only one that has lexemes
to offer, and only there is it a matter of length. Symbols are tried in the order of their lengths,
numbers and names go as far as their characters do, and a literal ends at its first closing quote.
-/

namespace InfixCompiler

/-! ## Lexemes -/

/-- The texts of tokens, each with its kind. A name is a keyword if the whole of it is one. -/
inductive IsLexeme : List Char → Kind → Prop
  | symbol (s : Symbol) : IsLexeme s.spelling.toList (.symbol s)
  | number {c : Char} {cs : List Char} (hc : c.isDigit) (hcs : ∀ d ∈ cs, d.isDigit) :
      IsLexeme (c :: cs) .number
  | keyword {c : Char} {cs : List Char} (k : Keyword) (hc : isNameStart c)
      (hcs : ∀ d ∈ cs, isNameChar d) (hk : k.spelling.toList = c :: cs) :
      IsLexeme (c :: cs) (.keyword k)
  | identifier {c : Char} {cs : List Char} (hc : isNameStart c) (hcs : ∀ d ∈ cs, isNameChar d)
      (hk : ∀ k : Keyword, k.spelling.toList ≠ c :: cs) : IsLexeme (c :: cs) .identifier
  | string {cs : List Char} (hcs : '\"' ∉ cs) : IsLexeme ('\"' :: (cs ++ ['\"'])) .string
  | character (c : Char) : IsLexeme ['\'', c, '\''] .character

/-- The lexeme `text` of kind `k` is the longest that `input` begins with. -/
structure IsLongestLexeme (input text : List Char) (k : Kind) : Prop where
  /-- The input begins with it. -/
  isPrefix : text <+: input
  /-- It is a lexeme. -/
  isLexeme : IsLexeme text k
  /-- No other one is longer. -/
  length_le : ∀ text' k', text' <+: input → IsLexeme text' k' → text'.length ≤ text.length

theorem IsLexeme.ne_nil {text : List Char} {k : Kind} (h : IsLexeme text k) : text ≠ [] := by
  cases h with
  | symbol s => exact s.spelling_ne_nil
  | _ => exact List.cons_ne_nil _ _

/-! ## First characters -/

/-- The first characters of symbols are of no other class. -/
theorem Symbol.head_spelling (s : Symbol) {c : Char} {cs : List Char}
    (h : s.spelling.toList = c :: cs) :
    ¬ c.isDigit ∧ ¬ isNameStart c ∧ ¬ isBlank c ∧ c ≠ '\"' ∧ c ≠ '\'' := by
  cases s <;> simp [spelling] at h <;> obtain ⟨rfl, -⟩ := h <;> decide

theorem toNat_of_isAlpha {c : Char} (h : c.isAlpha) :
    'A'.toNat ≤ c.toNat ∧ c.toNat ≤ 'Z'.toNat ∨ 'a'.toNat ≤ c.toNat ∧ c.toNat ≤ 'z'.toNat := by
  rcases (Bool.or_eq_true _ _).mp h with h | h
  · have hupper : 'A'.val ≤ c.val ∧ c.val ≤ 'Z'.val := of_decide_eq_true h
    exact .inl hupper
  · have hlower : (decide (c.val ≥ 'a'.val) && decide (c.val ≤ 'z'.val)) = true := h
    rw [Bool.and_eq_true, decide_eq_true_eq, decide_eq_true_eq] at hlower
    exact .inr hlower

theorem not_isDigit_of_isNameStart {c : Char} (h : isNameStart c) : ¬ c.isDigit := by
  rw [Char.isDigit_iff_toNat, show '0'.toNat = 48 from rfl, show '9'.toNat = 57 from rfl]
  rcases (Bool.or_eq_true _ _).mp h with h | h
  · obtain rfl := beq_iff_eq.mp h
    decide
  · have halpha := toNat_of_isAlpha h
    rw [show 'A'.toNat = 65 from rfl, show 'Z'.toNat = 90 from rfl, show 'a'.toNat = 97 from rfl,
      show 'z'.toNat = 122 from rfl] at halpha
    omega

theorem Keyword.ofSpelling?_spelling (k : Keyword) : ofSpelling? k.spelling.toList = some k := by
  cases k <;> decide

theorem Symbol.find?_spelling (s : Symbol) :
    all.find? (fun t ↦ t.spelling.toList == s.spelling.toList) = some s := by
  cases s <;> rfl

theorem nameKind_eq_keyword {word : List Char} {k : Keyword} (h : k.spelling.toList = word) :
    Munch.nameKind word = .keyword k := by
  rw [Munch.nameKind, ← h, Keyword.ofSpelling?_spelling]

theorem nameKind_eq_identifier {word : List Char} (h : ∀ k : Keyword, k.spelling.toList ≠ word) :
    Munch.nameKind word = .identifier := by
  have hnone : Keyword.ofSpelling? word = none := by
    rw [Keyword.ofSpelling?, List.find?_eq_none]
    intro k _
    simpa using h k
  rw [Munch.nameKind, hnone]

/-- A name of the kind that the scan gives to it is a lexeme. -/
theorem IsLexeme.name {c : Char} {cs : List Char} (hc : isNameStart c)
    (hcs : ∀ d ∈ cs, isNameChar d) : IsLexeme (c :: cs) (Munch.nameKind (c :: cs)) := by
  by_cases hk : ∃ k : Keyword, k.spelling.toList = c :: cs
  · obtain ⟨k, hk⟩ := hk
    rw [nameKind_eq_keyword hk]
    exact .keyword k hc hcs hk
  · rw [nameKind_eq_identifier (not_exists.mp hk)]
    exact .identifier hc hcs (not_exists.mp hk)

/-- The first character of a lexeme decides about its class, and with it about its kind. -/
theorem IsLexeme.of_cons {c : Char} {cs : List Char} {k : Kind} (h : IsLexeme (c :: cs) k) :
    if c.isDigit then k = .number ∧ ∀ d ∈ cs, d.isDigit
    else if isNameStart c then k = Munch.nameKind (c :: cs) ∧ ∀ d ∈ cs, isNameChar d
    else if c = '\"' then k = .string ∧ ∃ ds, cs = ds ++ ['\"'] ∧ '\"' ∉ ds
    else if c = '\'' then k = .character ∧ ∃ d, cs = [d, '\'']
    else ∃ s : Symbol, k = .symbol s ∧ s.spelling.toList = c :: cs := by
  generalize htext : c :: cs = text at h
  cases h with
  | symbol s =>
    obtain ⟨h₁, h₂, -, h₃, h₄⟩ := s.head_spelling htext.symm
    rw [if_neg h₁, if_neg h₂, if_neg h₃, if_neg h₄]
    exact ⟨s, rfl, rfl⟩
  | number hc hcs =>
    obtain ⟨rfl, rfl⟩ := List.cons.inj htext
    rw [if_pos hc]
    exact ⟨rfl, hcs⟩
  | keyword k hc hcs hk =>
    obtain ⟨rfl, rfl⟩ := List.cons.inj htext
    rw [if_neg (not_isDigit_of_isNameStart hc), if_pos hc]
    exact ⟨(nameKind_eq_keyword hk).symm, hcs⟩
  | identifier hc hcs hk =>
    obtain ⟨rfl, rfl⟩ := List.cons.inj htext
    rw [if_neg (not_isDigit_of_isNameStart hc), if_pos hc]
    exact ⟨(nameKind_eq_identifier hk).symm, hcs⟩
  | string hcs =>
    obtain ⟨rfl, rfl⟩ := List.cons.inj htext
    rw [if_neg (by decide), if_neg (by decide), if_pos rfl]
    exact ⟨rfl, _, rfl, hcs⟩
  | character d =>
    obtain ⟨rfl, rfl⟩ := List.cons.inj htext
    rw [if_neg (by decide), if_neg (by decide), if_neg (by decide), if_pos rfl]
    exact ⟨rfl, d, rfl⟩

theorem IsLexeme.not_isBlank {c : Char} {cs : List Char} {k : Kind} (h : IsLexeme (c :: cs) k) :
    ¬ isBlank c := by
  intro hb
  have hc := h.of_cons
  simp only [isBlank, Bool.or_eq_true, beq_iff_eq] at hb
  -- a blank is of no class that lexemes begin in
  rcases hb with (((rfl | rfl) | rfl) | rfl) | rfl <;>
  · rw [if_neg (by decide), if_neg (by decide), if_neg (by decide), if_neg (by decide)] at hc
    obtain ⟨s, -, hs⟩ := hc
    exact (s.head_spelling hs).2.2.1 (by decide)

/-- A text is a lexeme of one kind at most. -/
theorem IsLexeme.unique {text : List Char} {k k' : Kind} (h : IsLexeme text k)
    (h' : IsLexeme text k') : k = k' := by
  rcases text with _ | ⟨c, cs⟩
  · exact absurd rfl h.ne_nil
  have h₁ := h.of_cons
  have h₂ := h'.of_cons
  by_cases hdigit : c.isDigit
  · rw [if_pos hdigit] at h₁ h₂
    exact h₁.1.trans h₂.1.symm
  by_cases hname : isNameStart c
  · rw [if_neg hdigit, if_pos hname] at h₁ h₂
    exact h₁.1.trans h₂.1.symm
  by_cases hstring : c = '\"'
  · rw [if_neg hdigit, if_neg hname, if_pos hstring] at h₁ h₂
    exact h₁.1.trans h₂.1.symm
  by_cases hcharacter : c = '\''
  · rw [if_neg hdigit, if_neg hname, if_neg hstring, if_pos hcharacter] at h₁ h₂
    exact h₁.1.trans h₂.1.symm
  rw [if_neg hdigit, if_neg hname, if_neg hstring, if_neg hcharacter] at h₁ h₂
  obtain ⟨s, rfl, hs⟩ := h₁
  obtain ⟨s', rfl, hs'⟩ := h₂
  have := Symbol.find?_spelling s
  rw [hs, ← hs', Symbol.find?_spelling] at this
  rw [Option.some.inj this]

theorem IsLexeme.ne_endOfSource {text : List Char} {k : Kind} (h : IsLexeme text k) :
    k ≠ .endOfSource := by
  cases h <;> simp

/-! ## The longest lexeme -/

theorem prefix_takeWhile {p : Char → Bool} {cs ds : List Char} (h : ds <+: cs)
    (hds : ∀ d ∈ ds, p d) : ds <+: cs.takeWhile p := by
  obtain ⟨rest, rfl⟩ := h
  rw [List.takeWhile_append_of_pos hds]
  exact List.prefix_append _ _

/-- Symbols are listed by the lengths of their spellings. -/
theorem Symbol.pairwise_all :
    all.Pairwise fun s t ↦ t.spelling.toList.length ≤ s.spelling.toList.length := by
  decide

namespace Munch

variable {c : Char} {cs : List Char} {m : Munch (c :: cs)}

/-- A prefix that is a lexeme begins with the first character. -/
theorem exists_eq_cons_of_isLexeme {text : List Char} {k : Kind} (h : text <+: c :: cs)
    (hk : IsLexeme text k) : ∃ ds, text = c :: ds ∧ ds <+: cs := by
  rcases List.prefix_cons_iff.mp h with rfl | hds
  · exact absurd rfl hk.ne_nil
  · exact hds

theorem isLongestLexeme_of_symbol? (h : symbol? (c :: cs) = some m) :
    IsLongestLexeme (c :: cs) m.text m.kind := by
  obtain ⟨front, s, back, hall, hs, hfront⟩ := List.findSome?_eq_some_iff.mp h
  split at hs
  swap
  · exact absurd hs (by simp)
  next hspelling =>
  obtain rfl := Option.some.inj hs
  refine ⟨hspelling, .symbol s, ?_⟩
  intro text k htext hk
  obtain ⟨ts, hts, -⟩ := exists_eq_cons_of_isLexeme hspelling (.symbol s)
  obtain ⟨h₁, h₂, -, h₃, h₄⟩ := s.head_spelling hts
  obtain ⟨ds, rfl, -⟩ := exists_eq_cons_of_isLexeme htext hk
  have hc := hk.of_cons
  rw [if_neg h₁, if_neg h₂, if_neg h₃, if_neg h₄] at hc
  obtain ⟨s', rfl, hs'⟩ := hc
  rw [← hs'] at htext ⊢
  -- a longer symbol would have been found before this one
  have hmem := Symbol.mem_all s'
  have hsorted := Symbol.pairwise_all
  rw [hall] at hmem hsorted
  rcases List.mem_append.mp hmem with hmem | hmem
  · have hnone := hfront s' hmem
    rw [dif_pos htext] at hnone
    exact absurd hnone (by simp)
  rcases List.mem_cons.mp hmem with rfl | hmem
  · exact Nat.le_refl _
  · exact (List.pairwise_cons.mp (List.pairwise_append.mp hsorted).2.1).1 s' hmem

theorem not_prefix_of_symbol? (h : symbol? (c :: cs) = none) (s : Symbol) :
    ¬ s.spelling.toList <+: c :: cs := by
  intro hs
  have hnone := List.findSome?_eq_none_iff.mp h s (Symbol.mem_all s)
  rw [dif_pos hs] at hnone
  exact absurd hnone (by simp)

/-- A run is the longest lexeme if the lexemes that begin as it does have only characters of its
class. -/
theorem isLongestLexeme_run {kind : List Char → Kind} {p : Char → Bool}
    (hlexeme : ∀ ds : List Char, (∀ d ∈ ds, p d) → IsLexeme (c :: ds) (kind (c :: ds)))
    (hp : ∀ (ds : List Char) (k : Kind), IsLexeme (c :: ds) k → ∀ d ∈ ds, p d) :
    IsLongestLexeme (c :: cs) (run kind p c cs).text (run kind p c cs).kind := by
  refine ⟨?_, hlexeme _ fun d hd ↦ List.mem_takeWhile_imp hd, ?_⟩
  · exact List.prefix_cons_inj c |>.mpr (List.takeWhile_prefix p)
  · intro text k htext hk
    obtain ⟨ds, rfl, hds⟩ := exists_eq_cons_of_isLexeme htext hk
    have := (prefix_takeWhile hds (hp ds k hk)).length_le
    simpa [run] using this

theorem takeWhile_eq_of_append {ds : List Char} {x : Char} (h : ds ++ [x] <+: cs) (hx : x ∉ ds) :
    cs.takeWhile (· != x) = ds := by
  obtain ⟨rest, rfl⟩ := h
  have hds : ∀ d ∈ ds, (d != x) = true := by
    intro d hd
    rw [bne_iff_ne]
    rintro rfl
    exact hx hd
  rw [List.append_assoc, List.takeWhile_append_of_pos hds]
  simp

theorem isLongestLexeme_string {m : Munch ('\"' :: cs)} (h : string '\"' cs = .ok m) :
    IsLongestLexeme ('\"' :: cs) m.text m.kind := by
  rw [string] at h
  split at h
  · obtain rfl := Except.ok.inj h
    refine ⟨⟨_, text_append_rest _⟩, .string ?_, ?_⟩
    · intro hmem
      simpa using List.mem_takeWhile_imp hmem
    · intro text k htext hk
      obtain ⟨ts, rfl, hts⟩ := exists_eq_cons_of_isLexeme htext hk
      have hc := hk.of_cons
      rw [if_neg (by decide), if_neg (by decide), if_pos rfl] at hc
      obtain ⟨-, ds, rfl, hds⟩ := hc
      -- the other one ends at the first closing quote as well
      dsimp only
      rw [takeWhile_eq_of_append hts hds, List.cons_append]
  · exact absurd h (by simp)

theorem isLongestLexeme_character {m : Munch ('\'' :: cs)} (h : character '\'' cs = .ok m) :
    IsLongestLexeme ('\'' :: cs) m.text m.kind := by
  unfold character at h
  split at h
  · obtain rfl := Except.ok.inj h
    refine ⟨⟨_, text_append_rest _⟩, .character _, ?_⟩
    intro text k htext hk
    obtain ⟨ts, rfl, -⟩ := exists_eq_cons_of_isLexeme htext hk
    have hc := hk.of_cons
    rw [if_neg (by decide), if_neg (by decide), if_neg (by decide), if_pos rfl] at hc
    obtain ⟨-, d, rfl⟩ := hc
    -- all quoted characters are equally long
    exact Nat.le_refl _
  · exact absurd h (by simp)

/-- What the scan takes first is the longest lexeme. -/
theorem isLongestLexeme_first (h : first c cs = .ok m) :
    IsLongestLexeme (c :: cs) m.text m.kind := by
  rw [first] at h
  split at h
  · next hsymbol =>
    obtain rfl := Except.ok.inj h
    exact isLongestLexeme_of_symbol? hsymbol
  split at h
  · next hdigit =>
    obtain rfl := Except.ok.inj h
    refine isLongestLexeme_run (fun ds hds ↦ .number hdigit hds) ?_
    intro ds k hk
    have hc := hk.of_cons
    rw [if_pos hdigit] at hc
    exact hc.2
  split at h
  · next hdigit hname =>
    obtain rfl := Except.ok.inj h
    refine isLongestLexeme_run (fun ds hds ↦ .name hname hds) ?_
    intro ds k hk
    have hc := hk.of_cons
    rw [if_neg hdigit, if_pos hname] at hc
    exact hc.2
  split at h
  · next hstring =>
    subst hstring
    exact isLongestLexeme_string h
  split at h
  · next hcharacter =>
    subst hcharacter
    exact isLongestLexeme_character h
  split at h
  · exact absurd h (by simp)
  split at h <;> exact absurd h (by simp)

/-- A text that begins with a lexeme has a first token. -/
theorem exists_first_eq_ok {text : List Char} {k : Kind} (htext : text <+: c :: cs)
    (hk : IsLexeme text k) : ∃ m, first c cs = .ok m := by
  obtain ⟨ts, rfl, hts⟩ := exists_eq_cons_of_isLexeme htext hk
  have hc := hk.of_cons
  rw [first]
  split
  · exact ⟨_, rfl⟩
  next hsymbol =>
  split_ifs at hc ⊢ with hdigit hname hstring hcharacter
  · exact ⟨_, rfl⟩
  · exact ⟨_, rfl⟩
  · obtain ⟨-, ds, rfl, -⟩ := hc
    exact ⟨_, dif_pos (hts.mem (by simp))⟩
  · obtain ⟨-, d, rfl⟩ := hc
    obtain ⟨rest, rfl⟩ := hts
    exact ⟨_, rfl⟩
  all_goals
    obtain ⟨s, rfl, hs⟩ := hc
    exact absurd (hs ▸ htext) (not_prefix_of_symbol? hsymbol s)

/-- The scan takes the longest lexeme, and fails where there is none. -/
theorem first_eq_ok_iff {text : List Char} {k : Kind} :
    (∃ m, first c cs = .ok m ∧ m.text = text ∧ m.kind = k) ↔ IsLongestLexeme (c :: cs) text k := by
  constructor
  · rintro ⟨m, hm, rfl, rfl⟩
    exact isLongestLexeme_first hm
  · intro h
    obtain ⟨m, hm⟩ := exists_first_eq_ok h.isPrefix h.isLexeme
    have hfirst := isLongestLexeme_first hm
    -- two prefixes of one text that are equally long
    have hle := hfirst.length_le _ _ h.isPrefix h.isLexeme
    have hge := h.length_le _ _ hfirst.isPrefix hfirst.isLexeme
    have htext : m.text = text :=
      (List.prefix_of_prefix_length_le hfirst.isPrefix h.isPrefix hge).eq_of_length (by omega)
    exact ⟨m, hm, htext, hfirst.isLexeme.unique (htext ▸ h.isLexeme)⟩

end Munch

end InfixCompiler
