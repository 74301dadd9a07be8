import InfixCompiler.Proofs.Reading.FirstEnd
import InfixCompiler.Proofs.Session
import Mathlib.Data.Nat.Find

/-!
# The place of a cursor over a session

The tokens that a parser goes over are a list with an end at its end, and a cursor has a place in
it. `Cursor.IsAt` says which one: what is ahead is what comes from that place on. The end at the end
is always ahead, so there is no way out of the list, and commands only take from what is ahead, so
there is no way back.

Constructs are read up to the first end, which stays ahead. So two cursors with the same lexemes up
to there have the same readings, wherever their lists end: their cuts are equal, and a reader does
at each cursor what it does at the cut.
-/

namespace InfixCompiler

open InfixCompiler.Parser

/-- The tokens that a parser goes over: an end comes after those that have none at their end. -/
def Source.capped (source : Source) (tokens : List Token) : List Token :=
  match tokens.getLast? with
  | none => [.endAt source.size]
  | some last => if last.kind = .endOfSource then tokens else tokens ++ [.endAt source.size]

theorem Source.capped_eq_append (source : Source) (tokens : List Token) :
    ∃ back, source.capped tokens = tokens ++ back := by
  rw [capped]
  cases h : tokens.getLast? with
  | none =>
    obtain rfl := List.getLast?_eq_none_iff.mp h
    exact ⟨_, rfl⟩
  | some last =>
    dsimp only
    split
    · exact ⟨[], (List.append_nil tokens).symm⟩
    · exact ⟨_, rfl⟩

theorem Source.capped_concat_endAt (source : Source) (tokens : List Token) (size : Nat) :
    source.capped (tokens ++ [.endAt size]) = tokens ++ [.endAt size] := by
  rw [capped, List.getLast?_concat]
  rfl

theorem Source.map_token_lexemes (source : Source) (tokens : List Token) :
    (source.lexemes tokens).map Lexeme.token = tokens := by
  rw [Source.lexemes, List.map_map]
  exact List.map_id tokens

variable {limit : Nat}

/-! ## Places -/

namespace Cursor

/-- The cursor is at the place `i` of the tokens `ts` of a source. -/
structure IsAt (source : Source) (ts : List Token) (i : Nat) (c : Cursor) : Prop where
  /-- The tokens ahead are those from the place on. -/
  tokens : ts.drop i = c.tokens
  /-- They have the texts that the source has there. -/
  texts : ∀ l ∈ c.ahead, l.text = l.token.text source.chars

theorem tokens_ofTokens (source : Source) (tokens : List Token) :
    (ofTokens source tokens).tokens = source.capped tokens := by
  rw [ofTokens, Source.capped]
  cases h : tokens.getLast? with
  | none => rfl
  | some last =>
    obtain ⟨front, rfl⟩ := List.getLast?_eq_some_iff.mp h
    dsimp only
    split
    · next hend =>
      rw [List.dropLast_concat, Cursor.tokens, lexemes, List.map_append, Source.map_token_lexemes,
        Cursor.last, ← hend]
      rfl
    · rw [Cursor.tokens, lexemes, List.map_append, Source.map_token_lexemes]
      rfl

theorem isAt_ofTokens (source : Source) (tokens : List Token) :
    (ofTokens source tokens).IsAt source (source.capped tokens) 0 := by
  refine ⟨(tokens_ofTokens source tokens).symm, ?_⟩
  have htexts (ts : List Token) : ∀ l ∈ source.lexemes ts, l.text = l.token.text source.chars :=
    List.forall_mem_map.mpr fun _ _ ↦ rfl
  rw [ofTokens]
  split
  · exact fun l hl ↦ absurd hl List.not_mem_nil
  · split
    · exact htexts _
    · exact htexts _

variable {source : Source} {c c' : Cursor} {ts : List Token} {i : Nat} {taken : List Lexeme}

theorem head?_lexemes (c : Cursor) : c.lexemes.head? = some c.current := by
  rw [lexemes, current]
  cases c.ahead <;> rfl

theorem lexemes_of_ne (h : c.kind ≠ .endOfSource) :
    c.lexemes = c.current :: c.advance.lexemes := by
  rw [lexemes, ahead_eq_cons h]
  rfl

theorem Moves.lexemes (h : Moves taken c c') : c.lexemes = taken ++ c'.lexemes := by
  rw [Cursor.lexemes, Cursor.lexemes, h.ahead, h.last, List.append_assoc]

namespace IsAt

/-- The current token is the one at the place of the cursor. -/
theorem getElem? (h : c.IsAt source ts i) : ts[i]? = some c.current.token := by
  rw [← List.head?_drop, h.tokens, Cursor.tokens, List.head?_map, head?_lexemes]
  rfl

theorem lt (h : c.IsAt source ts i) : i < ts.length := (List.getElem?_eq_some_iff.mp h.getElem?).1

/-- A cursor is at one place only. -/
theorem unique {j : Nat} (h : c.IsAt source ts i) (h' : c.IsAt source ts j) : i = j := by
  have hlength := congrArg List.length (h.tokens.trans h'.tokens.symm)
  rw [List.length_drop, List.length_drop] at hlength
  have hi := h.lt
  have hj := h'.lt
  omega

/-- The lookahead is the token at the next place. -/
theorem nextKind? (h : c.IsAt source ts i) : c.nextKind? = ts[i + 1]?.map Token.kind := by
  have hnext : ts[i + 1]? = c.tokens[1]? := by
    rw [← h.tokens, List.getElem?_drop]
  rw [hnext, Cursor.tokens, Cursor.lexemes, Cursor.nextKind?]
  rcases c.ahead with _ | ⟨l, _ | ⟨next, ls⟩⟩ <;> rfl

theorem moves (h : c.IsAt source ts i) (hmoves : Moves taken c c') :
    c'.IsAt source ts (i + taken.length) := by
  refine ⟨?_, fun l hl ↦ h.texts l (hmoves.ahead ▸ List.mem_append_right _ hl)⟩
  rw [← List.drop_drop, h.tokens, Cursor.tokens, hmoves.lexemes, List.map_append,
    List.drop_left' (List.length_map _)]
  rfl

/-- A token is taken if there is one behind it, and the last one is not. -/
theorem advance (h : c.IsAt source ts i) :
    c.advance.IsAt source ts (min (i + 1) (ts.length - 1)) := by
  refine ⟨?_, fun l hl ↦ h.texts l (List.mem_of_mem_tail hl)⟩
  have hlength : ts.length - i = c.ahead.length + 1 := by
    rw [← List.length_drop, h.tokens, Cursor.tokens, Cursor.lexemes, List.length_map,
      List.length_append, List.length_singleton]
  cases hahead : c.ahead with
  | nil =>
    rw [hahead, List.length_nil] at hlength
    rw [Cursor.advance, hahead, List.tail_nil, ← hahead,
      show min (i + 1) (ts.length - 1) = i by omega]
    exact h.tokens
  | cons l ls =>
    rw [hahead, List.length_cons] at hlength
    rw [show min (i + 1) (ts.length - 1) = i + 1 by omega, ← List.drop_drop, h.tokens,
      Cursor.tokens, Cursor.lexemes, hahead, Cursor.advance, hahead]
    rfl

/-- What comes at the place is ahead with its texts, and one more token, the text of which is not
said if it is the last one. -/
theorem lexemes_eq (h : c.IsAt source ts i) {front back : List Token} {e : Token}
    (hts : ts.drop i = front ++ e :: back) :
    ∃ e' back', c.lexemes = source.lexemes front ++ e' :: back' ∧ e'.token = e := by
  have hmap : c.lexemes.map Lexeme.token = front ++ e :: back := h.tokens.symm.trans hts
  obtain ⟨ls, rest, hlexemes, rfl, hrest⟩ := List.map_eq_append_iff.mp hmap
  obtain ⟨e', back', rfl, he, -⟩ := List.map_eq_cons_iff.mp hrest
  have hahead : c.ahead = ls ++ (e' :: back').dropLast := by
    rw [← List.dropLast_append_of_ne_nil (List.cons_ne_nil e' back'), ← hlexemes, Cursor.lexemes,
      List.dropLast_concat]
  have hls : source.lexemes (ls.map Lexeme.token) = ls := by
    rw [Source.lexemes, List.map_map]
    refine (List.map_congr_left fun l hl ↦ ?_).trans (List.map_id ls)
    rw [Function.comp, ← h.texts l (hahead ▸ List.mem_append_left _ hl)]
    rfl
  exact ⟨e', back', by rw [hls, hlexemes], he⟩

end IsAt

end Cursor

/-! ## Cuts -/

namespace Cursor

variable {c c₂ : Cursor} {front back : List Lexeme} {e : Lexeme}

/-- What is before the first end, and that end. -/
theorem beforeEnd_of_lexemes (h : c.lexemes = front ++ e :: back)
    (hfront : ∀ l ∈ front, l.kind ≠ .endOfSource) (he : e.kind = .endOfSource) :
    c.beforeEnd = front ∧ c.firstEnd = e := by
  have hhead := c.head?_lexemes
  induction front generalizing c with
  | nil =>
    rw [h] at hhead
    obtain rfl : e = c.current := by simpa using hhead
    exact ⟨beforeEnd_of_end he, firstEnd_of_end he⟩
  | cons l front ih =>
    rw [h] at hhead
    obtain rfl : l = c.current := by simpa using hhead
    have hkind : c.kind ≠ .endOfSource := hfront _ List.mem_cons_self
    rw [lexemes_of_ne hkind, List.cons_append, List.cons.injEq] at h
    obtain ⟨hbefore, hend⟩ := ih h.2 (fun l hl ↦ hfront l (List.mem_cons_of_mem _ hl))
      c.advance.head?_lexemes
    rw [beforeEnd_of_ne hkind, firstEnd_of_ne hkind, hbefore, hend]
    exact ⟨rfl, rfl⟩

/-- The cursors have the lexemes `front` ahead of the same end, at the same depth. What comes behind
the end may be anything. -/
structure SameToEnd (front : List Lexeme) (c c₂ : Cursor) : Prop where
  /-- None of the lexemes is an end. -/
  noEnd : ∀ l ∈ front, l.kind ≠ .endOfSource
  /-- The lexemes are ahead, and after them the end. -/
  lexemes : ∃ e e₂ back back₂, c.lexemes = front ++ e :: back ∧ c₂.lexemes = front ++ e₂ :: back₂ ∧
    e.kind = .endOfSource ∧ e₂.token = e.token
  /-- The depth is the same. -/
  depth : c₂.depth = c.depth

namespace SameToEnd

theorem beforeEnd (h : SameToEnd front c c₂) : c.beforeEnd = front := by
  obtain ⟨e, _, back, _, hc, -, he, -⟩ := h.lexemes
  exact (beforeEnd_of_lexemes hc h.noEnd he).1

theorem cut (h : SameToEnd front c c₂) : c₂.cut = c.cut := by
  obtain ⟨e, e₂, back, back₂, hc, hc₂, he, htoken⟩ := h.lexemes
  have he₂ : e₂.kind = .endOfSource := by rwa [Lexeme.kind, htoken]
  obtain ⟨hbefore, hend⟩ := beforeEnd_of_lexemes hc h.noEnd he
  obtain ⟨hbefore₂, hend₂⟩ := beforeEnd_of_lexemes hc₂ h.noEnd he₂
  rw [Cursor.cut, Cursor.cut, hbefore, hbefore₂, hend, hend₂, htoken, h.depth]

end SameToEnd

end Cursor

namespace Parser

variable {α : Type} {p : Parser α} {c c₂ : Cursor}

/-- What a reader that halts does at cursors with one cut is the same: it takes the same lexemes,
and has the same value or the same fault. -/
theorem Halts.run_eq (h : Halts p c) (h₂ : Halts p c₂) (hcut : c₂.cut = c.cut) :
    ∃ taken c' c₂', Cursor.Moves taken c c' ∧ Cursor.Moves taken c₂ c₂' ∧ c₂'.depth = c'.depth ∧
      ((∃ a, p.run c = .ok a c' ∧ p.run c₂ = .ok a c₂') ∨
        ∃ f, p.run c = .error f c' ∧ p.run c₂ = .error f c₂') := by
  -- the cuts that are left are equal, and so are the lexemes before them
  have hsame {c' c₂' : Cursor} {taken taken₂ : List Lexeme} (hm : Cursor.Moves taken c c')
      (hm₂ : Cursor.Moves taken₂ c₂ c₂') (hcut' : c'.cut = c₂'.cut) :
      taken = taken₂ ∧ c₂'.depth = c'.depth := by
    refine ⟨?_, (congrArg Cursor.depth hcut').symm⟩
    have hbefore : c₂.beforeEnd = c.beforeEnd := congrArg Cursor.ahead hcut
    have hbefore' : c'.beforeEnd = c₂'.beforeEnd := congrArg Cursor.ahead hcut'
    rw [hm.beforeEnd, hm₂.beforeEnd, hbefore'] at hbefore
    exact (List.append_cancel_right hbefore).symm
  cases hrun : p.run c with
  | ok a c' =>
    obtain ⟨hr, taken, hm⟩ := h.of_run_ok hrun
    cases hrun₂ : p.run c₂ with
    | ok a₂ c₂' =>
      obtain ⟨hr₂, taken₂, hm₂⟩ := h₂.of_run_ok hrun₂
      rw [hcut, hr] at hr₂
      obtain ⟨rfl, hcut'⟩ := EStateM.Result.ok.inj hr₂
      obtain ⟨rfl, hdepth⟩ := hsame hm hm₂ hcut'
      exact ⟨taken, c', c₂', hm, hm₂, hdepth, .inl ⟨a, rfl, rfl⟩⟩
    | error f₂ c₂' =>
      have hr₂ := (h₂.of_run_error hrun₂).1
      rw [hcut, hr] at hr₂
      cases hr₂
  | error f c' =>
    obtain ⟨hr, taken, hm⟩ := h.of_run_error hrun
    cases hrun₂ : p.run c₂ with
    | ok a₂ c₂' =>
      have hr₂ := (h₂.of_run_ok hrun₂).1
      rw [hcut, hr] at hr₂
      cases hr₂
    | error f₂ c₂' =>
      obtain ⟨hr₂, taken₂, hm₂⟩ := h₂.of_run_error hrun₂
      rw [hcut, hr] at hr₂
      obtain ⟨rfl, hcut'⟩ := EStateM.Result.error.inj hr₂
      obtain ⟨rfl, hdepth⟩ := hsame hm hm₂ hcut'
      exact ⟨taken, c', c₂', hm, hm₂, hdepth, .inr ⟨f, rfl, rfl⟩⟩

theorem construct_halts (limit : Nat) (x : Construct) (c : Cursor) :
    Halts (construct limit x) c := by
  cases x with
  | program => exact (program_halts c).map
  | function => exact (function_halts c).map
  | block => exact (block_halts c).map
  | statement => exact (statement_halts c).map
  | returned => exact (returned_halts c).map
  | expression least => exact (expression_halts least c).map

/-- A program may be empty, and nothing else may. -/
theorem length_lt_of_run_construct {x : Construct} (hx : x ≠ .program) {c c' : Cursor} {t : Tree}
    (h : (construct limit x).run c = .ok t c') : c'.ahead.length < c.ahead.length := by
  cases x with
  | program => exact absurd rfl hx
  | function =>
    obtain ⟨g, hrun, -⟩ := run_map_eq_ok.mp h
    exact Takes.length_lt ((function_ensures c).of_run_ok hrun) fun d ↦ by
      simp [Grammar.Declaration.lexemes]
  | block =>
    obtain ⟨es, hrun, -⟩ := run_map_eq_ok.mp h
    obtain ⟨leftBrace, body, rightBrace, rest, -, hc, rfl, -⟩ := (block_ensures c).of_run_ok hrun
    rw [hc, Cursor.ahead_seek, List.length_cons, List.length_append, List.length_cons]
    omega
  | statement =>
    obtain ⟨e, hrun, -⟩ := run_map_eq_ok.mp h
    exact Takes.length_lt ((statement_ensures c).of_run_ok hrun) fun r ↦ by
      simp [Grammar.Statement.lexemes]
  | returned =>
    obtain ⟨e, hrun, -⟩ := run_map_eq_ok.mp h
    exact Takes.length_lt ((returned_ensures c).of_run_ok hrun) fun r ↦ by
      simp [Grammar.Statement.lexemes]
  | expression least =>
    obtain ⟨e, hrun, -⟩ := run_map_eq_ok.mp h
    exact ((expression_leaves least c).of_run_ok hrun).length_lt

end Parser

/-! ## Commands -/

namespace Command

variable {c c₂ : Cursor} {front : List Lexeme}

/-- What is read at two cursors that are the same up to the first end. -/
theorem perform_read_of_sameToEnd (limit : Nat) (x : Construct) (h : Cursor.SameToEnd front c c₂) :
    ∃ answer taken c' c₂', (read x).perform limit c = (answer, c') ∧
      (read x).perform limit c₂ = (answer, c₂') ∧ Cursor.Moves taken c c' ∧
        Cursor.Moves taken c₂ c₂' ∧ c₂'.depth = c'.depth := by
  obtain ⟨taken, c', c₂', hm, hm₂, hdepth, ⟨t, hrun, hrun₂⟩ | ⟨f, hrun, hrun₂⟩⟩ :=
    (construct_halts limit x c).run_eq (construct_halts limit x c₂) h.cut
  · exact ⟨_, taken, c', c₂', perform_read_eq_tree.mpr hrun, perform_read_eq_tree.mpr hrun₂, hm,
      hm₂, hdepth⟩
  · exact ⟨_, taken, c', c₂', perform_read_eq_fault.mpr hrun, perform_read_eq_fault.mpr hrun₂, hm,
      hm₂, hdepth⟩

theorem moves_perform_read (limit : Nat) (x : Construct) (c : Cursor) :
    ∃ taken, Cursor.Moves taken c ((read x).perform limit c).2 := by
  obtain ⟨t, c', hrun, hperform⟩ | ⟨f, c', hrun, hperform⟩ := perform_read limit x c
  · rw [hperform]
    exact ((construct_halts limit x c).of_run_ok hrun).2
  · rw [hperform]
    exact ((construct_halts limit x c).of_run_error hrun).2

/-- No command leads back or out of the tokens. -/
theorem isAt_perform (limit : Nat) {source : Source} {ts : List Token} {i : Nat}
    (h : c.IsAt source ts i) (command : Command) :
    ∃ j, i ≤ j ∧ (command.perform limit c).2.IsAt source ts j := by
  have hlt := h.lt
  cases command with
  | current | check | checkNext | atEnd => exact ⟨i, le_rfl, h⟩
  | advance => exact ⟨_, by omega, h.advance⟩
  | expect kind context =>
    by_cases hkind : c.kind = kind
    · rw [perform_expect_of_eq hkind]
      exact ⟨_, by omega, h.advance⟩
    · rw [perform_expect_of_ne hkind]
      exact ⟨i, le_rfl, h⟩
  | read x =>
    obtain ⟨taken, hmoves⟩ := moves_perform_read limit x c
    exact ⟨_, Nat.le_add_right .., h.moves hmoves⟩

end Command

/-! ## Sessions -/

namespace Cursor

variable {source : Source} {c c₂ : Cursor} {ts ts₂ : List Token} {i k : Nat} {e : Token}

theorem isAt_after (limit : Nat) (h : c.IsAt source ts i) (commands : List Command) :
    ∃ j, i ≤ j ∧ (c.after limit commands).IsAt source ts j := by
  induction commands generalizing c i with
  | nil => exact ⟨i, le_rfl, h⟩
  | cons command commands ih =>
    obtain ⟨j, hij, hj⟩ := Command.isAt_perform limit h command
    obtain ⟨k, hjk, hk⟩ := ih hj
    rw [after_cons]
    exact ⟨k, hij.trans hjk, hk⟩

/-- The token `e` at the place `k` is an end, and the first one from the place `i` on. -/
structure IsFirstEnd (ts : List Token) (i k : Nat) (e : Token) : Prop where
  /-- It is not before the place. -/
  le : i ≤ k
  /-- It is there. -/
  getElem? : ts[k]? = some e
  /-- It is an end. -/
  kind : e.kind = .endOfSource
  /-- There is no end between. -/
  noEnd : ∀ n t, i ≤ n → n < k → ts[n]? = some t → t.kind ≠ .endOfSource

/-- There is an end from every place on. -/
theorem exists_isFirstEnd (h : c.IsAt source ts i) : ∃ k e, IsFirstEnd ts i k e := by
  have hlast : ∃ k, i ≤ k ∧ ∃ e, ts[k]? = some e ∧ e.kind = .endOfSource := by
    refine ⟨i + c.ahead.length, Nat.le_add_right .., c.last.token, ?_, rfl⟩
    rw [← List.getElem?_drop, h.tokens, Cursor.tokens, Cursor.lexemes, List.getElem?_map,
      List.getElem?_concat_length]
    rfl
  classical
  obtain ⟨hle, e, he, hkind⟩ := Nat.find_spec hlast
  exact ⟨_, e, hle, he, hkind, fun n t hn hlt ht hend ↦ Nat.find_min hlast hlt ⟨hn, t, ht, hend⟩⟩

/-- There is a cursor at every place, at any depth. -/
theorem exists_isAt (source : Source) (tokens : List Token) (depth : Nat)
    (hi : i < (source.capped tokens).length) :
    ∃ c : Cursor, c.IsAt source (source.capped tokens) i ∧ c.depth = depth := by
  induction i with
  | zero =>
    have h := isAt_ofTokens source tokens
    exact ⟨{ ofTokens source tokens with depth := depth }, ⟨h.tokens, h.texts⟩, rfl⟩
  | succ i ih =>
    obtain ⟨c, hc, hdepth⟩ := ih (by omega)
    have hnext := hc.advance
    rw [show min (i + 1) ((source.capped tokens).length - 1) = i + 1 by omega] at hnext
    exact ⟨c.advance, hnext, hdepth⟩

/-- Lists that are the same up to the place `k` are the same from `i` up to there. -/
theorem drop_eq_of_take_eq (hi : i ≤ k) (he : ts[k]? = some e)
    (htake : ts₂.take (k + 1) = ts.take (k + 1)) :
    ts₂.drop i = (ts.take k).drop i ++ e :: ts₂.drop (k + 1) := by
  obtain ⟨hk, rfl⟩ := List.getElem?_eq_some_iff.mp he
  have hlength : i ≤ (ts.take k).length := by
    rw [List.length_take]
    omega
  calc ts₂.drop i
      = (ts.take (k + 1) ++ ts₂.drop (k + 1)).drop i := by rw [← htake, List.take_append_drop]
    _ = (ts.take k ++ ([ts[k]] ++ ts₂.drop (k + 1))).drop i := by
      rw [List.take_succ_eq_append_getElem hk, List.append_assoc]
    _ = (ts.take k).drop i ++ ts[k] :: ts₂.drop (k + 1) := List.drop_append_of_le_length hlength

/-- Cursors at one place and one depth are the same up to the first end if their tokens are. -/
theorem IsFirstEnd.sameToEnd (hend : IsFirstEnd ts i k e) (h : c.IsAt source ts i)
    (h₂ : c₂.IsAt source ts₂ i) (hdepth : c₂.depth = c.depth)
    (htake : ts₂.take (k + 1) = ts.take (k + 1)) :
    SameToEnd (source.lexemes ((ts.take k).drop i)) c c₂ := by
  obtain ⟨e₁, back, hlexemes, he₁⟩ := h.lexemes_eq (drop_eq_of_take_eq hend.le hend.getElem? rfl)
  obtain ⟨e₂, back₂, hlexemes₂, he₂⟩ :=
    h₂.lexemes_eq (drop_eq_of_take_eq hend.le hend.getElem? htake)
  refine ⟨List.forall_mem_map.mpr fun t ht ↦ ?_,
    ⟨e₁, e₂, back, back₂, hlexemes, hlexemes₂, ?_, he₂.trans he₁.symm⟩, hdepth⟩
  · obtain ⟨n, hn⟩ := List.mem_iff_getElem?.mp ht
    rw [List.getElem?_drop, List.getElem?_take] at hn
    split at hn
    · next hlt => exact hend.noEnd _ t (Nat.le_add_right ..) hlt hn
    · exact absurd hn (by simp)
  · rw [Lexeme.kind, he₁, hend.kind]

/-- Two lists that are the same up to the first end have the same readings from before it. -/
theorem IsFirstEnd.perform_read (hend : IsFirstEnd ts i k e) (limit : Nat) (x : Construct)
    (h : c.IsAt source ts i) (h₂ : c₂.IsAt source ts₂ i) (hdepth : c₂.depth = c.depth)
    (htake : ts₂.take (k + 1) = ts.take (k + 1)) :
    ∃ answer j c' c₂', (Command.read x).perform limit c = (answer, c') ∧
      (Command.read x).perform limit c₂ = (answer, c₂') ∧ i ≤ j ∧ j ≤ k ∧
        c'.IsAt source ts j ∧ c₂'.IsAt source ts₂ j ∧ c₂'.depth = c'.depth := by
  have hsame := hend.sameToEnd h h₂ hdepth htake
  obtain ⟨answer, taken, c', c₂', hread, hread₂, hmoves, hmoves₂, hdepth'⟩ :=
    Command.perform_read_of_sameToEnd limit x hsame
  have hle : taken.length ≤ k - i := by
    have hfront := congrArg List.length (hmoves.beforeEnd.symm.trans hsame.beforeEnd)
    rw [List.length_append, Source.lexemes, List.length_map, List.length_drop,
      List.length_take] at hfront
    omega
  have hki := hend.le
  exact ⟨answer, _, c', c₂', hread, hread₂, Nat.le_add_right .., by omega, h.moves hmoves,
    h₂.moves hmoves₂, hdepth'⟩

/-- Other tokens behind the place `k` leave those up to it. -/
theorem take_capped (source : Source) (others : List Token) (hk : k < ts.length) :
    (source.capped (ts.take (k + 1) ++ others)).take (k + 1) = ts.take (k + 1) ∧
      k < (source.capped (ts.take (k + 1) ++ others)).length := by
  have hlength : (ts.take (k + 1)).length = k + 1 := by
    rw [List.length_take]
    omega
  obtain ⟨back, hback⟩ := source.capped_eq_append (ts.take (k + 1) ++ others)
  rw [hback, List.append_assoc, List.take_left' hlength, List.length_append, hlength]
  exact ⟨rfl, by omega⟩

/-- What is so at the place `i` of the tokens `ts`, and where commands lead from there. -/
structure CursorSafety (limit : Nat) (source : Source) (ts : List Token) (i : Nat) (c : Cursor) :
    Prop where
  /-- There is a token at the place, which is the current one. -/
  current : i < ts.length ∧ ts[i]? = some c.current.token
  /-- The lookahead is the token at the next place, if there is one. -/
  next : c.nextKind? = ts[i + 1]?.map Token.kind
  /-- Commands lead on to a place in the list, or nowhere, whatever they answer. -/
  later : ∀ commands : List Command,
    ∃ j, i ≤ j ∧ j < ts.length ∧ (c.after limit commands).IsAt source ts j
  /-- At the place or behind it there is an end. -/
  firstEnd : ∃ k e, IsFirstEnd ts i k e
  /-- Reading a construct leads to the first end at most, whether it succeeds or not. With any other
  tokens behind that end it has the same answer, and leads to the same place and the same depth. -/
  unseen : ∀ (x : Construct) (k : Nat) (e : Token), IsFirstEnd ts i k e →
    ∀ (others ts₂ : List Token), ts₂ = source.capped (ts.take (k + 1) ++ others) →
      (∃ c₂ : Cursor, c₂.IsAt source ts₂ i ∧ c₂.depth = c.depth) ∧
        ∀ c₂ : Cursor, c₂.IsAt source ts₂ i → c₂.depth = c.depth →
          ∃ answer j c' c₂', (Command.read x).perform limit c = (answer, c') ∧
            (Command.read x).perform limit c₂ = (answer, c₂') ∧ i ≤ j ∧ j ≤ k ∧
              c'.IsAt source ts j ∧ c₂'.IsAt source ts₂ j ∧ c₂'.depth = c'.depth
  /-- A construct that is no whole program has a token at least. -/
  progress : ∀ (x : Construct) (t : Tree) (c' : Cursor), x ≠ .program →
    (Command.read x).perform limit c = (.tree t, c') → ∃ j, i < j ∧ c'.IsAt source ts j

/-- **Cursors stay among the tokens.** This holds for all tokens, lexed or not, for all limits and
after all commands: the cursor is at one place among the tokens with an end at their end, no command
leads back or out of them, and no construct is read beyond the first end. -/
theorem cursorSafety_after (source : Source) (tokens : List Token) (limit : Nat)
    (commands : List Command) :
    ∃ i, (∀ j, ((ofTokens source tokens).after limit commands).IsAt source
        (source.capped tokens) j ↔ j = i) ∧
      CursorSafety limit source (source.capped tokens) i
        ((ofTokens source tokens).after limit commands) := by
  obtain ⟨i, -, h⟩ := isAt_after limit (isAt_ofTokens source tokens) commands
  generalize (ofTokens source tokens).after limit commands = c at h
  generalize source.capped tokens = ts at h
  refine ⟨i, fun j ↦ ⟨fun hj ↦ hj.unique h, fun hj ↦ hj ▸ h⟩, ⟨h.lt, h.getElem?⟩, h.nextKind?,
    fun commands ↦ ?_, exists_isFirstEnd h, fun x k e hend others ts₂ hts₂ ↦ ?_,
    fun x t c' hx hread ↦ ?_⟩
  · obtain ⟨j, hij, hj⟩ := isAt_after limit h commands
    exact ⟨j, hij, hj.lt, hj⟩
  · obtain ⟨hk, -⟩ := List.getElem?_eq_some_iff.mp hend.getElem?
    obtain ⟨htake, hlt⟩ := take_capped source others hk
    subst hts₂
    exact ⟨exists_isAt source _ c.depth (hend.le.trans_lt hlt),
      fun c₂ h₂ hdepth ↦ hend.perform_read limit x h h₂ hdepth htake⟩
  · have hrun := Command.perform_read_eq_tree.mp hread
    obtain ⟨taken, hmoves⟩ := ((construct_halts limit x c).of_run_ok hrun).2
    have hlt := length_lt_of_run_construct hx hrun
    rw [hmoves.ahead, List.length_append] at hlt
    exact ⟨_, by omega, h.moves hmoves⟩

end Cursor

end InfixCompiler
