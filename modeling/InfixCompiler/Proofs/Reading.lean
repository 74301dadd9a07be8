import InfixCompiler.Program.Parser
import Mathlib.Tactic.Common

/-!
# Runs of readers

How the parts of a reader run, for the proofs about all of them. A cursor is moved by `Cursor.seek`,
which changes what is ahead and nothing else. What a reader does from a cursor is stated by
`Parser.Ensures`, with one condition for a value and one for a fault; `Ensures.bind` puts such
statements together along a reader.

A loop reads at most as many items as there are lexemes ahead, and one more. That bound is never
met if every item takes a lexeme: then the loop is its own unrolling (`run_collectAll`), and
nothing else is said about bounds.
-/

namespace InfixCompiler

/-! ## Cursors -/

namespace Cursor

variable (c : Cursor)

/-- The cursor with `ls` ahead. -/
def seek (ls : List Lexeme) : Cursor := { c with ahead := ls }

@[simp] theorem ahead_seek (ls : List Lexeme) : (c.seek ls).ahead = ls := rfl

@[simp] theorem depth_seek (ls : List Lexeme) : (c.seek ls).depth = c.depth := rfl

@[simp] theorem last_seek (ls : List Lexeme) : (c.seek ls).last = c.last := rfl

@[simp] theorem current_seek_cons (l : Lexeme) (ls : List Lexeme) :
    (c.seek (l :: ls)).current = l := rfl

@[simp] theorem kind_seek_cons (l : Lexeme) (ls : List Lexeme) :
    (c.seek (l :: ls)).kind = l.kind := rfl

@[simp] theorem advance_seek_cons (l : Lexeme) (ls : List Lexeme) :
    (c.seek (l :: ls)).advance = c.seek ls := rfl

theorem kind_eq : c.kind = c.current.kind := rfl

variable {c}

theorem current_of_ahead_eq_cons {l : Lexeme} {ls : List Lexeme} (h : c.ahead = l :: ls) :
    c.current = l := by
  rw [current, h, List.headD_cons]

theorem kind_of_ahead_eq_nil (h : c.ahead = []) : c.kind = .endOfSource := by
  rw [kind, current, h]
  rfl

/-- A cursor that is not at an end has a lexeme to take. -/
theorem ahead_eq_cons (h : c.kind ≠ .endOfSource) : c.ahead = c.current :: c.ahead.tail := by
  cases hc : c.ahead with
  | nil => exact absurd (kind_of_ahead_eq_nil hc) h
  | cons l ls => rw [current_of_ahead_eq_cons hc, List.tail_cons]

end Cursor

namespace Parser

variable {α β : Type}

/-! ## Single steps -/

theorem run_bind_of_ok {p : Parser α} {q : α → Parser β} {c c' : Cursor} {a : α}
    (h : p.run c = .ok a c') : (p >>= q).run c = (q a).run c' := by
  rw [EStateM.run_bind, h]

theorem run_bind_of_error {p : Parser α} {c c' : Cursor} {f : ParseFault}
    (h : p.run c = .error f c') (q : α → Parser β) : (p >>= q).run c = .error f c' := by
  rw [EStateM.run_bind, h]

theorem run_get_bind (q : Cursor → Parser β) (c : Cursor) : (get >>= q).run c = (q c).run c := rfl

theorem run_advance (c : Cursor) : advance.run c = .ok c.current c.advance := rfl

theorem run_unexpected (e : Expectation) (c : Cursor) :
    (unexpected e : Parser α).run c = .error (.unexpected e c.current.token) c := rfl

theorem run_throw (f : ParseFault) (c : Cursor) : (throw f : Parser α).run c = .error f c := rfl

theorem run_expect_of_eq {k : Kind} {c : Cursor} (h : c.kind = k) (context : String) :
    (expect k context).run c = .ok c.current c.advance := by
  rw [expect, run_get_bind, if_pos h, run_advance]

theorem run_expect_of_ne {k : Kind} {c : Cursor} (h : c.kind ≠ k) (context : String) :
    (expect k context).run c = .error (.unexpected (.token k context) c.current.token) c := by
  rw [expect, run_get_bind, if_neg h, run_unexpected]

/-! ## What a run ensures -/

/-- The run of `p` from `c` ends with a value and a cursor of which `ok` holds, or with a fault and
a cursor of which `bad` does. -/
def Ensures (p : Parser α) (c : Cursor) (ok : α → Cursor → Prop)
    (bad : ParseFault → Cursor → Prop) : Prop :=
  match p.run c with
  | .ok a c' => ok a c'
  | .error f c' => bad f c'

namespace Ensures

variable {p : Parser α} {q : α → Parser β} {c : Cursor} {ok : α → Cursor → Prop}
  {ok' : β → Cursor → Prop} {bad bad' : ParseFault → Cursor → Prop}

theorem of_run_ok {a : α} {c' : Cursor} (h : p.run c = .ok a c') (hp : p.Ensures c ok bad) :
    ok a c' := by
  rw [Ensures, h] at hp
  exact hp

theorem of_run_error {f : ParseFault} {c' : Cursor} (h : p.run c = .error f c')
    (hp : p.Ensures c ok bad) : bad f c' := by
  rw [Ensures, h] at hp
  exact hp

theorem intro_ok {a : α} {c' : Cursor} (h : p.run c = .ok a c') (ha : ok a c') :
    p.Ensures c ok bad := by
  rw [Ensures, h]
  exact ha

theorem intro_error {f : ParseFault} {c' : Cursor} (h : p.run c = .error f c') (hf : bad f c') :
    p.Ensures c ok bad := by
  rw [Ensures, h]
  exact hf

theorem mono {ok' : α → Cursor → Prop} (hp : p.Ensures c ok bad)
    (hok : ∀ a c', ok a c' → ok' a c') (hbad : ∀ f c', bad f c' → bad' f c') :
    p.Ensures c ok' bad' := by
  cases h : p.run c with
  | ok a c' => exact .intro_ok h (hok a c' (hp.of_run_ok h))
  | error f c' => exact .intro_error h (hbad f c' (hp.of_run_error h))

theorem and {ok₂ : α → Cursor → Prop} (hp : p.Ensures c ok bad) (hp₂ : p.Ensures c ok₂ bad') :
    p.Ensures c (fun a c' ↦ ok a c' ∧ ok₂ a c') fun f c' ↦ bad f c' ∧ bad' f c' := by
  cases h : p.run c with
  | ok a c' => exact .intro_ok h ⟨hp.of_run_ok h, hp₂.of_run_ok h⟩
  | error f c' => exact .intro_error h ⟨hp.of_run_error h, hp₂.of_run_error h⟩

theorem bind (hp : p.Ensures c ok bad) (hok : ∀ a c', ok a c' → (q a).Ensures c' ok' bad')
    (hbad : ∀ f c', bad f c' → bad' f c') : (p >>= q).Ensures c ok' bad' := by
  rw [Ensures, EStateM.run_bind]
  cases h : p.run c with
  | ok a c' => exact hok a c' (hp.of_run_ok h)
  | error f c' => exact hbad f c' (hp.of_run_error h)

theorem pure {a : α} (h : ok a c) : (Pure.pure a : Parser α).Ensures c ok bad := h

theorem get_bind {q : Cursor → Parser β} (h : (q c).Ensures c ok' bad') :
    (get >>= q).Ensures c ok' bad' := h

theorem modify_bind {f : Cursor → Cursor} {q : PUnit → Parser β}
    (h : (q ⟨⟩).Ensures (f c) ok' bad') : (modify f >>= q).Ensures c ok' bad' := h

theorem advance_bind {q : Lexeme → Parser β} (h : (q c.current).Ensures c.advance ok' bad') :
    (advance >>= q).Ensures c ok' bad' := h

end Ensures

/-! ## Loops -/

variable {more : Cursor → Bool} {item : Parser α}

/-- Every item that is read where `more` holds takes a lexeme. -/
def Consumes (more : Cursor → Bool) (item : Parser α) : Prop :=
  ∀ (c : Cursor) (a : α) (c' : Cursor), more c = true → item.run c = .ok a c' →
    c'.ahead.length < c.ahead.length

/-- Bounds that are large enough make no difference. -/
theorem run_collect_eq (h : Consumes more item) : ∀ {m n : Nat} {c : Cursor},
    c.ahead.length < m → c.ahead.length < n →
      (collect more item m).run c = (collect more item n).run c := by
  intro m
  induction m with
  | zero => intro n c hm; omega
  | succ m ih =>
    intro n c hm hn
    obtain ⟨n, rfl⟩ : ∃ n', n = n' + 1 := ⟨n - 1, by omega⟩
    rw [collect, collect, run_get_bind, run_get_bind]
    cases hmore : more c with
    | false => rfl
    | true =>
      simp only [if_true, EStateM.run_bind]
      cases hi : item.run c with
      | error f c' => rfl
      | ok a c' =>
        have := h c a c' hmore hi
        dsimp only
        rw [ih (n := n) (by omega) (by omega)]

/-- A loop whose items take lexemes is its own unrolling. -/
theorem run_collectAll (h : Consumes more item) (c : Cursor) :
    (collectAll more item).run c
      = (if more c then do
          let first ← item
          let others ← collectAll more item
          return first :: others
        else return []).run c := by
  rw [collectAll, run_get_bind, collect, run_get_bind]
  cases hmore : more c with
  | false => rfl
  | true =>
    simp only [if_true, EStateM.run_bind]
    cases hi : item.run c with
    | error f c' => rfl
    | ok a c' =>
      have hlt := h c a c' hmore hi
      dsimp only
      -- the item has left fewer lexemes, so a bound one lower is still large enough
      rw [run_collect_eq h hlt (Nat.lt_succ_self c'.ahead.length)]
      rfl

theorem run_collectAll_of_stop (h : Consumes more item) {c : Cursor} (hmore : more c = false) :
    (collectAll more item).run c = .ok [] c := by
  rw [run_collectAll h, hmore]
  rfl

theorem run_collectAll_of_ok (h : Consumes more item) {c c' c'' : Cursor} {a : α} {as : List α}
    (hmore : more c = true) (hi : item.run c = .ok a c')
    (hrest : (collectAll more item).run c' = .ok as c'') :
    (collectAll more item).run c = .ok (a :: as) c'' := by
  rw [run_collectAll h, hmore, if_pos rfl, EStateM.run_bind, hi]
  dsimp only
  rw [EStateM.run_bind, hrest]
  rfl

theorem Ensures.collectAll (h : Consumes more item) {c : Cursor} {ok : List α → Cursor → Prop}
    {bad : ParseFault → Cursor → Prop} (hstop : more c = false → ok [] c)
    (hitem : more c = true → item.Ensures c
      (fun a c' ↦ (collectAll more item).Ensures c' (fun as ↦ ok (a :: as)) bad) bad) :
    (Parser.collectAll more item).Ensures c ok bad := by
  rw [Ensures, run_collectAll h]
  cases hmore : more c with
  | false => exact hstop hmore
  | true =>
    refine (hitem hmore).bind (fun a c' ha ↦ ?_) fun _ _ hf ↦ hf
    exact ha.bind (fun _ _ has ↦ .pure has) fun _ _ hf ↦ hf

end Parser

/-! ## Programs of tokens -/

namespace Program

variable {limit : Nat} {source : Source} {tokens : List Token}

theorem ofTokens_eq_ok_iff {p : Program} : ofTokens limit source tokens = .ok p ↔
    ∃ c, (Parser.program limit).run (.ofTokens source tokens) = .ok p c := by
  rw [ofTokens]
  cases (Parser.program limit).run (.ofTokens source tokens) <;> simp

theorem ofTokens_eq_error_iff {f : ParseFault} : ofTokens limit source tokens = .error f ↔
    ∃ c, (Parser.program limit).run (.ofTokens source tokens) = .error f c := by
  rw [ofTokens]
  cases (Parser.program limit).run (.ofTokens source tokens) <;> simp

end Program

end InfixCompiler
