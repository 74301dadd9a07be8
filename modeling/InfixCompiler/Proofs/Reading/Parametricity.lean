import InfixCompiler.Proofs.Reading.Outcome
import Mathlib.Data.List.Forall2

/-!
# Readers do not look at places

What a reader does depends on the kinds and the texts of lexemes. Where they are it never asks: it
passes tokens on, into the operators of expressions and into faults. So if two lists of lexemes are
the same but for places, then what is read from them is the same but for these places.

Which places belong together is a relation `R` on tokens, of which nothing is needed but that it
keeps kinds. *Alike* are any two things that are the same but for tokens in the relation. Two
readers *correspond* if they do alike things from alike cursors, and that each reader corresponds to
itself is shown along its parts, as with all statements about readers.
-/

namespace InfixCompiler

/-! ## Things that are alike -/

section Alike

variable (R : Token → Token → Prop)

/-- The lexemes have the same text and tokens in the relation. -/
structure Lexeme.Alike (l l' : Lexeme) : Prop where
  /-- The tokens are in the relation. -/
  token : R l.token l'.token
  /-- The text is the same. -/
  text : l.text = l'.text

/-- The cursors have alike lexemes ahead. -/
structure Cursor.Alike (c c' : Cursor) : Prop where
  /-- The lexemes are alike up to the end. -/
  ahead : List.Forall₂ (Lexeme.Alike R) c.ahead c'.ahead
  /-- The ends are alike. -/
  last : Lexeme.Alike R c.last c'.last
  /-- As many expressions are being read. -/
  depth : c.depth = c'.depth

/-- The expressions have the same numbers and operators in the relation. -/
inductive Expression.Alike : Expression → Expression → Prop
  | number (x : Binary64) : Alike (.number x) (.number x)
  | binary {e e' f f' : Expression} {o o' : Token} (he : Alike e e') (ho : R o o')
      (hf : Alike f f') : Alike (.binary e o f) (.binary e' o' f')

/-- The functions have the same names and alike returns. -/
structure Function.Alike (f f' : Function) : Prop where
  /-- The name is the same. -/
  name : f.name = f'.name
  /-- The parameters are the same. -/
  params : f.params = f'.params
  /-- The returns are alike. -/
  returns : List.Forall₂ (Expression.Alike R) f.returns f'.returns

/-- The programs have alike functions. -/
def Program.Alike (p p' : Program) : Prop :=
  List.Forall₂ (Function.Alike R) p.functions p'.functions

/-- The faults are the same one at tokens in the relation. -/
inductive ParseFault.Alike : ParseFault → ParseFault → Prop
  | unexpected (e : Expectation) {t t' : Token} (h : R t t') :
      Alike (.unexpected e t) (.unexpected e t')
  | unclosedBlock {t t' : Token} (h : R t t') : Alike (.unclosedBlock t) (.unclosedBlock t')
  | tooDeep (limit : Nat) {t t' : Token} (h : R t t') : Alike (.tooDeep limit t) (.tooDeep limit t')
  | badNumber {t t' : Token} (h : R t t') : Alike (.badNumber t) (.badNumber t')

/-- The results are values of which `Q` holds or alike faults, at alike cursors. -/
inductive Parser.ResultAlike {α : Type} (Q : α → α → Prop) :
    EStateM.Result ParseFault Cursor α → EStateM.Result ParseFault Cursor α → Prop
  | ok {a a' : α} {c c' : Cursor} (ha : Q a a') (hc : c.Alike R c') :
      ResultAlike Q (.ok a c) (.ok a' c')
  | error {f f' : ParseFault} {c c' : Cursor} (hf : f.Alike R f') (hc : c.Alike R c') :
      ResultAlike Q (.error f c) (.error f' c')

/-- From alike cursors the readers come to values of which `Q` holds or to alike faults. -/
def Parser.Correspond {α : Type} (Q : α → α → Prop) (p p' : Parser α) : Prop :=
  ∀ ⦃c c' : Cursor⦄, c.Alike R c' → ResultAlike R Q (p.run c) (p'.run c')

end Alike

/-- Tokens in the relation are of one kind. -/
def KeepsKinds (R : Token → Token → Prop) : Prop := ∀ ⦃t t' : Token⦄, R t t' → t.kind = t'.kind

variable {R : Token → Token → Prop}

namespace Cursor.Alike

variable {c c' : Cursor}

theorem current (h : c.Alike R c') : Lexeme.Alike R c.current c'.current := by
  have hahead := h.ahead
  rw [Cursor.current, Cursor.current]
  generalize c.ahead = ls at hahead ⊢
  generalize c'.ahead = ls' at hahead ⊢
  cases hahead with
  | nil => exact h.last
  | cons hl _ => exact hl

theorem kind (h : c.Alike R c') (hR : KeepsKinds R) : c.kind = c'.kind := hR h.current.token

theorem nextKind? (h : c.Alike R c') (hR : KeepsKinds R) : c.nextKind? = c'.nextKind? := by
  have hahead := h.ahead
  rw [Cursor.nextKind?, Cursor.nextKind?]
  generalize c.ahead = ls at hahead ⊢
  generalize c'.ahead = ls' at hahead ⊢
  rcases hahead with _ | ⟨_, _ | ⟨hnext, _⟩⟩
  · rfl
  · rfl
  · exact congrArg some (hR hnext.token)

theorem atEnd (h : c.Alike R c') (hR : KeepsKinds R) : c.atEnd = c'.atEnd := by
  rw [Cursor.atEnd, Cursor.atEnd, h.kind hR]

theorem advance (h : c.Alike R c') : c.advance.Alike R c'.advance := by
  refine ⟨?_, h.last, h.depth⟩
  rw [Cursor.advance, Cursor.advance, ← List.drop_one, ← List.drop_one]
  exact List.forall₂_drop 1 h.ahead

end Cursor.Alike

theorem Expression.Alike.height {e e' : Expression} (h : e.Alike R e') : e.height = e'.height := by
  induction h with
  | number x => rfl
  | binary _ _ _ ihe ihf => rw [Expression.height, Expression.height, ihe, ihf]

theorem ParseFault.Alike.reason (hR : KeepsKinds R) {f f' : ParseFault} (h : f.Alike R f') :
    f.reason = f'.reason := by
  cases h with
  | unexpected e h => exact congrArg (fun k ↦ s!"{e.text}, found {Kind.describe k}") (hR h)
  | unclosedBlock _ => rfl
  | tooDeep limit _ => rfl
  | badNumber _ => rfl

/-! ## Readers that correspond -/

namespace Parser

variable {α β : Type} {Q : α → α → Prop} {Q' : β → β → Prop}

namespace Correspond

theorem pure {a a' : α} (h : Q a a') :
    Correspond R Q (Pure.pure a : Parser α) (Pure.pure a') :=
  fun _ _ hc ↦ .ok h hc

theorem throw {f f' : ParseFault} (h : f.Alike R f') :
    Correspond R Q (MonadExcept.throw f : Parser α) (MonadExcept.throw f') :=
  fun _ _ hc ↦ .error h hc

theorem bind {p p' : Parser α} {k k' : α → Parser β} (h : Correspond R Q p p')
    (hk : ∀ a a', Q a a' → Correspond R Q' (k a) (k' a')) :
    Correspond R Q' (p >>= k) (p' >>= k') := by
  intro c c' hc
  have hresult := h hc
  rw [EStateM.run_bind, EStateM.run_bind]
  generalize p.run c = r at hresult ⊢
  generalize p'.run c' = r' at hresult ⊢
  cases hresult with
  | ok ha hc' => exact hk _ _ ha hc'
  | error hf hc' => exact .error hf hc'

theorem get_bind {k k' : Cursor → Parser β}
    (hk : ∀ c c', c.Alike R c' → Correspond R Q' (k c) (k' c')) :
    Correspond R Q' (get >>= k) (get >>= k') :=
  fun c c' hc ↦ hk c c' hc hc

theorem modify_depth (g : Nat → Nat) :
    Correspond R (fun _ _ ↦ True) (modify fun c ↦ { c with depth := g c.depth } : Parser Unit)
      (modify fun c ↦ { c with depth := g c.depth }) :=
  fun _ _ hc ↦ .ok trivial ⟨hc.ahead, hc.last, congrArg g hc.depth⟩

theorem advance : Correspond R (Lexeme.Alike R) Parser.advance Parser.advance :=
  fun _ _ hc ↦ .ok hc.current hc.advance

theorem unexpected (e : Expectation) :
    Correspond R Q (Parser.unexpected e : Parser α) (Parser.unexpected e) :=
  fun _ _ hc ↦ .error (.unexpected e hc.current.token) hc

theorem expect (hR : KeepsKinds R) (k : Kind) (context : String) :
    Correspond R (Lexeme.Alike R) (Parser.expect k context) (Parser.expect k context) := by
  refine get_bind fun c c' hc ↦ ?_
  rw [hc.kind hR]
  split
  · exact advance
  · exact unexpected _

theorem collectAll {more more' : Cursor → Bool} {p p' : Parser α}
    (hmore : ∀ c c', c.Alike R c' → more c = more' c') (h : Correspond R Q p p') :
    Correspond R (List.Forall₂ Q) (Parser.collectAll more p) (Parser.collectAll more' p') := by
  have hcollect (bound : Nat) :
      Correspond R (List.Forall₂ Q) (collect more p bound) (collect more' p' bound) := by
    induction bound with
    | zero => exact pure .nil
    | succ bound ih =>
      refine get_bind fun c c' hc ↦ ?_
      rw [hmore c c' hc]
      split
      · exact h.bind fun a a' ha ↦ ih.bind fun as as' has ↦ pure (.cons ha has)
      · exact pure .nil
  refine get_bind fun c c' hc ↦ ?_
  rw [hc.ahead.length_eq]
  exact hcollect _

end Correspond

/-! ## Expressions -/

theorem operand_correspond (hR : KeepsKinds R) {inner inner' : Parser Expression}
    (h : Correspond R (Expression.Alike R) inner inner') :
    Correspond R (Expression.Alike R) (operand inner) (operand inner') := by
  refine .get_bind fun c c' hc ↦ ?_
  dsimp only
  rw [← Cursor.kind_eq, ← Cursor.kind_eq, hc.kind hR, hc.current.text]
  split
  · refine Correspond.advance.bind fun _ _ _ ↦ ?_
    split
    · exact .pure (.number _)
    · exact .throw (.badNumber hc.current.token)
  · refine Correspond.advance.bind fun _ _ _ ↦ h.bind fun e e' he ↦ ?_
    exact (Correspond.expect hR _ _).bind fun _ _ _ ↦ .pure he
  · exact .unexpected _
  · split
    · exact .unexpected _
    · exact .unexpected _

theorem climb_correspond (hR : KeepsKinds R) {limit : Nat}
    {right right' : Precedence → Parser Expression}
    (hright : ∀ level, Correspond R (Expression.Alike R) (right level) (right' level))
    (least : Precedence) {left left' : Expression} (hleft : left.Alike R left') :
    Correspond R (Expression.Alike R) (climb limit right least left)
      (climb limit right' least left') := by
  induction hm : limit - left.height using Nat.strongRecOn generalizing left left' with
  | ind m ih =>
  rw [climb, climb]
  refine .get_bind fun c c' hc ↦ ?_
  rw [hc.kind hR]
  split
  · exact .pure hleft
  · exact .unexpected _
  · refine Correspond.advance.bind fun o o' ho ↦ (hright _).bind fun e e' he ↦ ?_
    rw [← hleft.height, ← he.height]
    split
    · exact ih _ (by rw [Expression.height]; omega) (.binary hleft ho.token he) rfl
    · exact .throw (.tooDeep limit ho.token)

theorem expressionWithin_correspond (hR : KeepsKinds R) (limit room : Nat) (least : Precedence) :
    Correspond R (Expression.Alike R) (expressionWithin limit room least)
      (expressionWithin limit room least) := by
  induction room generalizing least with
  | zero =>
    rw [expressionWithin]
    exact (Correspond.modify_depth (· + 1)).bind fun _ _ _ ↦
      .get_bind fun c c' hc ↦ .throw (.tooDeep limit hc.current.token)
  | succ room ih =>
    rw [expressionWithin]
    refine (Correspond.modify_depth (· + 1)).bind fun _ _ _ ↦ ?_
    refine (operand_correspond hR (ih .none)).bind fun left left' hleft ↦ ?_
    refine (climb_correspond hR ih least hleft).bind fun e e' he ↦ ?_
    exact (Correspond.modify_depth (· - 1)).bind fun _ _ _ ↦ .pure he

theorem expression_correspond (hR : KeepsKinds R) (limit : Nat) (least : Precedence) :
    Correspond R (Expression.Alike R) (expression limit least) (expression limit least) := by
  refine .get_bind fun c c' hc ↦ ?_
  rw [hc.depth]
  exact expressionWithin_correspond hR limit _ least

/-! ## Statements and functions -/

theorem returned_correspond (hR : KeepsKinds R) (limit : Nat) :
    Correspond R (Expression.Alike R) (returned limit) (returned limit) := by
  refine (Correspond.expect hR _ _).bind fun _ _ _ ↦ ?_
  refine (expression_correspond hR limit _).bind fun e e' he ↦ ?_
  exact (Correspond.expect hR _ _).bind fun _ _ _ ↦ .pure he

theorem statement_correspond (hR : KeepsKinds R) (limit : Nat) :
    Correspond R (Expression.Alike R) (statement limit) (statement limit) := by
  refine .get_bind fun c c' hc ↦ ?_
  rw [hc.kind hR, hc.nextKind? hR]
  split
  · exact returned_correspond hR limit
  · split
    · exact .unexpected _
    · exact .unexpected _

theorem block_correspond (hR : KeepsKinds R) (limit : Nat) :
    Correspond R (List.Forall₂ (Expression.Alike R)) (block limit) (block limit) := by
  refine (Correspond.expect hR _ _).bind fun opening opening' hopening ↦ ?_
  refine (Correspond.collectAll (Q := Expression.Alike R) (fun c c' hc ↦ ?_) ?_).bind
    fun es es' hes ↦ Correspond.advance.bind fun _ _ _ ↦ .pure hes
  · rw [hc.kind hR]
  · refine .get_bind fun c c' hc ↦ ?_
    rw [hc.atEnd hR]
    split
    · exact .throw (.unclosedBlock hopening.token)
    · exact statement_correspond hR limit

theorem parameter_correspond (hR : KeepsKinds R) :
    Correspond R Eq parameter parameter := by
  refine (Correspond.expect hR _ _).bind fun name name' hname ↦ .get_bind fun c c' hc ↦ ?_
  rw [hc.kind hR, hname.text]
  split
  · exact .pure rfl
  · exact (Correspond.expect hR _ _).bind fun _ _ _ ↦ .pure rfl

theorem function_correspond (hR : KeepsKinds R) (limit : Nat) :
    Correspond R (Function.Alike R) (function limit) (function limit) := by
  refine (Correspond.expect hR _ _).bind fun _ _ _ ↦ ?_
  refine (Correspond.expect hR _ _).bind fun name name' hname ↦ ?_
  refine (Correspond.expect hR _ _).bind fun _ _ _ ↦ ?_
  refine (Correspond.collectAll (fun c c' hc ↦ ?_) (parameter_correspond hR)).bind
    fun params params' hparams ↦ Correspond.advance.bind fun _ _ _ ↦ ?_
  · rw [hc.kind hR]
  · rw [List.forall₂_eq_eq_eq] at hparams
    exact (block_correspond hR limit).bind fun es es' hes ↦ .pure ⟨hname.text, hparams, hes⟩

/-- **Programs that are the same but for places.** Cursors with alike lexemes ahead are read as
alike programs, or with alike faults. -/
theorem program_correspond (hR : KeepsKinds R) (limit : Nat) :
    Correspond R (Program.Alike R) (program limit) (program limit) := by
  refine (Correspond.collectAll (Q := Function.Alike R) (fun c c' hc ↦ ?_) ?_).bind
    fun fs fs' hfs ↦ .pure hfs
  · rw [hc.atEnd hR]
  · refine .get_bind fun c c' hc ↦ ?_
    rw [hc.kind hR]
    split
    · exact function_correspond hR limit
    · exact .unexpected _

end Parser

end InfixCompiler
