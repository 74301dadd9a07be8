import InfixCompiler.Program.Session
import InfixCompiler.Proofs.Reading.Depth
import Mathlib.Logic.Relation

/-!
# Readers that are open at a fault

The reader of a construct calls the readers of its parts one after the other. `Calls` says where
each call begins: at the cursor that the caller comes to before it. No reader recovers from a fault,
so a call that fails is the last one, and its fault is that of the caller (`Calls.fault`). What is
open when a fault is found is therefore a chain of calls that fail (`OpenAtFault`).

Expressions alone change the depth. A fault that comes from no call finds it as the caller has made
it (`faultOrigin`), and so the depth behind a fault is the one before it and one more for each
expression that is open (`OpenAtFault.depth`).
-/

namespace InfixCompiler

namespace Parser

variable {α β : Type} {limit : Nat}

/-! ## Faults along a reader -/

theorem run_bind_eq_error {p : Parser α} {q : α → Parser β} {c c' : Cursor} {f : ParseFault}
    (h : (p >>= q).run c = .error f c') :
    p.run c = .error f c' ∨ ∃ a c₁, p.run c = .ok a c₁ ∧ (q a).run c₁ = .error f c' := by
  rw [EStateM.run_bind] at h
  cases hp : p.run c with
  | error f₁ c₁ =>
    rw [hp] at h
    cases h
    exact .inl rfl
  | ok a c₁ =>
    rw [hp] at h
    exact .inr ⟨a, c₁, rfl, h⟩

theorem run_map (g : α → β) (p : Parser α) (c : Cursor) :
    (g <$> p).run c = match p.run c with
      | .ok a c' => .ok (g a) c'
      | .error f c' => .error f c' := by
  rw [map_eq_pure_bind, EStateM.run_bind]
  cases p.run c <;> rfl

theorem run_map_eq_error {g : α → β} {p : Parser α} {c c' : Cursor} {f : ParseFault} :
    (g <$> p).run c = .error f c' ↔ p.run c = .error f c' := by
  rw [run_map]
  cases p.run c <;> simp

theorem run_map_eq_ok {g : α → β} {p : Parser α} {c c' : Cursor} {b : β} :
    (g <$> p).run c = .ok b c' ↔ ∃ a, p.run c = .ok a c' ∧ g a = b := by
  rw [run_map]
  cases p.run c with
  | ok a c₁ => simp [and_comm]
  | error f c₁ => simp

/-! ## Readers that never change the depth -/

/-- Neither a value nor a fault of `p` changes the depth. -/
def KeepsDepth (p : Parser α) : Prop :=
  ∀ c, p.Ensures c (fun _ c' ↦ c'.depth = c.depth) fun _ c' ↦ c'.depth = c.depth

theorem KeepsDepth.pure (a : α) : KeepsDepth (Pure.pure a : Parser α) := fun _ ↦ rfl

theorem KeepsDepth.advance : KeepsDepth Parser.advance := fun _ ↦ rfl

theorem KeepsDepth.bind {p : Parser α} {q : α → Parser β} (hp : KeepsDepth p)
    (hq : ∀ a, KeepsDepth (q a)) : KeepsDepth (p >>= q) := fun c ↦
  (hp c).bind (fun a c₁ h ↦ (hq a c₁).mono (fun _ _ h' ↦ h'.trans h) fun _ _ h' ↦ h'.trans h)
    fun _ _ h ↦ h

theorem KeepsDepth.expect (k : Kind) (context : String) : KeepsDepth (Parser.expect k context) := by
  intro c
  by_cases h : c.kind = k
  · exact .intro_ok (run_expect_of_eq h context) rfl
  · exact .intro_error (run_expect_of_ne h context) rfl

theorem KeepsDepth.collectAll {more : Cursor → Bool} {item : Parser α} (h : Consumes more item)
    (hi : KeepsDepth item) : KeepsDepth (Parser.collectAll more item) := by
  intro c
  induction hm : c.ahead.length using Nat.strongRecOn generalizing c with
  | ind m ih =>
  refine .collectAll h (fun _ ↦ rfl) fun hmore ↦ ?_
  cases hrun : item.run c with
  | error f c' => exact .intro_error hrun ((hi c).of_run_error hrun)
  | ok a c₁ =>
    have hdepth : c₁.depth = c.depth := (hi c).of_run_ok hrun
    refine .intro_ok hrun ((ih _ (hm ▸ h c a c₁ hmore hrun) c₁ rfl).mono ?_ ?_)
    · exact fun _ _ h' ↦ h'.trans hdepth
    · exact fun _ _ h' ↦ h'.trans hdepth

theorem keepsDepth_parameter : KeepsDepth parameter := by
  refine .bind (.expect _ _) fun name c ↦ .get_bind ?_
  split
  · exact KeepsDepth.pure _ c
  · exact KeepsDepth.bind (.expect _ _) (fun _ ↦ .pure _) c

/-- What a function has before its block: its name and its parameters. -/
def header : Parser (String × List String) := do
  let _ ← expect (.keyword .func) "to start a function declaration"
  let name ← expect .identifier "as the function's name"
  let _ ← expect (.symbol .leftParen) "to open the parameter list"
  let params ← collectAll parametersGoOn parameter
  let _ ← advance
  return (name.text, params)

theorem function_eq_header : function limit = (do
    let h ← header
    let returns ← block limit
    return ⟨h.1, h.2, returns⟩) := by
  rw [function_eq, header]
  simp only [bind_assoc, pure_bind]

theorem keepsDepth_header : KeepsDepth header :=
  .bind (.expect _ _) fun _ ↦ .bind (.expect _ _) fun _ ↦ .bind (.expect _ _) fun _ ↦
    .bind (.collectAll consumes_parameter keepsDepth_parameter) fun _ ↦
      .bind .advance fun _ ↦ .pure _

theorem Takes.depth {D : Type} {lexemes : D → List Lexeme} {value : D → α} {Good : D → Prop}
    {c c' : Cursor} {a : α} (h : Takes lexemes value Good c a c') : c'.depth = c.depth := by
  obtain ⟨_, _, _, _, rfl, _⟩ := h
  rfl

/-! ## Loops -/

/-- A loop comes from `c` to `c'` with items that it reads to their ends. -/
def Repeats (more : Cursor → Bool) (item : Parser α) : Cursor → Cursor → Prop :=
  Relation.ReflTransGen fun c c' ↦ more c = true ∧ ∃ a, item.run c = .ok a c'

variable {more : Cursor → Bool} {item : Parser α}

theorem Repeats.depth (hi : ∀ c a c', item.run c = .ok a c' → c'.depth = c.depth) {c c' : Cursor}
    (h : Repeats more item c c') : c'.depth = c.depth := by
  induction h with
  | refl => rfl
  | tail _ hstep ih =>
    obtain ⟨_, a, hrun⟩ := hstep
    exact (hi _ a _ hrun).trans ih

theorem Repeats.fault (h : Consumes more item) {c c₁ c' : Cursor} {f : ParseFault}
    (hc : Repeats more item c c₁) (hmore : more c₁ = true) (hi : item.run c₁ = .error f c') :
    (collectAll more item).run c = .error f c' := by
  induction hc using Relation.ReflTransGen.head_induction_on with
  | refl =>
    rw [run_collectAll h, if_pos hmore]
    exact run_bind_of_error hi _
  | head hstep _ ih =>
    obtain ⟨hmore', a, hrun⟩ := hstep
    rw [run_collectAll h, if_pos hmore', run_bind_of_ok hrun]
    exact run_bind_of_error ih _

/-- A loop fails in an item, after others that it has read. -/
theorem exists_repeats_of_error (h : Consumes more item) {c c' : Cursor} {f : ParseFault}
    (hrun : (collectAll more item).run c = .error f c') :
    ∃ c₁, Repeats more item c c₁ ∧ more c₁ = true ∧ item.run c₁ = .error f c' := by
  induction hm : c.ahead.length using Nat.strongRecOn generalizing c with
  | ind m ih =>
  rw [run_collectAll h] at hrun
  cases hmore : more c with
  | false =>
    rw [hmore] at hrun
    exact absurd hrun (by simp)
  | true =>
    rw [hmore, if_pos rfl] at hrun
    obtain hitem | ⟨a, c₂, hitem, hrest⟩ := run_bind_eq_error hrun
    · exact ⟨c, .refl, hmore, hitem⟩
    obtain hrest | ⟨as, c₃, _, hpure⟩ := run_bind_eq_error hrest
    · obtain ⟨c₁, hc₁, hmore₁, hi₁⟩ := ih _ (hm ▸ h c a c₂ hmore hitem) hrest rfl
      exact ⟨c₁, .head ⟨hmore, a, hitem⟩ hc₁, hmore₁, hi₁⟩
    · cases hpure

/-! ## Climbs -/

/-- An operator and its right operand are read behind an expression. -/
inductive ClimbStep (limit : Nat) (least : Precedence) :
    Expression × Cursor → Expression × Cursor → Prop
  /-- The operator is one that binds tightly enough, and the two operands are not too high. -/
  | operator {left e : Expression} {c c' : Cursor} {level : Precedence} :
    continuation least c.kind = .operator level →
      (expression limit level.tighter).run c.advance = .ok e c' →
        max left.height e.height + 1 ≤ limit →
          ClimbStep limit least (left, c) (.binary left c.current.token e, c')

/-- Operators and their right operands are read behind an expression. -/
abbrev Climbs (limit : Nat) (least : Precedence) :
    Expression × Cursor → Expression × Cursor → Prop :=
  Relation.ReflTransGen (ClimbStep limit least)

variable {least : Precedence}

theorem Climbs.run {s s' : Expression × Cursor} (h : Climbs limit least s s') :
    (climb limit (expression limit) least s.1).run s.2
      = (climb limit (expression limit) least s'.1).run s'.2 := by
  induction h using Relation.ReflTransGen.head_induction_on with
  | refl => rfl
  | head hstep _ ih =>
    obtain ⟨hlevel, hrun, hbound⟩ := hstep
    rw [← ih, climb, run_get_bind, hlevel]
    dsimp only
    rw [run_bind_of_ok (run_advance _), run_bind_of_ok hrun, dif_pos hbound]

theorem Climbs.depth {s s' : Expression × Cursor} (h : Climbs limit least s s') :
    s'.2.depth = s.2.depth := by
  induction h with
  | refl => rfl
  | tail _ hstep ih =>
    obtain ⟨_, hrun, _⟩ := hstep
    exact ((expression_leaves _ _).of_run_ok hrun).depth.trans ih

/-- A climb fails in a right operand, or with the depth that it began with. -/
theorem exists_climbs_of_error {left : Expression} {c c' : Cursor} {f : ParseFault}
    (h : (climb limit (expression limit) least left).run c = .error f c') :
    (∃ left₁ c₁ level, Climbs limit least (left, c) (left₁, c₁) ∧
        continuation least c₁.kind = .operator level ∧
          (expression limit level.tighter).run c₁.advance = .error f c') ∨
      c'.depth = c.depth := by
  induction hm : limit - left.height using Nat.strongRecOn generalizing left c with
  | ind m ih =>
  rw [climb, run_get_bind] at h
  split at h
  · exact absurd h (by simp)
  · cases h
    exact .inr rfl
  next level hlevel =>
  rw [run_bind_of_ok (run_advance c)] at h
  obtain hright | ⟨e, c₁, hright, hrest⟩ := run_bind_eq_error h
  · exact .inl ⟨left, c, level, .refl, hlevel, hright⟩
  have hdepth : c₁.depth = c.depth := ((expression_leaves _ _).of_run_ok hright).depth
  split at hrest
  · next hbound =>
    obtain ⟨left₂, c₂, level₂, hc₂, hlevel₂, hright₂⟩ | hsame :=
      ih _ (by rw [Expression.height]; omega) hrest rfl
    · exact .inl ⟨left₂, c₂, level₂, .head (.operator hlevel hright hbound) hc₂, hlevel₂, hright₂⟩
    · exact .inr (hsame.trans hdepth)
  · cases hrest
    exact .inr hdepth

end Parser

/-! ## Calls -/

open InfixCompiler.Parser

variable {limit : Nat}

/-- The reader of one construct from a cursor comes to where it calls the reader of another. -/
inductive Calls (limit : Nat) : Construct → Cursor → Construct → Cursor → Prop
  /-- A program calls for a function, after others, where the word for one is. -/
  | function {c c₁ : Cursor} : Repeats programGoesOn (programItem limit) c c₁ →
      c₁.kind = .keyword .func → Calls limit .program c .function c₁
  /-- A function calls for a block behind its name and its parameters. -/
  | block {c c₁ : Cursor} {h : String × List String} : header.run c = .ok h c₁ →
      Calls limit .function c .block c₁
  /-- A block calls for a statement, after others, where neither its brace nor an end is. -/
  | statement {c c₀ c₁ : Cursor} {opening : Lexeme} :
      (expect (.symbol .leftBrace) "to open a block").run c = .ok opening c₀ →
        Repeats blockGoesOn (blockItem limit opening) c₀ c₁ → blockGoesOn c₁ = true →
          c₁.atEnd = false → Calls limit .block c .statement c₁
  /-- A statement calls for a return where the word for one is. -/
  | returned {c : Cursor} : c.kind = .keyword .return → Calls limit .statement c .returned c
  /-- A return calls for an expression behind its word. -/
  | result {c : Cursor} : c.kind = .keyword .return →
      Calls limit .returned c (.expression .none) c.advance
  /-- An expression calls for the one in the parentheses that it begins with. -/
  | group {c : Cursor} {least : Precedence} : c.depth < limit → c.kind = .symbol .leftParen →
      Calls limit (.expression least) c (.expression .none) c.deeper.advance
  /-- An expression calls for the right operand of each operator that it takes. -/
  | right {c c₀ c₁ : Cursor} {least level : Precedence} {e left : Expression} : c.depth < limit →
      (operand (expression limit .none)).run c.deeper = .ok e c₀ →
        Climbs limit least (e, c₀) (left, c₁) → continuation least c₁.kind = .operator level →
          Calls limit (.expression least) c (.expression level.tighter) c₁.advance

namespace Construct

/-- Whether the construct is an expression. -/
def isExpression : Construct → Bool
  | expression _ => true
  | _ => false

/-- How far the construct is from expressions, by the calls for its parts. -/
def rank : Construct → Nat
  | program => 5
  | function => 4
  | block => 3
  | statement => 2
  | returned => 1
  | expression _ => 0

end Construct

theorem depth_of_run_programItem {c c' : Cursor} {a : Function}
    (h : (programItem limit).run c = .ok a c') : c'.depth = c.depth :=
  Takes.depth ((programItem_ensures c).of_run_ok h)

theorem depth_of_run_blockItem {opening : Lexeme} {c c' : Cursor} {e : Expression}
    (h : (blockItem limit opening).run c = .ok e c') : c'.depth = c.depth :=
  Takes.depth ((blockItem_ensures opening c).of_run_ok h)

theorem depth_of_run_operand {c c' : Cursor} {e : Expression}
    (h : (operand (expression limit .none)).run c = .ok e c') : c'.depth = c.depth :=
  ((operand_leaves (expression_leaves .none) c).of_run_ok h).depth

/-- A construct has the faults of its reader. -/
theorem run_construct_eq_error {x : Construct} {c c' : Cursor} {f : ParseFault} :
    (construct limit x).run c = .error f c' ↔
      match x with
      | .program => (program limit).run c = .error f c'
      | .function => (function limit).run c = .error f c'
      | .block => (block limit).run c = .error f c'
      | .statement => (statement limit).run c = .error f c'
      | .returned => (returned limit).run c = .error f c'
      | .expression least => (expression limit least).run c = .error f c' := by
  cases x <;> exact run_map_eq_error

namespace Command

variable {c c' : Cursor} {x : Construct}

theorem perform_expect_of_eq {kind : Kind} (h : c.kind = kind) (context : String) :
    (expect kind context).perform limit c = (.token c.current.token, c.advance) := by
  rw [perform, run_expect_of_eq h]
  rfl

theorem perform_expect_of_ne {kind : Kind} (h : c.kind ≠ kind) (context : String) :
    (expect kind context).perform limit c
      = (.fault (.unexpected (.token kind context) c.current.token), c) := by
  rw [perform, run_expect_of_ne h]
  rfl

theorem perform_read_eq_tree {t : Tree} :
    (read x).perform limit c = (.tree t, c') ↔ (construct limit x).run c = .ok t c' := by
  rw [perform]
  cases (construct limit x).run c <;> simp [Answer.ofResult]

theorem perform_read_eq_fault {f : ParseFault} :
    (read x).perform limit c = (.fault f, c') ↔ (construct limit x).run c = .error f c' := by
  rw [perform]
  cases (construct limit x).run c <;> simp [Answer.ofResult]

/-- The answer to a command to read is a tree or a fault. -/
theorem perform_read (limit : Nat) (x : Construct) (c : Cursor) :
    (∃ t c', (construct limit x).run c = .ok t c' ∧ (read x).perform limit c = (.tree t, c')) ∨
      ∃ f c', (construct limit x).run c = .error f c' ∧
        (read x).perform limit c = (.fault f, c') := by
  cases h : (construct limit x).run c with
  | ok t c' => exact .inl ⟨t, c', rfl, perform_read_eq_tree.mpr h⟩
  | error f c' => exact .inr ⟨f, c', rfl, perform_read_eq_fault.mpr h⟩

end Command

theorem Cursor.after_cons (limit : Nat) (c : Cursor) (command : Command)
    (commands : List Command) :
    c.after limit (command :: commands) = (command.perform limit c).2.after limit commands := rfl

namespace Calls

variable {x y : Construct} {c c₁ : Cursor}

/-- An expression has been counted where it calls for another one. -/
theorem depth (h : Calls limit x c y c₁) :
    c₁.depth = c.depth + if x.isExpression then 1 else 0 := by
  cases h with
  | function hc _ => exact hc.depth fun _ _ _ ↦ depth_of_run_programItem
  | block hrun => exact (keepsDepth_header c).of_run_ok hrun
  | statement hrun hc _ _ =>
    have hopening := (KeepsDepth.expect _ _ c).of_run_ok hrun
    exact (hc.depth fun _ _ _ ↦ depth_of_run_blockItem).trans hopening
  | returned _ => rfl
  | result _ => rfl
  | group _ _ => rfl
  | right _ hrun hc _ => exact hc.depth.trans (depth_of_run_operand hrun)

/-- Calls end: parts are of a lower rank, or less is left of the limit. -/
theorem measure_lt (h : Calls limit x c y c₁) :
    y.rank + (limit - c₁.depth) < x.rank + (limit - c.depth) := by
  have hdepth := h.depth
  cases h with
  | group hlt _ | right hlt _ _ _ =>
    simp only [Construct.isExpression, if_true] at hdepth
    simp only [Construct.rank]
    omega
  | _ =>
    simp only [Construct.isExpression, Bool.false_eq_true, if_false] at hdepth
    simp only [Construct.rank]
    omega

/-- A fault of a call is one of the caller. -/
theorem fault (h : Calls limit x c y c₁) {f : ParseFault} {c' : Cursor}
    (hy : (construct limit y).run c₁ = .error f c') : (construct limit x).run c = .error f c' := by
  cases h with
  | function hc hkind =>
    rw [run_construct_eq_error] at hy ⊢
    rw [program_eq]
    refine run_bind_of_error (hc.fault consumes_programItem ?_ ?_) _
    · simp [programGoesOn, Cursor.atEnd, hkind]
    · rwa [programItem, run_get_bind, if_pos hkind]
  | block hrun =>
    rw [run_construct_eq_error] at hy ⊢
    rw [function_eq_header, run_bind_of_ok hrun]
    exact run_bind_of_error hy _
  | statement hrun hc hmore hend =>
    rw [run_construct_eq_error] at hy ⊢
    rw [block_eq, run_bind_of_ok hrun]
    refine run_bind_of_error (hc.fault (consumes_blockItem _) hmore ?_) _
    rw [blockItem, run_get_bind, hend]
    exact hy
  | returned hkind =>
    rw [run_construct_eq_error] at hy ⊢
    rwa [run_statement_of_return hkind]
  | result hkind =>
    rw [run_construct_eq_error] at hy ⊢
    rw [Parser.returned, run_bind_of_ok (run_expect_of_eq hkind _)]
    exact run_bind_of_error hy _
  | group hlt hkind =>
    rw [run_construct_eq_error] at hy ⊢
    dsimp only
    have hoperand : (operand (expression limit .none)).run c.deeper = .error f c' := by
      rw [operand, run_get_bind]
      dsimp only
      rw [show c.deeper.current.kind = .symbol .leftParen from hkind]
      dsimp only
      rw [run_bind_of_ok (run_advance _)]
      exact run_bind_of_error hy _
    rw [run_expression_of_lt hlt, operators]
    exact run_bind_of_error (run_bind_of_error hoperand _) _
  | @right _ c₀ _ least _ e _ hlt hrun hc hlevel =>
    rw [run_construct_eq_error] at hy ⊢
    dsimp only
    have hclimb : (climb limit (expression limit) least e).run c₀ = .error f c' := by
      rw [hc.run, climb, run_get_bind, hlevel]
      dsimp only
      rw [run_bind_of_ok (run_advance _)]
      exact run_bind_of_error hy _
    rw [run_expression_of_lt hlt, operators]
    refine run_bind_of_error ?_ _
    rwa [run_bind_of_ok hrun]

end Calls

/-! ## Faults without a call -/

/-- In `x` from `c` a fault was found that leaves the cursor `c'`: in a call, or by the reader of
`x` itself at the depth that it has made. -/
def FaultOrigin (limit : Nat) (x : Construct) (c : Cursor) (f : ParseFault) (c' : Cursor) : Prop :=
  (∃ y c₁, Calls limit x c y c₁ ∧ (construct limit y).run c₁ = .error f c') ∨
    c'.depth = c.depth + if x.isExpression then 1 else 0

variable {c c' : Cursor} {f : ParseFault}

theorem program_faultOrigin (h : (program limit).run c = .error f c') :
    FaultOrigin limit .program c f c' := by
  rw [program_eq] at h
  obtain hloop | ⟨_, _, _, hpure⟩ := run_bind_eq_error h
  · obtain ⟨c₁, hc₁, -, hitem⟩ := exists_repeats_of_error consumes_programItem hloop
    rw [programItem, run_get_bind] at hitem
    split at hitem
    · next hkind => exact .inl ⟨_, c₁, .function hc₁ hkind, run_construct_eq_error.mpr hitem⟩
    · cases hitem
      exact .inr (hc₁.depth fun _ _ _ ↦ depth_of_run_programItem)
  · cases hpure

theorem function_faultOrigin (h : (function limit).run c = .error f c') :
    FaultOrigin limit .function c f c' := by
  rw [function_eq_header] at h
  obtain hheader | ⟨a, c₁, hheader, hrest⟩ := run_bind_eq_error h
  · exact .inr ((keepsDepth_header c).of_run_error hheader)
  obtain hblock | ⟨_, _, _, hpure⟩ := run_bind_eq_error hrest
  · exact .inl ⟨_, c₁, .block hheader, run_construct_eq_error.mpr hblock⟩
  · cases hpure

theorem block_faultOrigin (h : (block limit).run c = .error f c') :
    FaultOrigin limit .block c f c' := by
  rw [block_eq] at h
  obtain hbrace | ⟨opening, c₀, hbrace, hrest⟩ := run_bind_eq_error h
  · exact .inr ((KeepsDepth.expect _ _ c).of_run_error hbrace)
  obtain hloop | ⟨_, _, _, hpure⟩ := run_bind_eq_error hrest
  · obtain ⟨c₁, hc₁, hmore, hitem⟩ := exists_repeats_of_error (consumes_blockItem opening) hloop
    rw [blockItem, run_get_bind] at hitem
    split at hitem
    · cases hitem
      exact .inr ((hc₁.depth fun _ _ _ ↦ depth_of_run_blockItem).trans
        ((KeepsDepth.expect _ _ c).of_run_ok hbrace))
    · next hend =>
      exact .inl ⟨_, c₁, .statement hbrace hc₁ hmore (by simpa using hend),
        run_construct_eq_error.mpr hitem⟩
  · cases hpure

theorem statement_faultOrigin (h : (statement limit).run c = .error f c') :
    FaultOrigin limit .statement c f c' := by
  by_cases hreturn : c.kind = .keyword .return
  · rw [run_statement_of_return hreturn] at h
    exact .inl ⟨_, c, .returned hreturn, run_construct_eq_error.mpr h⟩
  · rw [run_statement_of_ne hreturn] at h
    cases h
    exact .inr rfl

theorem returned_faultOrigin (h : (returned limit).run c = .error f c') :
    FaultOrigin limit .returned c f c' := by
  rw [Parser.returned] at h
  by_cases hreturn : c.kind = .keyword .return
  · rw [run_bind_of_ok (run_expect_of_eq hreturn _)] at h
    obtain hresult | ⟨e, c₁, hresult, hrest⟩ := run_bind_eq_error h
    · exact .inl ⟨_, _, .result hreturn, run_construct_eq_error.mpr hresult⟩
    have hdepth : c₁.depth = c.depth := ((expression_leaves _ _).of_run_ok hresult).depth
    obtain hsemicolon | ⟨_, _, _, hpure⟩ := run_bind_eq_error hrest
    · exact .inr (((KeepsDepth.expect _ _ c₁).of_run_error hsemicolon).trans hdepth)
    · cases hpure
  · obtain hword | ⟨_, _, hword, -⟩ := run_bind_eq_error h
    · exact .inr ((KeepsDepth.expect _ _ c).of_run_error hword)
    · rw [run_expect_of_ne hreturn] at hword
      exact absurd hword (by simp)

/-- An operand fails in its parentheses, or with the depth that it began with. -/
theorem group_or_depth_of_error (h : (operand (expression limit .none)).run c = .error f c') :
    c.kind = .symbol .leftParen ∧ (expression limit .none).run c.advance = .error f c' ∨
      c'.depth = c.depth := by
  rw [operand, run_get_bind] at h
  dsimp only at h
  split at h
  · rw [run_bind_of_ok (run_advance c)] at h
    split at h
    · exact absurd h (by simp)
    · cases h
      exact .inr rfl
  · next hkind =>
    rw [run_bind_of_ok (run_advance c)] at h
    obtain hinner | ⟨e, c₁, hinner, hrest⟩ := run_bind_eq_error h
    · exact .inl ⟨hkind, hinner⟩
    have hdepth : c₁.depth = c.depth := ((expression_leaves _ _).of_run_ok hinner).depth
    obtain hclosing | ⟨_, _, _, hpure⟩ := run_bind_eq_error hrest
    · exact .inr (((KeepsDepth.expect _ _ c₁).of_run_error hclosing).trans hdepth)
    · cases hpure
  · cases h
    exact .inr rfl
  · split at h
    · cases h
      exact .inr rfl
    · cases h
      exact .inr rfl

theorem expression_faultOrigin {least : Precedence}
    (h : (expression limit least).run c = .error f c') :
    FaultOrigin limit (.expression least) c f c' := by
  by_cases hlt : c.depth < limit
  · rw [run_expression_of_lt hlt] at h
    obtain h | ⟨_, _, _, hascend⟩ := run_bind_eq_error h
    · obtain hoperand | ⟨e, c₀, hoperand, hclimb⟩ := run_bind_eq_error h
      · obtain ⟨hkind, hinner⟩ | hdepth := group_or_depth_of_error hoperand
        · exact .inl ⟨_, _, .group hlt hkind, run_construct_eq_error.mpr hinner⟩
        · exact .inr hdepth
      · obtain ⟨left, c₁, level, hc₁, hlevel, hright⟩ | hdepth := exists_climbs_of_error hclimb
        · exact .inl ⟨_, _, .right hlt hoperand hc₁ hlevel, run_construct_eq_error.mpr hright⟩
        · exact .inr (hdepth.trans (depth_of_run_operand hoperand))
    · cases hascend
  · rw [run_expression_of_le (Nat.le_of_not_lt hlt)] at h
    cases h
    exact .inr rfl

theorem faultOrigin {x : Construct} (h : (construct limit x).run c = .error f c') :
    FaultOrigin limit x c f c' := by
  have hreader := run_construct_eq_error.mp h
  cases x with
  | program => exact program_faultOrigin hreader
  | function => exact function_faultOrigin hreader
  | block => exact block_faultOrigin hreader
  | statement => exact statement_faultOrigin hreader
  | returned => exact returned_faultOrigin hreader
  | expression => exact expression_faultOrigin hreader

/-! ## Chains of calls -/

/-- The constructs that are open when a fault is found in one, from that one to the one whose own
reader found it. -/
inductive OpenAtFault (limit : Nat) : Construct → Cursor → List Construct → Prop
  /-- The reader itself has found a fault, and all calls before had values. -/
  | own {x : Construct} {c c' : Cursor} {f : ParseFault} :
      (construct limit x).run c = .error f c' →
        (∀ y c₁, Calls limit x c y c₁ → ∃ t c₂, (construct limit y).run c₁ = .ok t c₂) →
          OpenAtFault limit x c [x]
  /-- In a call a fault was found. -/
  | call {x y : Construct} {c c₁ : Cursor} {parts : List Construct} :
      Calls limit x c y c₁ → OpenAtFault limit y c₁ parts → OpenAtFault limit x c (x :: parts)

namespace OpenAtFault

variable {x : Construct} {parts : List Construct}

theorem exists_fault (h : OpenAtFault limit x c parts) :
    ∃ f c', (construct limit x).run c = .error f c' := by
  induction h with
  | own hrun _ => exact ⟨_, _, hrun⟩
  | call hcall _ ih =>
    obtain ⟨f, c', hrun⟩ := ih
    exact ⟨f, c', hcall.fault hrun⟩

/-- Each open expression has been counted, and nothing else has. -/
theorem depth (h : OpenAtFault limit x c parts) (hrun : (construct limit x).run c = .error f c') :
    c'.depth = c.depth + parts.countP Construct.isExpression := by
  induction h with
  | own _ hcalls =>
    obtain ⟨y, c₁, hcall, hy⟩ | hdepth := faultOrigin hrun
    · obtain ⟨t, c₂, ht⟩ := hcalls y c₁ hcall
      exact absurd (hy.symm.trans ht) (by simp)
    · rw [hdepth, List.countP_singleton]
  | call hcall hopen ih =>
    obtain ⟨f₁, c₂, hy⟩ := hopen.exists_fault
    -- the fault of the call is the fault of the caller
    obtain ⟨rfl, rfl⟩ : f₁ = f ∧ c₂ = c' := by simpa using (hcall.fault hy).symm.trans hrun
    rw [ih hy, hcall.depth, List.countP_cons, Nat.add_assoc, Nat.add_comm (ite _ _ _)]

end OpenAtFault

/-- Calls come to an end, so a fault leaves some constructs open. -/
theorem exists_openAtFault {x : Construct} (h : (construct limit x).run c = .error f c') :
    ∃ parts, OpenAtFault limit x c parts := by
  induction hm : x.rank + (limit - c.depth) using Nat.strongRecOn generalizing x c f c' with
  | ind m ih =>
  by_cases hcalls : ∃ y c₁, Calls limit x c y c₁ ∧
      ∃ f₁ c₂, (construct limit y).run c₁ = .error f₁ c₂
  · obtain ⟨y, c₁, hcall, f₁, c₂, hy⟩ := hcalls
    obtain ⟨parts, hparts⟩ := ih _ (hm ▸ hcall.measure_lt) hy rfl
    exact ⟨_, .call hcall hparts⟩
  · refine ⟨_, .own h fun y c₁ hcall ↦ ?_⟩
    cases hrun : (construct limit y).run c₁ with
    | ok t c₂ => exact ⟨t, c₂, rfl⟩
    | error f₁ c₂ => exact absurd ⟨y, c₁, hcall, f₁, c₂, hrun⟩ hcalls

end InfixCompiler
