import InfixCompiler.Proofs.Grammar.Unambiguity
import InfixCompiler.Proofs.Reading.Acceptance
import InfixCompiler.Proofs.Session

/-!
# The depth over a session

The limit is a budget that a session can use up. What succeeds gives back all that it took, what
fails keeps what its open expressions have taken, and nothing ever gives that back. With a depth of
`c.depth` an expression can be read if its nesting fits in what is left and its height in the whole
limit; with nothing left, none can.

One command is looked at first (`Command.depth_value`, `Command.depth_fault`). Whole sessions follow
by induction, and the theorem is about the cursor after any commands.
-/

namespace InfixCompiler

open Grammar InfixCompiler.Parser

/-! ## The nesting of trees -/

mutual

/-- The number of operations on the longest way down. -/
def Tree.nesting : Tree → Nat
  | .root declarations => Tree.nestingList declarations
  | .function _ _ body => Tree.nestingList body
  | .block statements => Tree.nestingList statements
  | .ret result => result.nesting
  | .operation operation => operation.nesting
  | .value _ => 0

/-- The number of operations on the longest way down, the topmost one with them. -/
def Operation.nesting : Operation → Nat
  | ⟨_, left, some right⟩ => max left.nesting right.nesting + 1
  | ⟨_, left, none⟩ => left.nesting + 1

/-- The greatest number of operations on a way down in one of the trees. -/
def Tree.nestingList : List Tree → Nat
  | [] => 0
  | t :: ts => max t.nesting (Tree.nestingList ts)

end

theorem Tree.nestingList_le_iff {ts : List Tree} {n : Nat} :
    Tree.nestingList ts ≤ n ↔ ∀ t ∈ ts, t.nesting ≤ n := by
  induction ts with
  | nil => simp [Tree.nestingList]
  | cons t ts ih => rw [Tree.nestingList, Nat.max_le, ih, List.forall_mem_cons]

theorem Expression.nesting_tree (e : Expression) : e.tree.nesting = e.height := by
  induction e with
  | number x => rfl
  | binary left operator right ihl ihr =>
    rw [tree, Tree.nesting, Operation.binary, Operation.nesting, ihl, ihr, height]

/-- A number is wrapped, which makes it one operation. -/
theorem Expression.nesting_result (e : Expression) : e.result.nesting = max 1 e.height := by
  cases e with
  | number x => rfl
  | binary left operator right =>
    rw [result, Operation.binary, Operation.nesting, nesting_tree, nesting_tree, height]
    omega

theorem nestingList_statements_le_iff {returns : List Expression} {n : Nat} :
    Tree.nestingList (statements returns) ≤ n ↔ ∀ e ∈ returns, max 1 e.height ≤ n := by
  rw [Tree.nestingList_le_iff, statements, List.forall_mem_map]
  simp only [Tree.nesting, Expression.nesting_result]

variable {limit : Nat}

/-- What is read at all is not nested more than the limit allows. -/
theorem height_le_of_statementWithin {room : Nat} {r : Statement} (h : StatementWithin limit room r)
    (hroom : room ≤ limit) : max 1 r.result.expression.height ≤ limit := by
  have hpos := r.result.nesting_pos
  have hnesting := h.1
  rw [Phrase.height_expression]
  exact Nat.max_le.mpr ⟨by omega, h.2⟩

theorem nesting_body_le {room : Nat} {body : List Statement}
    (h : ∀ r ∈ body, StatementWithin limit room r) (hroom : room ≤ limit) :
    Tree.nestingList (statements (body.map fun r ↦ r.result.expression)) ≤ limit := by
  rw [nestingList_statements_le_iff, List.forall_mem_map]
  exact fun r hr ↦ height_le_of_statementWithin (h r hr) hroom

/-! ## Values -/

/-- A tree that was read at the depth of before, with no more operations below each other than the
limit allows. -/
structure Yields (limit : Nat) (c : Cursor) (t : Tree) (c' : Cursor) : Prop where
  /-- The depth is as it was. -/
  depth : c'.depth = c.depth
  /-- The tree is not nested too deeply. -/
  nesting : t.nesting ≤ limit

theorem yields_of_run_expression {least : Precedence} {c c' : Cursor} {e : Expression}
    (h : (expression limit least).run c = .ok e c') :
    Yields limit c (.operation e.result) c' := by
  have hleaves := (expression_leaves least c).of_run_ok h
  have hlt : c.depth < limit := by
    by_contra hle
    rw [run_expression_of_le (Nat.le_of_not_lt hle)] at h
    cases h
  have hheight := hleaves.height
  refine ⟨hleaves.depth, ?_⟩
  rw [Tree.nesting, Expression.nesting_result]
  omega

theorem yields_of_takes {c c' : Cursor} {e : Expression}
    (h : Takes Statement.lexemes (fun r ↦ r.result.expression)
      (StatementWithin limit (limit - c.depth)) c e c') : Yields limit c (.ret e.result) c' := by
  obtain ⟨r, rest, hr, -, rfl, rfl⟩ := h
  refine ⟨rfl, ?_⟩
  rw [Tree.nesting, Expression.nesting_result]
  exact height_le_of_statementWithin hr (Nat.sub_le ..)

theorem yields_of_run_construct {x : Construct} {c c' : Cursor} {t : Tree}
    (h : (construct limit x).run c = .ok t c') : Yields limit c t c' := by
  cases x with
  | program =>
    obtain ⟨p, hrun, rfl⟩ := run_map_eq_ok.mp h
    obtain ⟨⟨ds, rest, hds, -, rfl, rfl⟩, -⟩ := (program_ensures c).of_run_ok hrun
    refine ⟨rfl, ?_⟩
    rw [Program.tree, Tree.nesting, Tree.nestingList_le_iff, List.forall_mem_map,
      List.forall_mem_map]
    intro d hd
    rw [Function.tree, Tree.nesting]
    exact nesting_body_le (hds d hd) (Nat.sub_le ..)
  | function =>
    obtain ⟨g, hrun, rfl⟩ := run_map_eq_ok.mp h
    obtain ⟨d, rest, hd, -, rfl, rfl⟩ := (function_ensures c).of_run_ok hrun
    refine ⟨rfl, ?_⟩
    rw [Function.tree, Tree.nesting]
    exact nesting_body_le hd (Nat.sub_le ..)
  | block =>
    obtain ⟨es, hrun, rfl⟩ := run_map_eq_ok.mp h
    obtain ⟨_, body, _, rest, hbody, -, rfl, rfl⟩ := (block_ensures c).of_run_ok hrun
    refine ⟨rfl, ?_⟩
    rw [Tree.nesting]
    exact nesting_body_le hbody (Nat.sub_le ..)
  | statement =>
    obtain ⟨e, hrun, rfl⟩ := run_map_eq_ok.mp h
    exact yields_of_takes ((statement_ensures c).of_run_ok hrun)
  | returned =>
    obtain ⟨e, hrun, rfl⟩ := run_map_eq_ok.mp h
    exact yields_of_takes ((returned_ensures c).of_run_ok hrun)
  | expression least =>
    obtain ⟨e, hrun, rfl⟩ := run_map_eq_ok.mp h
    exact yields_of_run_expression hrun

/-! ## Single commands -/

namespace Command

variable {c c' : Cursor}

/-- The constructs that are open when a command fails. -/
inductive OpenAtFault (limit : Nat) (c : Cursor) : Command → List Construct → Prop
  /-- Those that are open when the reading of one fails. -/
  | read {x : Construct} {parts : List Construct} : InfixCompiler.OpenAtFault limit x c parts →
      OpenAtFault limit c (.read x) parts
  /-- None when a token was expected that is not there. -/
  | expect {kind : Kind} {context : String} : c.kind ≠ kind →
      OpenAtFault limit c (.expect kind context) []

/-- What succeeds leaves the depth as it was. -/
theorem depth_value {command : Command} {answer : Answer}
    (h : command.perform limit c = (answer, c')) (hvalue : ∀ f, answer ≠ .fault f) :
    c'.depth = c.depth := by
  cases command with
  | current | check | checkNext | atEnd =>
    obtain ⟨-, rfl⟩ := Prod.mk.inj h
    rfl
  | advance =>
    obtain ⟨-, rfl⟩ := Prod.mk.inj h
    rfl
  | expect kind context =>
    by_cases hkind : c.kind = kind
    · rw [perform_expect_of_eq hkind] at h
      obtain ⟨-, rfl⟩ := Prod.mk.inj h
      rfl
    · rw [perform_expect_of_ne hkind] at h
      obtain ⟨rfl, -⟩ := Prod.mk.inj h
      exact absurd rfl (hvalue _)
  | read x =>
    obtain ⟨t, c₁, hrun, hperform⟩ | ⟨f, c₁, -, hperform⟩ := perform_read limit x c
    · obtain ⟨-, rfl⟩ := Prod.mk.inj (hperform.symm.trans h)
      exact (yields_of_run_construct hrun).depth
    · obtain ⟨rfl, -⟩ := Prod.mk.inj (hperform.symm.trans h)
      exact absurd rfl (hvalue _)

/-- What fails leaves some constructs open, and each expression among them is one level of depth. -/
theorem depth_fault {command : Command} {f : ParseFault}
    (h : command.perform limit c = (.fault f, c')) :
    (∃ parts, command.OpenAtFault limit c parts) ∧
      ∀ parts, command.OpenAtFault limit c parts →
        c'.depth = c.depth + parts.countP Construct.isExpression := by
  cases command with
  | current | check | checkNext | atEnd | advance => cases h
  | expect kind context =>
    by_cases hkind : c.kind = kind
    · rw [perform_expect_of_eq hkind] at h
      cases h
    · rw [perform_expect_of_ne hkind] at h
      obtain ⟨-, rfl⟩ := Prod.mk.inj h
      refine ⟨⟨_, .expect hkind⟩, ?_⟩
      rintro _ ⟨_⟩
      rfl
  | read x =>
    have hrun := perform_read_eq_fault.mp h
    obtain ⟨parts, hparts⟩ := exists_openAtFault hrun
    refine ⟨⟨parts, .read hparts⟩, ?_⟩
    rintro _ ⟨hopen⟩
    exact hopen.depth hrun

theorem depth_le (command : Command) (c : Cursor) :
    c.depth ≤ (command.perform limit c).2.depth := by
  cases h : command.perform limit c with
  | mk answer c' =>
    cases answer with
    | fault f =>
      obtain ⟨⟨parts, hparts⟩, hdepth⟩ := depth_fault h
      rw [hdepth parts hparts]
      exact Nat.le_add_right ..
    | _ => exact (depth_value h (by simp)).ge

end Command

/-! ## Sessions -/

namespace Cursor

theorem depth_le_after (c : Cursor) (commands : List Command) :
    c.depth ≤ (c.after limit commands).depth := by
  induction commands generalizing c with
  | nil => exact le_rfl
  | cons command commands ih =>
    rw [after_cons]
    exact (command.depth_le c).trans (ih _)

/-- What the depth of a cursor allows and what commands make of it. -/
structure DepthBudget (limit : Nat) (c : Cursor) : Prop where
  /-- What succeeds leaves the depth as it was. -/
  value : ∀ (command : Command) (answer : Answer) (c' : Cursor),
    command.perform limit c = (answer, c') → (∀ f, answer ≠ .fault f) → c'.depth = c.depth
  /-- What fails leaves it higher by the number of expressions that are open then. -/
  fault : ∀ (command : Command) (f : ParseFault) (c' : Cursor),
    command.perform limit c = (.fault f, c') →
      (∃ parts, command.OpenAtFault limit c parts) ∧
        ∀ parts, command.OpenAtFault limit c parts →
          c'.depth = c.depth + parts.countP Construct.isExpression
  /-- It never becomes lower. -/
  later : ∀ commands : List Command, c.depth ≤ (c.after limit commands).depth
  /-- A phrase with its end behind it is read if and only if its nesting is within what is left of
  the limit, and its height within the limit. -/
  phrase : ∀ (d : Phrase) (l : Lexeme) (rest : List Lexeme), d.AtLevel 0 →
    (∀ l ∈ d.lexemes, Readable l) → c.ahead = d.lexemes ++ l :: rest →
      l.kind = .symbol .semicolon ∨ l.kind = .symbol .rightParen →
        ((∃ t c', (Command.read (.expression .none)).perform limit c = (.tree t, c')) ↔
          c.depth + d.nesting ≤ limit ∧ d.height ≤ limit)
  /-- At the limit no expression is read any more, whatever is done before. The cursor stays where
  it is, and each attempt is counted. -/
  exhausted : limit ≤ c.depth → ∀ (commands : List Command) (least : Precedence),
    (Command.read (.expression least)).perform limit (c.after limit commands)
      = (.fault (.tooDeep limit (c.after limit commands).current.token),
          (c.after limit commands).deeper)
  /-- No tree has more operations below each other than the limit allows. -/
  tree : ∀ (command : Command) (t : Tree) (c' : Cursor),
    command.perform limit c = (.tree t, c') → t.nesting ≤ limit

/-- A phrase that is ahead is read if and only if it is within the bounds. It is the only phrase
that can be read there. -/
theorem reads_phrase_iff {c : Cursor} {d : Phrase} {rest : List Lexeme} (hd : d.AtLevel 0)
    (hread : ∀ l ∈ d.lexemes, Readable l) (hahead : c.ahead = d.lexemes ++ rest)
    (hrest : Stops 0 rest) :
    (∃ e c', (expression limit .none).run c = .ok e c') ↔
      c.depth + d.nesting ≤ limit ∧ d.height ≤ limit := by
  have hpos := d.nesting_pos
  constructor
  · rintro ⟨e, c', hrun⟩
    obtain ⟨⟨d', rest', ⟨hd', hnesting, hheight⟩, hahead', rfl, rfl⟩, hfollows⟩ :=
      (expression_ensures (by simp [Precedence.level]) c).of_run_ok hrun
    have hstops : Stops 0 rest' := by
      cases rest' with
      | nil => exact absurd (kind_of_ahead_eq_nil rfl) hfollows.ne_endOfSource
      | cons l ls => exact hfollows
    obtain ⟨rfl, rfl⟩ :=
      Phrase.append_inj hd hd' hrest hstops (hahead.symm.trans hahead')
    exact ⟨by omega, hheight⟩
  · rintro ⟨hnesting, hheight⟩
    have hwithin : PhraseWithin limit (limit - c.depth) (Precedence.none.level - 1) d :=
      ⟨hd, by omega, hheight⟩
    have hc : c = c.seek (d.lexemes ++ rest) := by
      rw [← hahead]
      rfl
    rw [hc]
    exact ⟨_, _, run_expression c hwithin hread hrest⟩

/-- **The depth is a budget.** This holds for all tokens, lexed or not, for all limits and after all
commands. -/
theorem depthBudget_after (source : Source) (tokens : List Token) (limit : Nat)
    (commands : List Command) :
    DepthBudget limit ((Cursor.ofTokens source tokens).after limit commands) := by
  generalize (Cursor.ofTokens source tokens).after limit commands = c
  refine ⟨fun _ _ _ ↦ Command.depth_value, fun _ _ _ ↦ Command.depth_fault, c.depth_le_after,
    fun d l rest hd hread hahead hl ↦ ?_, fun hlimit commands least ↦ ?_, fun command t c' h ↦ ?_⟩
  · have hstops : Stops 0 (l :: rest) := hl.imp id .inl
    rw [← reads_phrase_iff hd hread hahead hstops]
    simp only [Command.perform_read_eq_tree, construct, run_map_eq_ok]
    exact ⟨fun ⟨_, c', e, hrun, _⟩ ↦ ⟨e, c', hrun⟩, fun ⟨e, c', hrun⟩ ↦ ⟨_, c', e, hrun, rfl⟩⟩
  · rw [Command.perform_read_eq_fault, run_construct_eq_error]
    exact run_expression_of_le (hlimit.trans (c.depth_le_after commands))
  · cases command with
    | read x => exact (yields_of_run_construct (Command.perform_read_eq_tree.mp h)).nesting
    | expect kind context =>
      by_cases hkind : c.kind = kind
      · rw [Command.perform_expect_of_eq hkind] at h
        cases h
      · rw [Command.perform_expect_of_ne hkind] at h
        cases h
    | _ => cases h

/-- Behind two parentheses and a number there is an end where three expressions are open. -/
example : ((Cursor.ofTokens (.ofString "((7")
    [⟨.symbol .leftParen, 0, 1⟩, ⟨.symbol .leftParen, 1, 1⟩, ⟨.number, 2, 1⟩]).after 3
      [.read (.expression .none)]).depth = 3 := by
  decide +kernel

end Cursor

end InfixCompiler
