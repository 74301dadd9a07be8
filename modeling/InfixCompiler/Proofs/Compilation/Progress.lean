import InfixCompiler.Proofs.Compilation.Concatenation
import InfixCompiler.Proofs.Compilation.Stages
import InfixCompiler.Proofs.Compilation.Unlowered
import InfixCompiler.Proofs.Lexing.Failure

/-!
# Logs tell how far a compilation came

The log of a compilation ends where the compilation did. Without tokens it ends with the last token
of the longest beginning of the source that has some; without a program, when the tokens are handed
on; without code, with the last instruction before the operator that has none. The log of a
compilation that succeeds lists the code of the module (`Source.isLog_log`).

Of these, the instructions before a failure need an argument, as the operator may be anywhere in an
expression. Lowering goes through a body in steps, one for each number, operator and `return` in
postfix order, and each step has one instruction or none. So the steps of a body, which are known
without its code, are lowered one after the other as a list (`lowerBody_statements`), and it is a
list of which the first member without an instruction is looked for
(`Step.exists_of_fault?_lower`).
-/

namespace InfixCompiler

open Text

/-! ## The steps of a body -/

/-- What lowering a body does one after the other. -/
inductive Step where
  /-- A number is put on the stack. -/
  | number (x : Binary64)
  /-- An operator is applied. -/
  | operator (o : Token)
  /-- A result is returned. -/
  | ret

namespace Step

/-- The instruction of a step. Only operators of arithmetic have one. -/
def instruction? : Step → Option Instruction
  | number x => some (.constant x)
  | operator o => if o.kind.IsArithmetic then some (.plain (.ofOperator o.kind)) else none
  | ret => some (.plain .ret)

/-- A step as a part of lowering. -/
def emission : Step → Emission
  | number x => .emit (.constant x)
  | operator o => lowerOperator o.kind
  | ret => .emit (.plain .ret)

/-- Steps one after the other, up to the first fault. -/
def lower (steps : List Step) : Emission := .sequence (steps.map emission)

end Step

/-- The steps of an expression: those of the left operand, those of the right one, and the operator
between them. -/
def Expression.steps : Expression → List Step
  | number x => [.number x]
  | binary left operator right => left.steps ++ right.steps ++ [.operator operator]

/-- The steps of a function. -/
def Function.steps (f : Function) : List Step := f.returns.flatMap fun e ↦ e.steps ++ [.ret]

theorem Emission.sequence_append (es es' : List Emission) :
    sequence (es ++ es') = (sequence es).andThen (sequence es') := by
  induction es with
  | nil => rfl
  | cons e es ih => exact (congrArg e.andThen ih).trans (andThen_assoc _ _ _).symm

namespace Step

theorem lower_append (steps steps' : List Step) :
    lower (steps ++ steps') = (lower steps).andThen (lower steps') := by
  rw [lower, List.map_append, Emission.sequence_append, lower, lower]

theorem lower_singleton (step : Step) : lower [step] = step.emission :=
  step.emission.andThen_empty

/-- A step that has an instruction emits it, and one that has none is an operator. -/
theorem emission_cases (step : Step) :
    (∃ i, step.instruction? = some i ∧ step.emission = .emit i) ∨
      ∃ o, step = operator o ∧ ¬ o.kind.IsArithmetic ∧
        step.emission = .fail (.noOpcode o.kind) := by
  cases step with
  | number x => exact .inl ⟨_, rfl, rfl⟩
  | ret => exact .inl ⟨_, rfl, rfl⟩
  | operator o =>
    by_cases ho : o.kind.IsArithmetic
    · exact .inl ⟨_, if_pos ho, lowerOperator_of_isArithmetic ho⟩
    · exact .inr ⟨o, rfl, ho, lowerOperator_of_not_isArithmetic ho⟩

end Step

theorem Expression.lowerOperand_tree (e : Expression) :
    e.tree.lowerOperand = Step.lower e.steps := by
  induction e with
  | number x => rfl
  | binary left operator right ihl ihr =>
    rw [tree, Tree.lowerOperand, Operation.binary, Operation.lower, ihl, ihr, steps,
      Step.lower_append, Step.lower_append, Step.lower_singleton]
    rfl

theorem lowerBody_statements (es : List Expression) :
    lowerBody (statements es) = Step.lower (es.flatMap fun e ↦ e.steps ++ [.ret]) := by
  induction es with
  | nil => rfl
  | cons e es ih =>
    rw [statements_cons, lowerBody_cons, Tree.lowerStatement, Expression.lower_result,
      e.lowerOperand_tree, ih, List.flatMap_cons, Step.lower_append, Step.lower_append,
      Step.lower_singleton]
    rfl

/-- Lowering steps ends before the first one without an instruction. -/
theorem Step.exists_of_fault?_lower {steps : List Step} {fault : LoweringFault}
    (h : (lower steps).fault? = some fault) : ∃ front o back,
      steps = front ++ operator o :: back ∧ front.map instruction? = (lower steps).code.map some ∧
      ¬ o.kind.IsArithmetic ∧ fault = .noOpcode o.kind := by
  induction steps with
  | nil => exact absurd h nofun
  | cons step steps ih =>
    have hcons : lower (step :: steps) = step.emission.andThen (lower steps) := rfl
    rw [hcons] at h ⊢
    rcases step.emission_cases with ⟨i, hi, hemit⟩ | ⟨o, rfl, ho, hfail⟩
    · rw [hemit] at h ⊢
      obtain ⟨front, o, back, rfl, hfront, ho, hfault⟩ := ih h
      refine ⟨step :: front, o, back, rfl, ?_, ho, hfault⟩
      rw [List.map_cons, hi, hfront]
      rfl
    · rw [hfail] at h ⊢
      exact ⟨[], o, steps, rfl, rfl, ho, (Option.some.inj h).symm⟩

/-! ## Functions before a fault -/

section Functions

variable {f : Function} {fs : List Function} {fault : LoweringFault}

theorem assemble_cons_of_fault (h : (Step.lower f.steps).fault? = some fault) :
    assemble ((f :: fs).map Function.tree) =
      ⟨[⟨f.name, (Step.lower f.steps).code⟩], some fault⟩ := by
  rw [List.map_cons, Function.tree, assemble, lowerBody_statements, ← Function.steps, h]

theorem assemble_cons_of_no_fault (h : (Step.lower f.steps).fault? = none) :
    assemble ((f :: fs).map Function.tree) =
      ⟨⟨f.name, (Step.lower f.steps).code⟩ :: (assemble (fs.map Function.tree)).chunks,
        (assemble (fs.map Function.tree)).fault?⟩ := by
  rw [List.map_cons, Function.tree, assemble, lowerBody_statements, ← Function.steps, h]

/-- The chunks of functions up to a fault: those of the functions before, and what was emitted of
the one that has it. -/
theorem exists_of_fault?_assemble (h : (assemble (fs.map Function.tree)).fault? = some fault) :
    ∃ before f after, fs = before ++ f :: after ∧
      (assemble (before.map Function.tree)).fault? = none ∧
      (Step.lower f.steps).fault? = some fault ∧
      (assemble (fs.map Function.tree)).chunks =
        (assemble (before.map Function.tree)).chunks ++ [⟨f.name, (Step.lower f.steps).code⟩] := by
  induction fs with
  | nil => exact absurd h nofun
  | cons f fs ih =>
    cases hf : (Step.lower f.steps).fault? with
    | some fault' =>
      rw [assemble_cons_of_fault hf] at h ⊢
      exact ⟨[], f, fs, rfl, rfl, hf.trans h, rfl⟩
    | none =>
      rw [assemble_cons_of_no_fault hf] at h ⊢
      obtain ⟨before, g, after, rfl, hbefore, hg, hchunks⟩ := ih h
      refine ⟨f :: before, g, after, rfl, ?_, hg, ?_⟩
      · rw [assemble_cons_of_no_fault hf, hbefore]
      · rw [assemble_cons_of_no_fault hf, hchunks]
        rfl

end Functions

/-! ## The lines of a log -/

/-- A line of a log, as its level and its text. -/
def LogEvent.line (e : LogEvent) : LogLevel × String := (e.level, e.text)

/-- The lines about the tokens of a source, up to the last one that was found. -/
def Source.lexingLines (s : Source) (ts : List Token) : List (LogLevel × String) :=
  (.debug, s!"lexing {s.path} ({s.size} bytes)") :: ts.map fun t ↦ (.trace, t.render)

/-- The lines about tokens that are handed on. -/
def parsingLines (tokens : Nat) : List (LogLevel × String) :=
  [(.debug, s!"lexed {tokens} tokens"), (.debug, s!"parsing {tokens} tokens")]

/-- The lines about declarations that are handed on. -/
def generatingLines (declarations : Nat) : List (LogLevel × String) :=
  [(.debug, s!"parsed {declarations} declarations"),
    (.debug, s!"generating bytecode for {declarations} declarations")]

/-- The lines about code of a function. -/
def emittingLines (name : String) (code : List Instruction) : List (LogLevel × String) :=
  code.map fun i ↦ (.trace, s!"{name}: emit {i.render}")

/-- The lines about the code of a module, chunk by chunk. -/
def Module.emittingLines (m : Module) : List (LogLevel × String) :=
  m.chunks.flatMap fun c ↦ InfixCompiler.emittingLines c.name c.code

/-- The source has the tokens `ts`, of which none is an end, before its end. -/
structure Source.HasTokens (s : Source) (ts : List Token) : Prop where
  /-- There are no others. -/
  tokens : s.tokens = .ok (ts ++ [.endAt s.size])
  /-- The end is the last one only. -/
  ne_end : ∀ t ∈ ts, t.kind ≠ .endOfSource

/-- Lowering the program stops with a fault. The functions before one of the name `name` have the
module `m`. Of its steps, those before an operator without an instruction have the instructions
`code`. -/
def Program.StopsBehind (p : Program) (m : Module) (name : String) (code : List Instruction)
    (fault : LoweringFault) : Prop :=
  ∃ before f after, p.functions = before ++ f :: after ∧
    (Program.mk before).tree.lower = .ok m ∧ f.name = name ∧
    ∃ front o back, f.steps = front ++ .operator o :: back ∧
      front.map Step.instruction? = code.map some ∧ ¬ o.kind.IsArithmetic ∧
      fault = .noOpcode o.kind

/-- The lines say how far the compilation of the source came. -/
structure Source.IsLog (s : Source) (lines : List (LogLevel × String)) : Prop where
  /-- Without tokens they end with those of the longest beginning that has some. -/
  unlexed : ∀ failure, s.compile = .error (.lexing failure) →
    ∃ t ts, s.IsLongestLexed t ts ∧ lines = s.lexingLines ts
  /-- Without a program they end when the tokens are handed on. -/
  unparsed : ∀ fault, s.compile = .error (.parsing fault) →
    ∃ ts, s.HasTokens ts ∧ lines = s.lexingLines ts ++ parsingLines (ts.length + 1)
  /-- Without code they end with the last instruction before the fault. -/
  unlowered : ∀ fault, s.compile = .error (.lowering fault) →
    ∃ ts p m name code, s.HasTokens ts ∧ s.program = .ok p ∧ p.StopsBehind m name code fault ∧
      lines = s.lexingLines ts ++ parsingLines (ts.length + 1) ++
        generatingLines p.functions.length ++ m.emittingLines ++ emittingLines name code
  /-- Otherwise the code of the module is all there. -/
  lowered : ∀ m, s.compile = .ok m → ∃ ts p, s.HasTokens ts ∧ s.program = .ok p ∧
    lines = s.lexingLines ts ++ parsingLines (ts.length + 1) ++
      generatingLines p.functions.length ++ m.emittingLines ++
      [(.debug, s!"generated {m.chunks.length} chunks")]

namespace Source

variable {s : Source}

theorem exists_hasTokens {tokens : List Token} (h : s.tokens = .ok tokens) :
    tokens = s.scan.tokens ++ [.endAt s.size] ∧ s.HasTokens s.scan.tokens := by
  obtain ⟨-, rfl⟩ := scan_of_tokens h
  obtain ⟨ts, hts, hlexemes⟩ := isLexeme_of_tokens h
  obtain ⟨rfl, -⟩ := List.append_inj' hts rfl
  refine ⟨rfl, h, fun t ht ↦ ?_⟩
  exact (hlexemes ⟨t, t.text s.chars⟩ (List.mem_map_of_mem ht)).ne_endOfSource

/-! ## Outcomes -/

theorem exists_tokens_of_program {p : Program} (h : s.program = .ok p) :
    ∃ tokens, s.tokens = .ok tokens ∧ Program.ofTokens defaultLimit s tokens = .ok p := by
  rw [program] at h
  cases htokens : s.tokens with
  | error failure =>
    rw [htokens] at h
    exact absurd h (by simp)
  | ok tokens =>
    refine ⟨tokens, rfl, ?_⟩
    cases hp : Program.ofTokens defaultLimit s tokens with
    | error f => simp [htokens, hp, Except.mapError] at h
    | ok q => simpa [htokens, hp, Except.mapError] using h

theorem hasTokens_of_program {p : Program} (h : s.program = .ok p) :
    s.HasTokens s.scan.tokens := by
  obtain ⟨tokens, htokens, -⟩ := exists_tokens_of_program h
  exact (exists_hasTokens htokens).2

/-- The stage that fails has what the stages before it made. -/
theorem cases_of_compile_eq_error {fault : CompileFault} (h : s.compile = .error fault) :
    (∃ failure, fault = .lexing failure ∧ s.tokens = .error failure) ∨
      (∃ f tokens, fault = .parsing f ∧ s.tokens = .ok tokens ∧
        Program.ofTokens defaultLimit s tokens = .error f) ∨
      ∃ f p, fault = .lowering f ∧ s.program = .ok p ∧ p.tree.lower = .error f := by
  rcases compile_eq_error_iff.mp h with hprogram | ⟨p, f, hp, hlower, hfault⟩
  · rcases program_eq_error_iff.mp hprogram with ⟨failure, htokens, hfault⟩ |
      ⟨tokens, f, htokens, hprogram, hfault⟩
    · exact .inl ⟨failure, hfault, htokens⟩
    · exact .inr (.inl ⟨f, tokens, hfault, htokens, hprogram⟩)
  · exact .inr (.inr ⟨f, p, hfault, hp, hlower⟩)

end Source

/-! ## The log of a source -/

theorem Stage.map_line_emissions (chunks : List Chunk) : (emissions chunks).map LogEvent.line =
    chunks.flatMap fun c ↦ emittingLines c.name c.code := by
  have hchunk (c : Chunk) : (c.code.map (LogEvent.emitted c.name)).map LogEvent.line =
      emittingLines c.name c.code := by
    rw [List.map_map]
    rfl
  rw [emissions, List.map_flatMap]
  simp only [hchunk]

namespace Source

variable {s : Source}

theorem map_line_lexing (s : Source) (ts : List Token) :
    (LogEvent.lexing s.path s.size :: ts.map .token).map LogEvent.line = s.lexingLines ts := by
  rw [List.map_cons, List.map_map]
  rfl

theorem map_line_log_of_tokens_error {failure : LexFailure} (h : s.tokens = .error failure) :
    s.log.map LogEvent.line = s.lexingLines s.scan.tokens := by
  rw [log_of_tokens_error h, map_line_lexing]

theorem map_line_log_of_parse_error {tokens : List Token} {fault : ParseFault}
    (h : s.tokens = .ok tokens) (hp : Program.ofTokens defaultLimit s tokens = .error fault) :
    s.log.map LogEvent.line =
      s.lexingLines s.scan.tokens ++ parsingLines (s.scan.tokens.length + 1) := by
  obtain ⟨rfl, -⟩ := exists_hasTokens h
  rw [log_of_parse_error h hp, List.map_append, map_line_lexing, capped_concat_endAt,
    List.length_append]
  rfl

section Lowering

variable {p : Program} (hp : s.program = .ok p)
include hp

theorem map_line_log_of_program : s.log.map LogEvent.line =
    s.lexingLines s.scan.tokens ++ parsingLines (s.scan.tokens.length + 1) ++
      ((LogEvent.parsed p.functions.length).line ::
        (Stage.lower p.tree).log.map LogEvent.line) := by
  obtain ⟨tokens, htokens, hprogram⟩ := exists_tokens_of_program hp
  obtain ⟨rfl, -⟩ := exists_hasTokens htokens
  rw [log_of_program htokens hprogram, List.map_append, List.map_append, map_line_lexing,
    capped_concat_endAt, List.length_append, List.append_assoc, List.append_assoc]
  rfl

theorem map_line_log_of_fault {fault : LoweringFault}
    (h : (assemble (p.functions.map Function.tree)).fault? = some fault) :
    s.log.map LogEvent.line =
      s.lexingLines s.scan.tokens ++ parsingLines (s.scan.tokens.length + 1) ++
        generatingLines p.functions.length ++
        (assemble (p.functions.map Function.tree)).chunks.flatMap
          fun c ↦ emittingLines c.name c.code := by
  rw [map_line_log_of_program hp, Program.tree, Stage.lower_of_fault h, List.length_map,
    List.map_cons, Stage.map_line_emissions, List.append_assoc _ (generatingLines _)]
  rfl

theorem map_line_log_of_no_fault
    (h : (assemble (p.functions.map Function.tree)).fault? = none) :
    s.log.map LogEvent.line =
      s.lexingLines s.scan.tokens ++ parsingLines (s.scan.tokens.length + 1) ++
        generatingLines p.functions.length ++
        ((assemble (p.functions.map Function.tree)).chunks.flatMap
          fun c ↦ emittingLines c.name c.code) ++
        [(.debug, s!"generated {(assemble (p.functions.map Function.tree)).chunks.length} chunks")]
    := by
  rw [map_line_log_of_program hp, Program.tree, Stage.lower_of_no_fault h, List.length_map,
    List.map_append, List.map_cons, Stage.map_line_emissions,
    List.append_assoc _ (generatingLines _), List.append_assoc _ (_ ++ _)]
  rfl

end Lowering

/-- **Logs tell how far a compilation came.** The tokens in a log are those of the longest beginning
of the source that has some, and all of them if the source has tokens. The instructions in it are
those of the module, and those before the first operator that has none if there is no module. The
lines of each stage are there if it was begun, and its last line if it came to its end. -/
theorem isLog_log (s : Source) : s.IsLog (s.log.map LogEvent.line) where
  unlexed failure h := by
    obtain ⟨_, ⟨⟩, htokens⟩ | ⟨_, _, ⟨⟩, _⟩ | ⟨_, _, ⟨⟩, _⟩ := cases_of_compile_eq_error h
    obtain ⟨t, -, ht, -⟩ := exists_isLongestLexed htokens
    exact ⟨t, _, ht, map_line_log_of_tokens_error htokens⟩
  unparsed fault h := by
    obtain ⟨_, ⟨⟩, _⟩ | ⟨_, tokens, -, htokens, hprogram⟩ | ⟨_, _, ⟨⟩, _⟩ :=
      cases_of_compile_eq_error h
    exact ⟨_, (exists_hasTokens htokens).2, map_line_log_of_parse_error htokens hprogram⟩
  unlowered fault h := by
    obtain ⟨_, ⟨⟩, _⟩ | ⟨_, _, ⟨⟩, _⟩ | ⟨_, p, ⟨⟩, hp, hlower⟩ := cases_of_compile_eq_error h
    have hfault := Program.lower_tree_eq_error_iff.mp hlower
    obtain ⟨before, f, after, hfunctions, hbefore, hf, hchunks⟩ := exists_of_fault?_assemble hfault
    obtain ⟨front, o, back, hsteps, hcode, ho, hnone⟩ := Step.exists_of_fault?_lower hf
    have hstops : p.StopsBehind ⟨"main", (assemble (before.map Function.tree)).chunks⟩ f.name
        (Step.lower f.steps).code fault :=
      ⟨before, f, after, hfunctions, Program.lower_tree_eq_ok_iff.mpr ⟨hbefore, rfl⟩, rfl,
        front, o, back, hsteps, hcode, ho, hnone⟩
    refine ⟨_, p, _, _, _, hasTokens_of_program hp, hp, hstops, ?_⟩
    rw [map_line_log_of_fault hp hfault, hchunks, List.flatMap_append, List.flatMap_singleton,
      ← List.append_assoc]
    rfl
  lowered m h := by
    obtain ⟨p, hp, hm⟩ := compile_eq_ok_iff.mp h
    obtain ⟨hfault, rfl⟩ := Program.lower_tree_eq_ok_iff.mp hm
    exact ⟨_, p, hasTokens_of_program hp, hp, map_line_log_of_no_fault hp hfault⟩

/-- The operator `=` has no code, and its right operand is before it. -/
example : ((ofString "func f() \x7b return 1 * (2 = 3); \x7d").log.drop 16).map LogEvent.text =
    ["lexed 16 tokens", "parsing 16 tokens", "parsed 1 declarations",
      "generating bytecode for 1 declarations", "f: emit STORE_CONST 1", "f: emit STORE_CONST 2",
      "f: emit STORE_CONST 3"] := by
  decide +kernel

end Source

end InfixCompiler
