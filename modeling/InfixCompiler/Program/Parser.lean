import InfixCompiler.Binary64.Reader
import InfixCompiler.Diagnostic
import InfixCompiler.Precedence
import InfixCompiler.Program

/-!
# Reading tokens as a program

Declarations and statements are read by recursive descent, expressions by precedence climbing: an
operand, then operators with their right operands for as long as they bind at least as tightly as
was asked. The first failure ends the reading.

## The cursor

What is left to read is a list of lexemes and the end behind it. The end is not in the list, so it
can be looked at for ever and never be passed, and a cursor that is not at the end has a lexeme to
take. A reader of single parts may go on after a failure: the cursor stays where the failure was
found, and so does its depth.

## The depth

Each expression that is being read raises the depth by one and lowers it again when it is read to
its end; a failure leaves it as it is. The depth, and the height of every expression that is built,
stay within a limit. This is also why reading ends: an expression at depth `d` recurses on the
`limit - d` that is left, and the climb on what the height of its left operand leaves.

## What a failure knows

A failure holds tokens and no text. Only `ParseFault.diagnostic` looks at the source.
-/

namespace InfixCompiler

/-! ## Failures -/

/-- What could have been read where something else was found. -/
inductive Expectation where
  /-- A token of one kind, in a place that `context` names. -/
  | token (kind : Kind) (context : String)
  /-- A function, and nothing else, outside of functions. -/
  | declaration
  /-- Anything but a function inside of one. -/
  | noFunction
  /-- A statement. -/
  | statement
  /-- A number or a parenthesis. -/
  | operand
  /-- A number or a parenthesis, before the end. -/
  | operandBeforeEnd
  /-- An operand without an operator before it. -/
  | bareOperand
  /-- An operator or a semicolon. -/
  | operator
  /-- A semicolon before the end. -/
  | semicolonBeforeEnd
  /-- Anything but a call or a member. -/
  | noCall
deriving DecidableEq

/-- The expectation in words. -/
def Expectation.text : Expectation → String
  | token kind context => s!"Expected {kind.describe} {context}"
  | declaration => "Only function declarations are allowed at the top level"
  | noFunction => "Functions can only be declared at the top level"
  | statement => "Unhandled statement"
  | operand => "Expected an expression"
  | operandBeforeEnd => "Unexpected end of source, expected an expression"
  | bareOperand => "Prefix operators are not supported yet; expected a number"
  | operator => "Expected an operator or `;`"
  | semicolonBeforeEnd => "Unexpected end of source while parsing an expression, expected `;`"
  | noCall => "Calls and member access are not supported yet"

/-- Why tokens are no program. -/
inductive ParseFault where
  /-- A token that can not stand where it is. -/
  | unexpected (expectation : Expectation) (found : Token)
  /-- A block that is open at the end, with the token that opened it. -/
  | unclosedBlock (opening : Token)
  /-- An expression deeper than the limit, with the token at which it became so. -/
  | tooDeep (limit : Nat) (token : Token)
  /-- A number whose text spells none. -/
  | badNumber (token : Token)
deriving DecidableEq

namespace ParseFault

/-- The fault in words. -/
def reason : ParseFault → String
  | unexpected expectation found => s!"{expectation.text}, found {found.kind.describe}"
  | unclosedBlock _ => "Unexpected end of source inside a block, expected `\x7d`"
  | tooDeep limit _ => s!"Expression nests deeper than the limit of {limit}"
  | badNumber _ => "Number literal is not a valid number"

/-- Where the fault is. An open block reaches from its brace to the end. -/
def notes (source : Source) : ParseFault → List Note
  | unexpected _ token | tooDeep _ token | badNumber token => [⟨token.place source, none⟩]
  | unclosedBlock opening =>
    [⟨(opening.place source).combine (Span.point source source.size), none⟩,
      ⟨opening.place source, some "block opened here"⟩]

/-- The fault as a reader is told of it. -/
def diagnostic (source : Source) (f : ParseFault) : Diagnostic where
  kind := .parsing
  reason := f.reason
  notes := f.notes source

end ParseFault

/-! ## Cursors -/

/-- A place among lexemes. -/
structure Cursor where
  /-- The lexemes from the current one up to the end. -/
  ahead : List Lexeme
  /-- The first byte of the token at the end. -/
  endStart : Nat
  /-- The number of bytes of the token at the end. -/
  endLength : Nat
  /-- The number of expressions that are being read. -/
  depth : Nat
deriving DecidableEq

namespace Cursor

/-- The cursor at the first of the tokens. If the last one is not the end, the end of the source is
put after it. -/
def ofTokens (source : Source) (tokens : List Token) : Cursor :=
  let past : Token := .endAt source.size
  match tokens.getLast? with
  | none => ⟨[], past.start, past.length, 0⟩
  | some last =>
    if last.kind = .endOfSource then
      ⟨source.lexemes tokens.dropLast, last.start, last.length, 0⟩
    else ⟨source.lexemes tokens, past.start, past.length, 0⟩

variable (c : Cursor)

/-- The token at the end. -/
def last : Lexeme := ⟨⟨.endOfSource, c.endStart, c.endLength⟩, ""⟩

/-- The lexemes ahead and the end behind them. -/
def lexemes : List Lexeme := c.ahead ++ [c.last]

/-- The tokens ahead and the end behind them. -/
def tokens : List Token := c.lexemes.map Lexeme.token

/-- The lexeme to be read next. -/
def current : Lexeme := c.ahead.headD c.last

/-- The kind of the lexeme to be read next. -/
def kind : Kind := c.current.kind

/-- The kind of the lexeme after the current one, if there is one. -/
def nextKind? : Option Kind :=
  match c.ahead with
  | [] => none
  | [_] => some .endOfSource
  | _ :: next :: _ => some next.kind

/-- Whether the current lexeme is an end. Among made-up tokens it need not be the last one. -/
def atEnd : Bool := c.kind = .endOfSource

/-- The cursor one lexeme on. -/
def advance : Cursor := { c with ahead := c.ahead.tail }

end Cursor

/-! ## Readers -/

/-- A reader of a part of a program. -/
abbrev Parser (α : Type) := EStateM ParseFault Cursor α

namespace Parser

/-- Takes the current lexeme. -/
def advance : Parser Lexeme := do
  let c ← get
  set c.advance
  return c.current

/-- Fails at the current lexeme. -/
def unexpected {α : Type} (expectation : Expectation) : Parser α := do
  throw (.unexpected expectation (← get).current.token)

/-- Takes the current lexeme if it is of kind `kind`. -/
def expect (kind : Kind) (context : String) : Parser Lexeme := do
  if (← get).kind = kind then advance else unexpected (.token kind context)

/-- Reads items while `more` holds, at most `bound` of them. -/
def collect {α : Type} (more : Cursor → Bool) (item : Parser α) : (bound : Nat) → Parser (List α)
  | 0 => return []
  | bound + 1 => do
    if more (← get) then
      let first ← item
      let others ← collect more item bound
      return first :: others
    else return []

/-- Reads items while `more` holds. Each takes a lexeme, so there are no more of them than lexemes
ahead, with one that fails. -/
def collectAll {α : Type} (more : Cursor → Bool) (item : Parser α) : Parser (List α) := do
  collect more item ((← get).ahead.length + 1)

/-! ### Expressions -/

/-- What the lexeme after an operand means for the expression that the operand is in. -/
inductive Continuation where
  /-- The expression ends before it. -/
  | stop
  /-- It is an operator of this level. -/
  | operator (level : Precedence)
  /-- It can not stand there. -/
  | fault (expectation : Expectation)
deriving DecidableEq

/-- The meaning of a kind after an operand, when operators looser than `least` are left alone. -/
def continuation (least : Precedence) (kind : Kind) : Continuation :=
  if kind = .symbol .semicolon ∨ kind = .symbol .rightParen then .stop
  else if kind = .endOfSource then .fault .semicolonBeforeEnd
  else
    let level := Precedence.betweenOperands kind
    if level = .none then .fault .operator
    else if level.level < least.level then .stop
    else if level = .call then .fault .noCall
    else .operator level

/-- A number, or an expression in parentheses. -/
def operand (inner : Parser Expression) : Parser Expression := do
  let here := (← get).current
  match here.kind with
  | .number =>
    let _ ← advance
    match Binary64.read? here.text.toList with
    | some x => return .number x
    | none => throw (.badNumber here.token)
  | .symbol .leftParen =>
    let _ ← advance
    let e ← inner
    let _ ← expect (.symbol .rightParen) "to close the parenthesized expression"
    return e
  | .endOfSource => unexpected .operandBeforeEnd
  | kind =>
    if Precedence.beforeOperand kind = .none then unexpected .operand else unexpected .bareOperand

/-- The operators after `left` that bind at least as tightly as `least`, each with its right
operand. -/
def climb (limit : Nat) (right : Precedence → Parser Expression) (least : Precedence)
    (left : Expression) : Parser Expression := do
  match continuation least (← get).kind with
  | .stop => return left
  | .fault expectation => unexpected expectation
  | .operator level =>
    let operator ← advance
    let e ← right level.tighter
    if _h : max left.height e.height + 1 ≤ limit then
      climb limit right least (.binary left operator.token e)
    else throw (.tooDeep limit operator.token)
termination_by limit - left.height
decreasing_by
  simp only [Expression.height]
  omega

/-- Counts one more expression that is being read. -/
def descend : Parser Unit := modify fun c ↦ { c with depth := c.depth + 1 }

/-- Counts one less. -/
def ascend : Parser Unit := modify fun c ↦ { c with depth := c.depth - 1 }

/-- An expression of operators that bind at least as tightly as `least`, when `room` more
expressions may be open at once. -/
def expressionWithin (limit : Nat) : (room : Nat) → (least : Precedence) → Parser Expression
  | 0, _ => do
    descend
    throw (.tooDeep limit (← get).current.token)
  | room + 1, least => do
    descend
    let left ← operand (expressionWithin limit room .none)
    let e ← climb limit (expressionWithin limit room) least left
    ascend
    return e

/-- An expression of operators that bind at least as tightly as `least`. -/
def expression (limit : Nat) (least : Precedence) : Parser Expression := do
  expressionWithin limit (limit - (← get).depth) least

/-! ### Statements and declarations -/

/-- The word `return` and an expression. -/
def returned (limit : Nat) : Parser Expression := do
  let _ ← expect (.keyword .return) "to start a return statement"
  let e ← expression limit .none
  let _ ← expect (.symbol .semicolon) "after the returned expression"
  return e

/-- A statement, of which returns are the only ones so far. -/
def statement (limit : Nat) : Parser Expression := do
  let c ← get
  if c.kind = .keyword .return then returned limit
  else if c.kind = .keyword .func ∧ c.nextKind? = some .identifier then unexpected .noFunction
  else unexpected .statement

/-- Statements between braces. -/
def block (limit : Nat) : Parser (List Expression) := do
  let opening ← expect (.symbol .leftBrace) "to open a block"
  let returns ← collectAll (·.kind != .symbol .rightBrace) do
    if (← get).atEnd then throw (.unclosedBlock opening.token) else statement limit
  let _ ← advance
  return returns

/-- The name of a parameter, and a comma unless the list ends there. -/
def parameter : Parser String := do
  let name ← expect .identifier "in function parameters"
  if (← get).kind = .symbol .rightParen then return name.text
  else
    let _ ← expect (.symbol .comma) "between function parameters"
    return name.text

/-- A function. -/
def function (limit : Nat) : Parser Function := do
  let _ ← expect (.keyword .func) "to start a function declaration"
  let name ← expect .identifier "as the function's name"
  let _ ← expect (.symbol .leftParen) "to open the parameter list"
  let params ← collectAll (·.kind != .symbol .rightParen) parameter
  let _ ← advance
  let returns ← block limit
  return ⟨name.text, params, returns⟩

/-- Functions up to the end. -/
def program (limit : Nat) : Parser Program := do
  let functions ← collectAll (!·.atEnd) do
    if (← get).kind = .keyword .func then function limit else unexpected .declaration
  return ⟨functions⟩

end Parser

/-- The limit on the depth of expressions, unless another one is asked for. -/
def defaultLimit : Nat := 256

/-- The program that tokens spell. -/
def Program.ofTokens (limit : Nat) (source : Source) (tokens : List Token) :
    Except ParseFault Program :=
  match (Parser.program limit).run (Cursor.ofTokens source tokens) with
  | .ok p _ => .ok p
  | .error fault _ => .error fault

end InfixCompiler
