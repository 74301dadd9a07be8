import InfixCompiler.Program.Parser

/-!
# Sessions

A parser can be used by hand: its cursor is looked at and moved, and single constructs are read from
where it is. It goes on after a failure, with the cursor where the failure was found and the depth
as it was there. So what a command does depends on all commands before it, by way of the cursor.
-/

namespace InfixCompiler

/-- What can be read by itself. -/
inductive Construct where
  /-- A whole program. -/
  | program
  /-- A function. -/
  | function
  /-- Statements between braces. -/
  | block
  /-- A statement of any kind. -/
  | statement
  /-- A return. -/
  | returned
  /-- An expression of operators that bind at least as tightly as `least`. -/
  | expression (least : Precedence)
deriving DecidableEq

/-- The reader of a construct, which yields it as a tree. -/
def Parser.construct (limit : Nat) : Construct → Parser Tree
  | .program => Program.tree <$> program limit
  | .function => Function.tree <$> function limit
  | .block => (fun returns ↦ .block (statements returns)) <$> block limit
  | .statement => (fun e ↦ .ret e.result) <$> statement limit
  | .returned => (fun e ↦ .ret e.result) <$> returned limit
  | .expression least => (fun e ↦ .operation e.result) <$> expression limit least

/-- What a parser can be asked to do. -/
inductive Command where
  /-- Show the current token. -/
  | current
  /-- Take the current token. -/
  | advance
  /-- Compare the kind of the current token. -/
  | check (kind : Kind)
  /-- Compare the kind of the token after the current one. -/
  | checkNext (kind : Kind)
  /-- Tell whether the current token is an end. -/
  | atEnd
  /-- Take the current token if it is of a kind. -/
  | expect (kind : Kind) (context : String)
  /-- Read a construct. -/
  | read (construct : Construct)
deriving DecidableEq

/-- What a parser answers to a command. -/
inductive Answer where
  /-- A token. -/
  | token (t : Token)
  /-- Yes or no. -/
  | truth (b : Bool)
  /-- What was read. -/
  | tree (t : Tree)
  /-- Why there is nothing of that. -/
  | fault (f : ParseFault)

/-- The answer of a reader, and its cursor. -/
def Answer.ofResult {α : Type} (answer : α → Answer) :
    EStateM.Result ParseFault Cursor α → Answer × Cursor
  | .ok a c => (answer a, c)
  | .error f c => (fault f, c)

/-- The answer to a command, and the cursor after it. -/
def Command.perform (limit : Nat) (c : Cursor) : Command → Answer × Cursor
  | current => (.token c.current.token, c)
  | advance => Answer.ofResult (fun l ↦ .token l.token) (Parser.advance.run c)
  | check kind => (.truth (c.kind = kind), c)
  | checkNext kind => (.truth (c.nextKind? = some kind), c)
  | atEnd => (.truth c.atEnd, c)
  | expect kind context =>
    Answer.ofResult (fun l ↦ .token l.token) ((Parser.expect kind context).run c)
  | read construct => Answer.ofResult .tree ((Parser.construct limit construct).run c)

/-- The cursor after commands. -/
def Cursor.after (limit : Nat) (c : Cursor) (commands : List Command) : Cursor :=
  commands.foldl (fun c command ↦ (command.perform limit c).2) c

end InfixCompiler
