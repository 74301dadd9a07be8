import InfixCompiler.Binary64.Shortest
import InfixCompiler.Opcode
import InfixCompiler.Text.Layout

/-!
# Chunks and modules

A chunk is the code of one function, and a module the chunks of a program in the order of its
functions. Their listings are for people; `Chunk.encode` writes code for a machine.
-/

namespace InfixCompiler

/-- An opcode and its operand. Only `storeConst` has a use for one. -/
structure Instruction where
  /-- What is done. -/
  opcode : Opcode
  /-- What it is done with. -/
  operand? : Option Binary64
deriving DecidableEq

namespace Instruction

/-- An instruction without an operand. -/
def plain (opcode : Opcode) : Instruction := ⟨opcode, none⟩

/-- The instruction that puts a number on the stack. -/
def constant (x : Binary64) : Instruction := ⟨.storeConst, some x⟩

/-- The mnemonic, and the operand in a column of its own. -/
def render (i : Instruction) : String :=
  match i.operand? with
  | some x => Text.alignLeft 12 i.opcode.name ++ x.render
  | none => i.opcode.name

/-- Equality with operands compared as numbers. -/
def ieeeEq (i j : Instruction) : Bool :=
  i.opcode == j.opcode &&
    match i.operand?, j.operand? with
    | some x, some y => x.ieeeEq y
    | none, none => true
    | _, _ => false

end Instruction

/-- The code of a function. -/
structure Chunk where
  /-- The name of the function. -/
  name : String
  /-- Its instructions in the order in which they are run. -/
  code : List Instruction
deriving DecidableEq

namespace Chunk

variable (c : Chunk)

/-- The instruction at an index, with the index in at least four digits. -/
def listingRow (index : Nat) (i : Instruction) : String :=
  Text.numberRight 4 index ++ "  " ++ i.render

/-- The name, and the instructions with their indexes. -/
def render : String :=
  Text.rows (s!"-- chunk {c.name} --" :: c.code.zipIdx.map fun (i, index) ↦ listingRow index i)

/-- Equality with operands compared as numbers. -/
def ieeeEq (d : Chunk) : Bool :=
  c.name == d.name && c.code.length == d.code.length &&
    (c.code.zip d.code).all fun (i, j) ↦ i.ieeeEq j

end Chunk

/-- The code of a program. -/
structure Module where
  /-- The name of the module. -/
  name : String
  /-- The chunks of its functions in order. -/
  chunks : List Chunk
deriving DecidableEq

namespace Module

variable (m : Module)

/-- The first chunk of a name, and its index. -/
def find? (name : String) : Option (Chunk × Nat) :=
  m.chunks.zipIdx.find? fun (c, _) ↦ c.name == name

/-- Equality with operands compared as numbers. -/
def ieeeEq (n : Module) : Bool :=
  m.name == n.name && m.chunks.length == n.chunks.length &&
    (m.chunks.zip n.chunks).all fun (c, d) ↦ c.ieeeEq d

/-- The name and the listings of the chunks. -/
def render : String := Text.row s!"== module {m.name} ==" ++ String.join (m.chunks.map Chunk.render)

end Module

end InfixCompiler
