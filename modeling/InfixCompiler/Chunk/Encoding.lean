import InfixCompiler.Chunk
import InfixCompiler.Diagnostic

/-!
# Chunks as bytes

An instruction is the byte of its opcode and, if that takes an operand, the eight bytes of the
operand, the lowest first. The opcode tells how many bytes follow, so the instructions stand one
after the other with nothing between them. The name of a chunk is not part of its bytes.
-/

namespace InfixCompiler

open scoped Binary64

/-! ## Words -/

/-- The lowest `count` bytes of `n`, the lowest first. -/
def littleEndian : (count : Nat) → (n : Nat) → List UInt8
  | 0, _ => []
  | count + 1, n => UInt8.ofNat n :: littleEndian count (n / 256)

/-- The number whose bytes, the lowest first, are `bytes`. -/
def ofLittleEndian : List UInt8 → Nat
  | [] => 0
  | b :: bytes => b.toNat + 256 * ofLittleEndian bytes

theorem length_littleEndian (count n : Nat) : (littleEndian count n).length = count := by
  induction count generalizing n with
  | zero => rfl
  | succ count ih => simp [littleEndian, ih]

theorem ofLittleEndian_littleEndian (count n : Nat) :
    ofLittleEndian (littleEndian count n) = n % 256 ^ count := by
  induction count generalizing n with
  | zero => simp [littleEndian, ofLittleEndian, Nat.mod_one]
  | succ count ih =>
    rw [littleEndian, ofLittleEndian, ih, Nat.pow_succ, Nat.mul_comm _ 256, Nat.mod_mul]
    simp

theorem littleEndian_ofLittleEndian (bytes : List UInt8) :
    littleEndian bytes.length (ofLittleEndian bytes) = bytes := by
  induction bytes with
  | nil => rfl
  | cons b bytes ih =>
    have hb := b.toNat_lt
    rw [List.length_cons, ofLittleEndian, littleEndian,
      show (b.toNat + 256 * ofLittleEndian bytes) / 256 = ofLittleEndian bytes by omega, ih]
    congr 1
    apply UInt8.toNat_inj.mp
    simp only [UInt8.toNat_ofNat']
    omega

/-- The eight bytes of a number. -/
def Binary64.bytes (x : Binary64) : List UInt8 := littleEndian 8 x.bits.toNat

/-- The number of eight bytes. -/
def Binary64.ofBytes (bytes : List UInt8) : Binary64 := ⟨UInt64.ofNat (ofLittleEndian bytes)⟩

/-! ## Writing -/

/-- The bytes of an instruction. A missing operand is written as zero, and one that the opcode has
no use for is not written. -/
def Instruction.encode (i : Instruction) : List UInt8 :=
  i.opcode.byte :: if i.opcode.hasOperand then (i.operand?.getD .zero).bytes else []

/-- The bytes of the code. -/
def Chunk.encode (c : Chunk) : List UInt8 := c.code.flatMap Instruction.encode

/-! ## Reading -/

/-- Why bytes are no code. -/
inductive DecodeFault where
  /-- A byte that is no opcode. -/
  | unknownOpcode (byte : UInt8) (offset : Nat)
  /-- An opcode without all of its operand. -/
  | truncatedOperand (opcode : Opcode) (offset : Nat)
deriving DecidableEq

/-- A byte in hexadecimal. -/
def hexByte (b : UInt8) : String :=
  String.ofList [Nat.digitChar (b.toNat / 16), Nat.digitChar (b.toNat % 16)]

/-- The fault in words. -/
def DecodeFault.reason (chunk : String) : DecodeFault → String
  | unknownOpcode byte offset =>
    s!"Unknown opcode byte `0x{hexByte byte}` at offset {offset} in chunk `{chunk}`"
  | truncatedOperand opcode offset =>
    s!"Truncated operand for {opcode.name} at offset {offset} in chunk `{chunk}`"

/-- The fault as a reader is told of it. -/
def DecodeFault.diagnostic (chunk : String) (f : DecodeFault) : Diagnostic :=
  ⟨.runtime, f.reason chunk, []⟩

/-- The instructions of bytes that begin at `offset`. -/
def decodeFrom (offset : Nat) : List UInt8 → Except DecodeFault (List Instruction)
  | [] => .ok []
  | b :: bytes =>
    match Opcode.ofByte? b with
    | none => .error (.unknownOpcode b offset)
    | some opcode =>
      if opcode.hasOperand then
        if bytes.length < 8 then .error (.truncatedOperand opcode offset)
        else (decodeFrom (offset + 9) (bytes.drop 8)).map
          (.constant (Binary64.ofBytes (bytes.take 8)) :: ·)
      else (decodeFrom (offset + 1) bytes).map (.plain opcode :: ·)
termination_by bytes => bytes.length
decreasing_by all_goals grind

/-- The chunk of a name whose code is `bytes`. -/
def Chunk.decode (name : String) (bytes : List UInt8) : Except DecodeFault Chunk :=
  (decodeFrom 0 bytes).map fun code ↦ ⟨name, code⟩

end InfixCompiler
