import InfixCompiler.Proofs.Encoding

/-!
# Bytes that are code

Code is a row of records: a record is a byte that stands for an opcode without an operand, or the
byte of `storeConst` with the eight bytes of a number behind it. So the first byte of a record tells
where it ends, and bytes are a row of records in one way at most.

Bytes that are no such row have records in front, and then a byte that begins none. The fault of
reading them names the place of that byte, which is the number of bytes before it. No longer
beginning of the bytes can be read: it would go on with that byte, and with fewer bytes behind it
than there are, so that a record is no more there than it was (`DecodeFault.IsAt.of_isPrefix`).
-/

namespace InfixCompiler

/-! ## Records -/

/-- The bytes of one instruction. -/
inductive IsRecord : List UInt8 → Prop
  /-- A byte from 0 to 7, and not 4. -/
  | plain {b : UInt8} (hb : b ≤ 7) (hplain : b ≠ 4) : IsRecord [b]
  /-- The byte 4 and eight bytes. -/
  | constant {operand : List UInt8} (h : operand.length = 8) : IsRecord (4 :: operand)

theorem Opcode.ofByte?_eq_none_iff {b : UInt8} : ofByte? b = none ↔ 8 ≤ b := by
  rw [ofByte?, List.getElem?_eq_none_iff, UInt8.le_iff_toNat_le]
  rfl

theorem Opcode.exists_ofByte? {b : UInt8} (hb : b ≤ 7) : ∃ opcode, ofByte? b = some opcode := by
  rw [← Option.isSome_iff_exists, Option.isSome_iff_ne_none, ne_eq, ofByte?_eq_none_iff,
    UInt8.not_le]
  exact UInt8.lt_of_le_of_lt hb (by decide)

/-- Records are what regular instructions are written as. -/
theorem isRecord_iff {r : List UInt8} :
    IsRecord r ↔ ∃ i : Instruction, i.IsRegular ∧ i.encode = r := by
  constructor
  · intro h
    cases h with
    | plain hb hplain =>
      obtain ⟨opcode, hopcode⟩ := Opcode.exists_ofByte? hb
      obtain rfl := Opcode.byte_of_ofByte? hopcode
      have hop : opcode.hasOperand = false := by
        rw [Opcode.hasOperand, beq_eq_false_iff_ne]
        rintro rfl
        exact hplain rfl
      exact ⟨_, Instruction.isRegular_plain hop, Instruction.encode_plain hop⟩
    | @constant operand hlength =>
      refine ⟨.constant (.ofBytes operand), Instruction.isRegular_constant _, ?_⟩
      rw [Instruction.encode_constant, Binary64.bytes_ofBytes hlength]
      rfl
  · rintro ⟨i, hi, rfl⟩
    rcases hi.cases with ⟨x, rfl⟩ | ⟨opcode, hop, rfl⟩
    · exact .constant x.length_bytes
    · rw [Instruction.encode_plain hop]
      cases opcode with
      | storeConst => exact absurd hop (by decide)
      | _ => exact .plain (by decide) (by decide)

/-- Rows of records are what regular code is written as. -/
theorem exists_records_iff {bytes : List UInt8} :
    (∃ records : List (List UInt8), (∀ r ∈ records, IsRecord r) ∧ bytes = records.flatten) ↔
      ∃ code : List Instruction, (∀ i ∈ code, i.IsRegular) ∧
        code.flatMap Instruction.encode = bytes := by
  constructor
  · rintro ⟨records, hrecords, rfl⟩
    induction records with
    | nil => exact ⟨[], List.forall_mem_nil _, rfl⟩
    | cons r records ih =>
      rw [List.forall_mem_cons] at hrecords
      obtain ⟨i, hi, rfl⟩ := isRecord_iff.mp hrecords.1
      obtain ⟨code, hcode, hbytes⟩ := ih hrecords.2
      refine ⟨i :: code, List.forall_mem_cons.mpr ⟨hi, hcode⟩, ?_⟩
      rw [List.flatMap_cons, hbytes, List.flatten_cons]
  · rintro ⟨code, hcode, rfl⟩
    refine ⟨code.map Instruction.encode, ?_, List.flatMap_def⟩
    exact List.forall_mem_map.mpr fun i hi ↦ isRecord_iff.mpr ⟨i, hcode i hi, rfl⟩

/-- Bytes can be read if and only if they are a row of records. -/
theorem Chunk.exists_decode_eq_ok_iff {name : String} {bytes : List UInt8} :
    (∃ c, Chunk.decode name bytes = .ok c) ↔
      ∃ records : List (List UInt8), (∀ r ∈ records, IsRecord r) ∧ bytes = records.flatten := by
  rw [exists_records_iff]
  constructor
  · rintro ⟨c, hc⟩
    exact ⟨c.code, (Obtainable.decoded hc).isRegular, (Chunk.encode_decode hc).2⟩
  · rintro ⟨code, hcode, rfl⟩
    exact ⟨⟨name, code⟩, Chunk.decode_encode (c := ⟨name, code⟩) hcode⟩

/-! ## Where the records end -/

/-- The fault of a byte `b` at an offset, with `back` behind it, that begins no record. -/
inductive DecodeFault.IsAt (offset : Nat) (b : UInt8) (back : List UInt8) : DecodeFault → Prop
  /-- There is no such opcode. -/
  | unknownOpcode (hb : 8 ≤ b) : IsAt offset b back (.unknownOpcode b offset)
  /-- A constant is not all there. -/
  | truncatedOperand (hb : b = 4) (hback : back.length < 8) :
      IsAt offset b back (.truncatedOperand .storeConst offset)

namespace DecodeFault.IsAt

variable {offset : Nat} {b : UInt8} {back cut : List UInt8} {fault : DecodeFault}

/-- With fewer bytes behind it the byte begins no record either. -/
theorem of_isPrefix (h : fault.IsAt offset b back) (hcut : cut <+: back) :
    fault.IsAt offset b cut := by
  cases h with
  | unknownOpcode hb => exact .unknownOpcode hb
  | truncatedOperand hb hback => exact .truncatedOperand hb (hcut.length_le.trans_lt hback)

/-- The byte begins no record at another offset either. -/
theorem exists_isAt (h : fault.IsAt offset b back) (offset' : Nat) :
    ∃ fault' : DecodeFault, fault'.IsAt offset' b back := by
  cases h with
  | unknownOpcode hb => exact ⟨_, .unknownOpcode hb⟩
  | truncatedOperand hb hback => exact ⟨_, .truncatedOperand hb hback⟩

/-- The byte can not be read. -/
theorem decodeFrom_eq_error (h : fault.IsAt offset b back) :
    decodeFrom offset (b :: back) = .error fault := by
  cases h with
  | unknownOpcode hb => rw [decodeFrom, Opcode.ofByte?_eq_none_iff.mpr hb]
  | truncatedOperand hb hback =>
    have hopcode : Opcode.ofByte? b = some .storeConst := hb ▸ Opcode.ofByte?_byte .storeConst
    have hoperand : Opcode.storeConst.hasOperand = true := rfl
    rw [decodeFrom, hopcode]
    dsimp only
    rw [if_pos hoperand, if_pos hback]

end DecodeFault.IsAt

theorem eq_error_of_map_eq_error {ε α β : Type} {f : α → β} {e : Except ε α} {err : ε}
    (h : e.map f = .error err) : e = .error err := by
  cases e with
  | error err' => exact congrArg Except.error (Except.error.inj h)
  | ok a => exact absurd h (by simp [Except.map])

/-- From `offset` on the bytes begin with regular code, and then no record begins. -/
def DecodeFault.IsBehindCode (offset : Nat) (bytes : List UInt8) (fault : DecodeFault) : Prop :=
  ∃ (code : List Instruction) (b : UInt8) (back : List UInt8), (∀ i ∈ code, i.IsRegular) ∧
    bytes = code.flatMap Instruction.encode ++ b :: back ∧
    fault.IsAt (offset + (code.flatMap Instruction.encode).length) b back

namespace DecodeFault.IsBehindCode

variable {offset : Nat} {bytes : List UInt8} {fault : DecodeFault}

theorem nil {b : UInt8} {back : List UInt8} (h : fault.IsAt offset b back) :
    fault.IsBehindCode offset (b :: back) :=
  ⟨[], b, back, List.forall_mem_nil _, rfl, h⟩

theorem cons {i : Instruction} (hi : i.IsRegular)
    (h : fault.IsBehindCode (offset + i.encode.length) bytes) :
    fault.IsBehindCode offset (i.encode ++ bytes) := by
  obtain ⟨code, b, back, hcode, rfl, hfault⟩ := h
  refine ⟨i :: code, b, back, List.forall_mem_cons.mpr ⟨hi, hcode⟩, ?_, ?_⟩
  · rw [List.flatMap_cons, List.append_assoc]
  · rwa [List.flatMap_cons, List.length_append, ← Nat.add_assoc]

/-- The fault of a reading is behind the code that it has read. -/
theorem of_decodeFrom (h : decodeFrom offset bytes = .error fault) :
    fault.IsBehindCode offset bytes := by
  fun_induction decodeFrom offset bytes with
  | case1 => exact absurd h (by simp)
  | case2 offset b bytes hb =>
    obtain rfl := Except.error.inj h
    exact nil (.unknownOpcode (Opcode.ofByte?_eq_none_iff.mp hb))
  | case3 offset b bytes opcode hb hop hlength =>
    obtain rfl := Except.error.inj h
    obtain rfl : opcode = .storeConst := beq_iff_eq.mp hop
    exact nil (.truncatedOperand (Opcode.byte_of_ofByte? hb).symm hlength)
  | case4 offset b bytes opcode hb hop hlength ih =>
    obtain rfl : opcode = .storeConst := beq_iff_eq.mp hop
    have htake : (bytes.take 8).length = 8 := by
      rw [List.length_take]
      omega
    have hencode : (Instruction.constant (.ofBytes (bytes.take 8))).encode
        = b :: bytes.take 8 := by
      rw [Instruction.encode_constant, Binary64.bytes_ofBytes htake, Opcode.byte_of_ofByte? hb]
    have hrest : fault.IsBehindCode
        (offset + (Instruction.constant (.ofBytes (bytes.take 8))).encode.length)
        (bytes.drop 8) := by
      rw [hencode, List.length_cons, htake]
      exact ih (eq_error_of_map_eq_error h)
    have hcons := cons (Instruction.isRegular_constant _) hrest
    rwa [hencode, List.cons_append, List.take_append_drop] at hcons
  | case5 offset b bytes opcode hb hop ih =>
    have hop' : opcode.hasOperand = false := by simpa using hop
    have hencode : (Instruction.plain opcode).encode = [b] := by
      rw [Instruction.encode_plain hop', Opcode.byte_of_ofByte? hb]
    have hrest : fault.IsBehindCode (offset + (Instruction.plain opcode).encode.length) bytes := by
      rw [hencode, List.length_singleton]
      exact ih (eq_error_of_map_eq_error h)
    have hcons := cons (Instruction.isRegular_plain hop') hrest
    rwa [hencode, List.singleton_append] at hcons

end DecodeFault.IsBehindCode

/-! ## The longest beginning that can be read -/

/-- The fault is that of the byte behind `front`, the longest beginning of `bytes` that is code. -/
structure DecodeFault.StandsBehind (fault : DecodeFault) (name : String)
    (front bytes : List UInt8) : Prop where
  /-- What is before the byte can be read. -/
  decodes : ∃ c, Chunk.decode name front = .ok c
  /-- No longer beginning can. -/
  longest : ∀ (longer : List UInt8) (c : Chunk), longer <+: bytes →
    Chunk.decode name longer = .ok c → longer.length ≤ front.length
  /-- The byte is no opcode, or is that of a constant that is cut off. The reason says which, and
  how many bytes are before it. -/
  reason : ∃ (b : UInt8) (back : List UInt8), bytes = front ++ b :: back ∧
    (8 ≤ b ∧ fault.reason name =
        s!"Unknown opcode byte `0x{hexByte b}` at offset {front.length} in chunk `{name}`" ∨
      b = 4 ∧ back.length < 8 ∧ fault.reason name =
        s!"Truncated operand for STORE_CONST at offset {front.length} in chunk `{name}`")
  /-- It is a fault of loading code. -/
  kind : (fault.diagnostic name).kind = .runtime
  /-- There is no source to point into. -/
  notes : (fault.diagnostic name).notes = []

/-- No longer beginning of the bytes can be read. -/
theorem DecodeFault.IsAt.length_le {name : String} {front back longer : List UInt8} {b : UInt8}
    {offset : Nat} {fault : DecodeFault} (h : fault.IsAt offset b back) {c d : Chunk}
    (hfront : Chunk.decode name front = .ok c) (hlonger : longer <+: front ++ b :: back)
    (hd : Chunk.decode name longer = .ok d) : longer.length ≤ front.length := by
  rcases List.prefix_or_prefix_of_prefix hlonger (List.prefix_append front _) with hle | ⟨cut, rfl⟩
  · exact hle.length_le
  rw [List.prefix_append_right_inj] at hlonger
  rcases List.prefix_cons_iff.mp hlonger with rfl | ⟨cut, rfl, hcut⟩
  · rw [List.append_nil]
  -- what is read behind `front` would begin with the byte that begins no record
  have happend := Chunk.decode_encode_append (Chunk.Obtainable.decoded hfront).isRegular name
    (b :: cut)
  obtain ⟨_, hcut⟩ := (h.of_isPrefix hcut).exists_isAt 0
  rw [(Chunk.encode_decode hfront).2, hd, Chunk.decode, hcut.decodeFrom_eq_error] at happend
  exact absurd happend (by simp [Except.map, Except.mapError])

/-- **Which bytes are code.** Bytes can be read if and only if they are a row of records. Otherwise
the fault stands behind the longest beginning that can be read. -/
theorem Chunk.decode_records (name : String) (bytes : List UInt8) :
    ((∃ c, Chunk.decode name bytes = .ok c) ↔
      ∃ records : List (List UInt8), (∀ r ∈ records, IsRecord r) ∧ bytes = records.flatten) ∧
    ∀ fault, Chunk.decode name bytes = .error fault →
      ∃ front, fault.StandsBehind name front bytes := by
  refine ⟨Chunk.exists_decode_eq_ok_iff, fun fault hfault ↦ ?_⟩
  obtain ⟨code, b, back, hcode, hbytes, hat⟩ :=
    DecodeFault.IsBehindCode.of_decodeFrom (eq_error_of_map_eq_error hfault)
  rw [Nat.zero_add] at hat
  have hfront : Chunk.decode name (code.flatMap Instruction.encode) = .ok ⟨name, code⟩ :=
    Chunk.decode_encode (c := ⟨name, code⟩) hcode
  refine ⟨_, ⟨_, hfront⟩, fun longer c hlonger hc ↦ ?_, ⟨b, back, hbytes, ?_⟩, rfl, rfl⟩
  · exact hat.length_le hfront (hbytes ▸ hlonger) hc
  · cases hat with
    | unknownOpcode hb => exact .inl ⟨hb, rfl⟩
    | truncatedOperand hb hback => exact .inr ⟨hb, hback, rfl⟩

/-- A constant that lacks six bytes, and an unknown byte behind a constant that is all there. -/
theorem Chunk.decode_records_cut_and_unknown :
    (∃ front, (DecodeFault.truncatedOperand .storeConst 1).StandsBehind "f" front [6, 4, 1, 2]) ∧
    ∃ front, (DecodeFault.unknownOpcode 255 10).StandsBehind "f" front
      [6, 4, 0, 0, 0, 0, 0, 0, 240, 63, 255] :=
  ⟨(Chunk.decode_records "f" [6, 4, 1, 2]).2 _ (by decide +kernel),
    (Chunk.decode_records "f" [6, 4, 0, 0, 0, 0, 0, 0, 240, 63, 255]).2 _ (by decide +kernel)⟩

end InfixCompiler
