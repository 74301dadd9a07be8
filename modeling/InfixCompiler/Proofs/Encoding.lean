import InfixCompiler.Chunk.Encoding
import InfixCompiler.Proofs.Conservation

/-!
# Code and its bytes

The bytes of a chunk are read as that chunk, and bytes that can be read are those of what is read.
The one direction needs code in which constants, and nothing else, have an operand: the bytes of an
instruction that should have one and has none are those of a zero. All code that is lowered or read
is of this kind (`Chunk.Obtainable.isRegular`).

That code is read back is said here with `=`, for which the bits of numbers count. As numbers a NaN
is not even equal to itself. No text has one (`Source.not_hasNaN_of_compile`), as digits alone are
rounded to a finite number or to infinity.
-/

namespace InfixCompiler

open Grammar
open scoped Binary64

/-! ## Numbers -/

theorem ofLittleEndian_lt (bytes : List UInt8) : ofLittleEndian bytes < 256 ^ bytes.length := by
  induction bytes with
  | nil => exact Nat.one_pos
  | cons b bytes ih =>
    have hb := b.toNat_lt
    rw [ofLittleEndian, List.length_cons, Nat.pow_succ]
    omega

namespace Binary64

theorem ofBytes_bytes (x : Binary64) : ofBytes x.bytes = x := by
  have hx := x.bits.toNat_lt
  have hbits : ofLittleEndian x.bytes = x.bits.toNat := by
    rw [bytes, ofLittleEndian_littleEndian]
    exact Nat.mod_eq_of_lt hx
  rw [ofBytes, hbits, UInt64.ofNat_toNat]

theorem bytes_ofBytes {bs : List UInt8} (h : bs.length = 8) : (ofBytes bs).bytes = bs := by
  have hbs := ofLittleEndian_lt bs
  rw [h, show 256 ^ 8 = 2 ^ 64 from rfl] at hbs
  rw [bytes, ofBytes, UInt64.toNat_ofNat', Nat.mod_eq_of_lt hbs, ← h, littleEndian_ofLittleEndian]

theorem length_bytes (x : Binary64) : x.bytes.length = 8 := length_littleEndian 8 _

end Binary64

/-! ## Regular code -/

/-- The instruction has an operand if and only if its opcode has a use for it. -/
def Instruction.IsRegular (i : Instruction) : Prop := i.operand?.isSome = i.opcode.hasOperand

/-- All instructions of the chunk are regular. -/
def Chunk.IsRegular (c : Chunk) : Prop := ∀ i ∈ c.code, i.IsRegular

theorem Instruction.isRegular_constant (x : Binary64) : (constant x).IsRegular := rfl

theorem Instruction.isRegular_plain {opcode : Opcode} (h : opcode.hasOperand = false) :
    (plain opcode).IsRegular := h.symm

theorem Instruction.IsRegular.cases {i : Instruction} (h : i.IsRegular) :
    (∃ x, i = constant x) ∨ ∃ opcode, opcode.hasOperand = false ∧ i = plain opcode := by
  rcases i with ⟨opcode, _ | x⟩
  · exact .inr ⟨opcode, h.symm, rfl⟩
  · obtain rfl : opcode = .storeConst := beq_iff_eq.mp h.symm
    exact .inl ⟨x, rfl⟩

/-! ## Writing and reading -/

theorem Instruction.encode_constant (x : Binary64) :
    (constant x).encode = Opcode.storeConst.byte :: x.bytes := rfl

theorem Instruction.encode_plain {opcode : Opcode} (h : opcode.hasOperand = false) :
    (plain opcode).encode = [opcode.byte] := by
  rw [encode, plain, h]
  rfl

/-- The fault `k` bytes further on. -/
def DecodeFault.shift (k : Nat) : DecodeFault → DecodeFault
  | unknownOpcode byte offset => unknownOpcode byte (offset + k)
  | truncatedOperand opcode offset => truncatedOperand opcode (offset + k)

/-- Where the reading of bytes begins has no influence but on the place of a fault. -/
theorem decodeFrom_add (offset k : Nat) (bytes : List UInt8) :
    decodeFrom (offset + k) bytes = (decodeFrom offset bytes).mapError (DecodeFault.shift k) := by
  -- a fault passes through the instructions in front of it
  have hmap (e : Except DecodeFault (List Instruction)) (i : Instruction) :
      (e.mapError (DecodeFault.shift k)).map (i :: ·)
        = (e.map (i :: ·)).mapError (DecodeFault.shift k) := by
    cases e <;> rfl
  fun_induction decodeFrom offset bytes with
  | case1 => rw [decodeFrom]; rfl
  | case2 offset b bytes h => rw [decodeFrom, h]; rfl
  | case3 offset b bytes opcode h hop hlength =>
    rw [decodeFrom, h]
    dsimp only
    rw [if_pos hop, if_pos hlength]
    rfl
  | case4 offset b bytes opcode h hop hlength ih =>
    rw [decodeFrom, h]
    dsimp only
    rw [if_pos hop, if_neg hlength, Nat.add_right_comm, ih, hmap]
  | case5 offset b bytes opcode h hop ih =>
    rw [decodeFrom, h]
    dsimp only
    rw [if_neg hop, Nat.add_right_comm, ih, hmap]

/-- The bytes of an instruction are read as the instruction. -/
theorem decodeFrom_encode_append {i : Instruction} (hi : i.IsRegular) (offset : Nat)
    (rest : List UInt8) : decodeFrom offset (i.encode ++ rest)
      = (decodeFrom (offset + i.encode.length) rest).map (i :: ·) := by
  rcases hi.cases with ⟨x, rfl⟩ | ⟨opcode, hop, rfl⟩
  · have hlength := x.length_bytes
    have hoperand : Opcode.storeConst.hasOperand = true := rfl
    rw [Instruction.encode_constant, List.cons_append, decodeFrom, Opcode.ofByte?_byte]
    dsimp only
    rw [if_pos hoperand, if_neg (by simp [hlength]), List.drop_left' hlength,
      List.take_left' hlength, x.ofBytes_bytes, List.length_cons, hlength]
  · rw [Instruction.encode_plain hop, List.singleton_append, decodeFrom, Opcode.ofByte?_byte]
    dsimp only
    rw [if_neg (by simp [hop]), List.length_singleton]

theorem decodeFrom_flatMap_append {code : List Instruction} (h : ∀ i ∈ code, i.IsRegular)
    (offset : Nat) (rest : List UInt8) :
    decodeFrom offset (code.flatMap Instruction.encode ++ rest)
      = (decodeFrom (offset + (code.flatMap Instruction.encode).length) rest).map (code ++ ·) := by
  induction code generalizing offset with
  | nil =>
    simp only [List.flatMap_nil, List.nil_append, List.length_nil, Nat.add_zero]
    cases decodeFrom offset rest <;> rfl
  | cons i code ih =>
    rw [List.forall_mem_cons] at h
    rw [List.flatMap_cons, List.append_assoc, decodeFrom_encode_append h.1, ih h.2,
      List.length_append, Nat.add_assoc]
    cases decodeFrom _ rest <;> rfl

theorem exists_of_map_eq_ok {ε α β : Type} {f : α → β} {e : Except ε α} {b : β}
    (h : e.map f = .ok b) : ∃ a, e = .ok a ∧ f a = b := by
  cases e with
  | error err => exact absurd h (by simp [Except.map])
  | ok a => exact ⟨a, rfl, Except.ok.inj h⟩

/-- What is read is regular code, and its bytes are those that were read. -/
theorem isRegular_of_decodeFrom {offset : Nat} {bytes : List UInt8} {code : List Instruction}
    (h : decodeFrom offset bytes = .ok code) :
    (∀ i ∈ code, i.IsRegular) ∧ code.flatMap Instruction.encode = bytes := by
  fun_induction decodeFrom offset bytes generalizing code with
  | case1 =>
    obtain rfl := Except.ok.inj h
    exact ⟨List.forall_mem_nil _, rfl⟩
  | case2 => exact absurd h (by simp)
  | case3 => exact absurd h (by simp)
  | case4 offset b bytes opcode hb hop hlength ih =>
    obtain ⟨rest, hrest, rfl⟩ := exists_of_map_eq_ok h
    obtain ⟨hregular, hbytes⟩ := ih hrest
    refine ⟨List.forall_mem_cons.mpr ⟨Instruction.isRegular_constant _, hregular⟩, ?_⟩
    have htake : (bytes.take 8).length = 8 := by
      rw [List.length_take]
      omega
    obtain rfl : opcode = .storeConst := beq_iff_eq.mp hop
    rw [List.flatMap_cons, hbytes, Instruction.encode_constant, Binary64.bytes_ofBytes htake,
      Opcode.byte_of_ofByte? hb, List.cons_append, List.take_append_drop]
  | case5 offset b bytes opcode hb hop ih =>
    obtain ⟨rest, hrest, rfl⟩ := exists_of_map_eq_ok h
    obtain ⟨hregular, hbytes⟩ := ih hrest
    have hop' : opcode.hasOperand = false := by simpa using hop
    refine ⟨List.forall_mem_cons.mpr ⟨Instruction.isRegular_plain hop', hregular⟩, ?_⟩
    rw [List.flatMap_cons, hbytes, Instruction.encode_plain hop', Opcode.byte_of_ofByte? hb,
      List.singleton_append]

/-! ## Lowered code -/

theorem Operation.isRegular_of_mem_lower (e : Operation) : ∀ i ∈ e.lower.code, i.IsRegular := by
  refine e.forall_mem_lower Instruction.isRegular_constant fun operator ↦ ?_
  exact Instruction.isRegular_plain (Opcode.ofOperator_ne operator).2

theorem Tree.isRegular_of_mem_lowerStatement (t : Tree) :
    ∀ i ∈ t.lowerStatement.code, i.IsRegular := by
  cases t with
  | ret e =>
    exact Emission.forall_mem_andThen e.isRegular_of_mem_lower
      (List.forall_mem_singleton.mpr (Instruction.isRegular_plain rfl))
  | _ => exact List.forall_mem_nil _

theorem isRegular_of_mem_lowerBody (body : List Tree) :
    ∀ i ∈ (lowerBody body).code, i.IsRegular := by
  induction body with
  | nil => exact List.forall_mem_nil _
  | cons t body ih => exact Emission.forall_mem_andThen t.isRegular_of_mem_lowerStatement ih

theorem isRegular_of_mem_assemble (declarations : List Tree) :
    ∀ c ∈ (assemble declarations).chunks, c.IsRegular := by
  induction declarations with
  | nil => exact List.forall_mem_nil _
  | cons t declarations ih =>
    cases t with
    | function name params body =>
      rw [assemble]
      dsimp only
      split
      · exact List.forall_mem_cons.mpr ⟨isRegular_of_mem_lowerBody body, ih⟩
      · exact List.forall_mem_singleton.mpr (isRegular_of_mem_lowerBody body)
    | _ => exact List.forall_mem_nil _

namespace Chunk

/-- The chunks that there are without touching the inside of one. -/
inductive Obtainable : Chunk → Prop
  /-- A chunk without code. -/
  | empty (name : String) : Obtainable ⟨name, []⟩
  /-- The chunk of a function. -/
  | function {name : String} {body : List Tree} {c : Chunk} (h : lowerFunction name body = .ok c) :
      Obtainable c
  /-- A chunk of the module of a tree. -/
  | lowered {t : Tree} {m : Module} {c : Chunk} (h : t.lower = .ok m) (hc : c ∈ m.chunks) :
      Obtainable c
  /-- A chunk that was read from bytes. -/
  | decoded {name : String} {bytes : List UInt8} {c : Chunk} (h : decode name bytes = .ok c) :
      Obtainable c

variable {c : Chunk}

theorem Obtainable.isRegular (h : c.Obtainable) : c.IsRegular := by
  cases h with
  | empty name => exact List.forall_mem_nil _
  | @function name body _ h =>
    rw [lowerFunction] at h
    split at h
    · obtain rfl := Except.ok.inj h
      exact isRegular_of_mem_lowerBody body
    · exact absurd h (by simp)
  | @lowered t m _ h hc =>
    cases t with
    | root declarations =>
      rw [Tree.lower] at h
      split at h
      · obtain rfl := Except.ok.inj h
        exact isRegular_of_mem_assemble declarations c hc
      · exact absurd h (by simp)
    | _ => exact absurd h (by simp [Tree.lower])
  | decoded h =>
    obtain ⟨code, hcode, rfl⟩ := exists_of_map_eq_ok h
    exact (isRegular_of_decodeFrom hcode).1

/-- Regular code is read back from its bytes, and then whatever comes after it. -/
theorem decode_encode_append (h : c.IsRegular) (name : String) (rest : List UInt8) :
    decode name (c.encode ++ rest)
      = ((decode name rest).mapError (DecodeFault.shift c.encode.length)).map
        fun d ↦ ⟨name, c.code ++ d.code⟩ := by
  rw [decode, encode, decodeFrom_flatMap_append h, decodeFrom_add, decode]
  cases decodeFrom 0 rest <;> rfl

theorem decode_encode (h : c.IsRegular) : decode c.name c.encode = .ok c := by
  have hnil : decode c.name [] = .ok ⟨c.name, []⟩ := by
    rw [decode, decodeFrom]
    rfl
  have happend := decode_encode_append h c.name []
  rw [List.append_nil, hnil, Except.mapError, Except.map, List.append_nil] at happend
  exact happend

theorem encode_decode {name : String} {bytes : List UInt8} (h : decode name bytes = .ok c) :
    c.name = name ∧ c.encode = bytes := by
  obtain ⟨code, hcode, rfl⟩ := exists_of_map_eq_ok h
  exact ⟨rfl, (isRegular_of_decodeFrom hcode).2⟩

/-! ## Equality as numbers -/

/-- The chunk has an operand that is not a number. -/
def HasNaN (c : Chunk) : Prop := ∃ i ∈ c.code, ∃ x, i.operand? = some x ∧ x.isNaN

theorem ieeeEq_self_iff (c : Chunk) : c.ieeeEq c ↔ ¬ c.HasNaN := by
  have hinstruction (i : Instruction) : i.ieeeEq i ↔ ∀ x, i.operand? = some x → ¬ x.isNaN := by
    rcases i with ⟨opcode, _ | x⟩ <;> simp [Instruction.ieeeEq, Binary64.ieeeEq_self]
  have hall : c.ieeeEq c ↔ ∀ i ∈ c.code, i.ieeeEq i := by
    simp [ieeeEq, List.zip, List.zipWith_self]
  rw [hall, HasNaN]
  simp only [not_exists, not_and]
  exact forall₂_congr fun i _ ↦ hinstruction i

end Chunk

namespace Binary64

theorem isNaN_ofMagnitude {n : Nat} (h : n ≤ infinityBits) : (ofMagnitude n).isNaN = false := by
  have hn : n < 2 ^ signPlace := lt_of_le_of_lt h (by decide)
  have hmagnitude : (ofMagnitude n).magnitude = n := by
    rw [magnitude, ofMagnitude, UInt64.toNat_ofNat',
      Nat.mod_eq_of_lt (lt_trans hn (by decide : 2 ^ signPlace < 2 ^ 64)), Nat.mod_eq_of_lt hn]
  rw [isNaN, hmagnitude]
  exact decide_eq_false (Nat.not_lt.mpr h)

theorem isNaN_nearestDecimal (digits : Nat) (exponent : Int) :
    (nearestDecimal digits exponent).isNaN = false := by
  have hnearest (num den : Nat) : (nearest num den).isNaN = false :=
    isNaN_ofMagnitude (Nat.min_le_right _ _)
  unfold nearestDecimal
  split
  · exact isNaN_ofMagnitude (Nat.zero_le _)
  dsimp only
  split
  · exact isNaN_ofMagnitude (Nat.le_refl _)
  split
  · exact isNaN_ofMagnitude (Nat.zero_le _)
  split
  · exact hnearest _ _
  · exact hnearest _ _

theorem isNaN_readDecimal? {cs : List Char} {x : Binary64} (h : readDecimal? cs = some x) :
    x.isNaN = false := by
  rw [readDecimal?] at h
  dsimp only at h
  split at h
  · exact absurd h (by simp)
  · obtain ⟨exponent, -, rfl⟩ := Option.map_eq_some_iff.mp h
    exact isNaN_nearestDecimal _ _

theorem toLower_of_isDigit {c : Char} (h : c.isDigit) : c.toLower = c := dif_neg fun hupper ↦ by
  have hdigit := of_decide_eq_true ((Bool.and_eq_true _ _).mp h).2
  exact absurd (UInt32.le_trans hupper.1 hdigit) (by decide)

/-- What begins with a digit has no sign and is no name. -/
theorem read?_of_isDigit {c : Char} (hc : c.isDigit) (cs : List Char) :
    read? (c :: cs) = readDecimal? (c :: cs) := by
  have hname {d : Char} {ds : List Char} (hd : ¬ d.isDigit) :
      (c :: cs).map Char.toLower ≠ d :: ds := by
    rw [List.map_cons, toLower_of_isDigit hc]
    rintro ⟨⟩
    exact hd hc
  rw [read?, takeSign_of_isDigit hc]
  simp only [Bool.false_eq_true, if_false, Option.map_id']
  rw [readUnsigned?, if_neg (not_or.mpr ⟨hname (by decide), hname (by decide)⟩),
    if_neg (hname (by decide))]

/-- Digits spell no NaN. -/
theorem isNaN_of_isDigit {c : Char} {cs : List Char} {x : Binary64} (hc : c.isDigit)
    (h : read? (c :: cs) = some x) : x.isNaN = false :=
  isNaN_readDecimal? (read?_of_isDigit hc cs ▸ h)

end Binary64

/-! ## Code of texts -/

theorem IsLexeme.isNaN_of_read? {text : List Char} (h : IsLexeme text .number) {x : Binary64}
    (hx : Binary64.read? text = some x) : x.isNaN = false := by
  rcases h with hc | ⟨hc, -⟩
  exact Binary64.isNaN_of_isDigit hc hx

theorem Carries.not_isNaN {ls : List Lexeme} {code : List Instruction} (h : Carries ls code)
    (hls : ∀ l ∈ ls, l.kind = .number → IsLexeme l.text.toList .number) :
    ∀ i ∈ code, ∀ x, i.operand? = some x → x.isNaN = false := by
  intro i hi x hx
  obtain ⟨xs, hnumbers, hconstants⟩ := h.constants
  rcases h.only i hi with ⟨y, rfl⟩ | ⟨p, -, rfl⟩
  · obtain rfl := Option.some.inj hx
    have hconstant : Instruction.constant y ∈ xs.map Instruction.constant :=
      hconstants ▸ List.mem_filter.mpr ⟨hi, by simp [Instruction.constant]⟩
    obtain ⟨y', hy, heq⟩ := List.mem_map.mp hconstant
    obtain rfl : y' = y := Option.some.inj (congrArg Instruction.operand? heq)
    have hnumber : some y' ∈ xs.map some := List.mem_map_of_mem hy
    rw [← hnumbers] at hnumber
    obtain ⟨l, hl, hread⟩ := List.mem_map.mp hnumber
    obtain ⟨hmem, hkind⟩ := List.mem_filter.mp hl
    exact (hls l hmem (by simpa using hkind)).isNaN_of_read? hread
  · exact absurd hx (by simp [Instruction.plain])

/-- A chunk of a text is that of a function which is written there. -/
theorem Source.exists_isChunkOf {s : Source} {m : Module} (h : s.compile = .ok m) {c : Chunk}
    (hc : c ∈ m.chunks) : ∃ ls : List Lexeme,
      (∀ l ∈ ls, l.kind ≠ .endOfSource → IsLexeme l.text.toList l.kind) ∧
        ∃ part ∈ declared ls, IsChunkOf part c := by
  obtain ⟨ls, d, -, hlexeme, hd, hm⟩ := Source.exists_derivation_of_compile h
  have hread : ∀ l ∈ d.lexemes, Readable l := by
    rw [hd, List.forall_mem_append]
    exact ⟨fun l hl ↦ (hlexeme l hl).readable, List.forall_mem_singleton.mpr nofun⟩
  refine ⟨d.lexemes, ?_, ?_⟩
  · rw [hd, List.forall_mem_append]
    exact ⟨fun l hl _ ↦ hlexeme l hl, List.forall_mem_singleton.mpr fun hend ↦ absurd rfl hend⟩
  · have hchunks := d.lower_tree hread hm
    obtain ⟨n, hn, rfl⟩ := List.mem_iff_getElem.mp hc
    have hn' : n < (declared d.lexemes).length := hchunks.length_eq ▸ hn
    exact ⟨_, List.get_mem _ ⟨n, hn'⟩, hchunks.get hn' hn⟩

/-- The chunks of a text have only numbers in them. -/
theorem Source.not_hasNaN_of_compile {s : Source} {m : Module} (h : s.compile = .ok m) :
    ∀ c ∈ m.chunks, ¬ c.HasNaN := by
  rintro c hc ⟨i, hi, x, hx, hnan⟩
  obtain ⟨ls, hlexeme, part, hpart, hchunk⟩ := Source.exists_isChunkOf h hc
  have hnumber : ∀ l ∈ part.2, l.kind = .number → IsLexeme l.text.toList .number :=
    fun l hl hk ↦ hk ▸ hlexeme l (mem_of_mem_declared part hpart hl) (by simp [hk])
  have := hchunk.conserves.carries.not_isNaN hnumber i hi x hx
  exact absurd hnan (by simp [this])

theorem Source.obtainable_of_compile {s : Source} {m : Module} (h : s.compile = .ok m) :
    ∀ c ∈ m.chunks, c.Obtainable := by
  obtain ⟨p, -, hm⟩ := Source.compile_eq_ok_iff.mp h
  exact fun c hc ↦ .lowered hm hc

/-- **Writing and reading are inverse to each other.** The bytes of a chunk are read as the chunk,
whatever its numbers are, and what is read from bytes has these bytes. Bytes in a row are read as
the code of the one and then that of the other. Compared as numbers, a chunk is equal to what is
read from its bytes if and only if it has no NaN, and the chunks of a text have none. -/
theorem Chunk.encode_decode_inverse :
    (∀ c : Chunk, c.Obtainable → Chunk.decode c.name c.encode = .ok c) ∧
    (∀ (name : String) (bytes : List UInt8) (c : Chunk), Chunk.decode name bytes = .ok c →
      c.name = name ∧ c.encode = bytes) ∧
    (∀ (name : String) (x y : List UInt8) (c : Chunk), Chunk.decode name x = .ok c →
      (∀ d, Chunk.decode name y = .ok d →
        Chunk.decode name (x ++ y) = .ok ⟨name, c.code ++ d.code⟩) ∧
      ∀ fault, Chunk.decode name y = .error fault →
        Chunk.decode name (x ++ y) = .error (fault.shift x.length)) ∧
    (∀ c d : Chunk, c.Obtainable → Chunk.decode c.name c.encode = .ok d →
      (c.ieeeEq d ↔ ¬ c.HasNaN)) ∧
    ∀ (s : Source) (m : Module), s.compile = .ok m → ∀ c ∈ m.chunks,
      ∃ d, Chunk.decode c.name c.encode = .ok d ∧ c.ieeeEq d := by
  have hdecode (c : Chunk) (hc : c.Obtainable) : Chunk.decode c.name c.encode = .ok c :=
    Chunk.decode_encode hc.isRegular
  refine ⟨hdecode, fun name bytes c ↦ Chunk.encode_decode, ?_, ?_, ?_⟩
  · intro name x y c hc
    have happend := Chunk.decode_encode_append (Chunk.Obtainable.decoded hc).isRegular name y
    rw [(Chunk.encode_decode hc).2] at happend
    constructor
    · intro d hd
      rw [happend, hd]
      rfl
    · intro fault hfault
      rw [happend, hfault]
      rfl
  · intro c d hc hd
    obtain rfl := Except.ok.inj ((hdecode c hc).symm.trans hd)
    exact c.ieeeEq_self_iff
  · intro s m h c hc
    exact ⟨c, hdecode c (Source.obtainable_of_compile h c hc),
      c.ieeeEq_self_iff.mpr (Source.not_hasNaN_of_compile h c hc)⟩

/-- A NaN keeps its sign and its payload, and is not equal to itself. The number of a text is. -/
theorem Chunk.encode_decode_inverse_nan : ∃ c d : Chunk,
    (Chunk.decode "f" [4, 1, 0, 0, 0, 0, 0, 0xF0, 0xFF] = .ok c ∧
      c.encode = [4, 1, 0, 0, 0, 0, 0, 0xF0, 0xFF] ∧ Chunk.decode c.name c.encode = .ok c ∧
      ¬ c.ieeeEq c ∧
      Chunk.decode "f" [4, 1, 0, 0, 0, 0, 0, 0xF0, 0xFF, 6] = .ok ⟨"f", c.code ++ [.plain .ret]⟩ ∧
      Chunk.decode "f" [4, 1, 0, 0, 0, 0, 0, 0xF0, 0xFF, 8] = .error (.unknownOpcode 8 9)) ∧
    (Source.ofString "func f() \x7b return 1; \x7d").compile = .ok ⟨"main", [d]⟩ ∧
      ∃ e, Chunk.decode d.name d.encode = .ok e ∧ d.ieeeEq e := by
  have hdecode : Chunk.decode "f" [4, 1, 0, 0, 0, 0, 0, 0xF0, 0xFF]
      = .ok ⟨"f", [.constant ⟨0xFFF0000000000001⟩]⟩ := by
    decide +kernel
  have hret : Chunk.decode "f" [6] = .ok ⟨"f", [.plain .ret]⟩ := by
    decide +kernel
  have hunknown : Chunk.decode "f" [8] = .error (.unknownOpcode 8 0) := by
    decide +kernel
  have hcompile : (Source.ofString "func f() \x7b return 1; \x7d").compile
      = .ok ⟨"main", [⟨"f", [.constant ⟨0x3FF0000000000000⟩, .plain .ret]⟩]⟩ := by
    decide +kernel
  have hnan : Chunk.HasNaN ⟨"f", [.constant ⟨0xFFF0000000000001⟩]⟩ :=
    ⟨_, List.mem_singleton_self _, _, rfl, by decide⟩
  obtain ⟨hread, hwritten, happend, hequal, htext⟩ := Chunk.encode_decode_inverse
  have hself := hread _ (.decoded hdecode)
  refine ⟨_, _, ⟨hdecode, (hwritten _ _ _ hdecode).2, hself, ?_, ?_, ?_⟩, hcompile, ?_⟩
  · exact fun heq ↦ (hequal _ _ (.decoded hdecode) hself).mp heq hnan
  · exact (happend _ _ _ _ hdecode).1 _ hret
  · exact (happend _ _ _ _ hdecode).2 _ hunknown
  · exact htext _ _ hcompile _ (List.mem_singleton_self _)

end InfixCompiler
