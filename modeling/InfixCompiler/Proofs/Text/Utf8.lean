import InfixCompiler.Proofs.Text.Lines

/-!
# Lines and columns by bytes

The bytes of a text in UTF-8 can be cut anywhere, also inside a character. Counted on the bytes
before a place, lines are line end bytes, and columns are the characters that a decoder makes of the
bytes behind the last of these. The decoder gives one replacement character for each maximal
beginning of a character that is not finished, and one for each byte that begins nothing.

These counts are those of `Text.line` and `Text.column` (`line_bytes`, `column_bytes`). Three things
make them so: a byte that is a line end is the character, so that looking for it never splits
another one; whole characters are decoded to themselves; and what is left of a character that is
cut is one replacement character, wherever it is cut.

The decoder reads a byte at a time. Inside a character it holds the bits it has read and what the
next byte may be, and `Pending.Awaits` says that the bytes to come complete a given character: every
byte keeps this, and the last one gives the character.
-/

namespace InfixCompiler.Utf8

/-! ## The decoder -/

/-- What stands for bytes that are no character. -/
def replacement : Char := '\uFFFD'

/-- A character whose first bytes are read. -/
structure Pending where
  /-- The bits read. -/
  value : Nat
  /-- How many bytes there are behind the next one. -/
  owed : Nat
  /-- The least byte that may be next. -/
  low : Nat
  /-- The greatest byte that may be next. -/
  high : Nat

/-- The bits that a byte behind the first one adds. -/
def shift (value : Nat) (b : UInt8) : Nat := value * 64 + (b.toNat - 0x80)

/-- What a byte between characters is decoded to, and the character that it begins. Some first bytes
bound the second one, so that there are no long forms, no surrogates and nothing past the last
character. -/
def start (b : UInt8) : List Char × Option Pending :=
  let n := b.toNat
  if n < 0x80 then ([Char.ofNat n], none)
  else if n < 0xC2 then ([replacement], none)
  else if n < 0xE0 then ([], some ⟨n - 0xC0, 0, 0x80, 0xBF⟩)
  else if n < 0xF0 then
    ([], some ⟨n - 0xE0, 1, if n = 0xE0 then 0xA0 else 0x80, if n = 0xED then 0x9F else 0xBF⟩)
  else if n < 0xF5 then
    ([], some ⟨n - 0xF0, 2, if n = 0xF0 then 0x90 else 0x80, if n = 0xF4 then 0x8F else 0xBF⟩)
  else ([replacement], none)

/-- What a byte inside a character is decoded to, and the character that goes on. A byte that may
not be next is read again, between characters. -/
def Pending.feed (p : Pending) (b : UInt8) : List Char × Option Pending :=
  if p.low ≤ b.toNat ∧ b.toNat ≤ p.high then
    match p.owed with
    | 0 => ([Char.ofNat (shift p.value b)], none)
    | owed + 1 => ([], some ⟨shift p.value b, owed, 0x80, 0xBF⟩)
  else (replacement :: (start b).1, (start b).2)

/-- One byte, between characters or inside one. -/
def step : Option Pending → UInt8 → List Char × Option Pending
  | none, b => start b
  | some p, b => p.feed b

/-- The characters of the bytes from a state of the decoder on. -/
def decodeFrom : Option Pending → List UInt8 → List Char
  | none, [] => []
  | some _, [] => [replacement]
  | state, b :: bs => (step state b).1 ++ decodeFrom (step state b).2 bs

/-- The characters of any bytes. -/
def decode (bs : List UInt8) : List Char := decodeFrom none bs

example : decode [0x61, 0xE2, 0x82, 0x62, 0xFF, 0xF0, 0x9F] =
    ['a', replacement, 'b', replacement, replacement] := by decide

/-! ## A character that is read -/

/-- The bytes `b :: bs` complete the character `c`. -/
structure Pending.Awaits (p : Pending) (c : Char) (b : UInt8) (bs : List UInt8) : Prop where
  /-- They are as many as are owed. -/
  length_eq : bs.length = p.owed
  /-- The next byte is not too small. -/
  low_le : p.low ≤ b.toNat
  /-- The next byte is not too great. -/
  le_high : b.toNat ≤ p.high
  /-- All of them may be behind a first byte. -/
  trailing : ∀ b' ∈ b :: bs, 0x80 ≤ b'.toNat ∧ b'.toNat ≤ 0xBF
  /-- Their bits complete those of the character. -/
  value_eq : (b :: bs).foldl shift p.value = c.toNat

namespace Pending.Awaits

variable {p : Pending} {c : Char} {b b' : UInt8} {bs : List UInt8}

theorem feed_last (h : p.Awaits c b []) : p.feed b = ([c], none) := by
  have hvalue : shift p.value b = c.toNat := h.value_eq
  rw [feed, if_pos ⟨h.low_le, h.le_high⟩, ← h.length_eq]
  simp only [List.length_nil, hvalue, Char.ofNat_toNat]

theorem feed_cons (h : p.Awaits c b (b' :: bs)) :
    ∃ q, p.feed b = ([], some q) ∧ q.Awaits c b' bs := by
  have hbs := (List.forall_mem_cons.mp h.trailing).2
  have hb' := hbs b' List.mem_cons_self
  have hvalue := h.value_eq
  rw [List.foldl_cons] at hvalue
  refine ⟨⟨shift p.value b, bs.length, 0x80, 0xBF⟩, ?_, rfl, hb'.1, hb'.2, hbs, hvalue⟩
  rw [feed, if_pos ⟨h.low_le, h.le_high⟩, ← h.length_eq]
  rfl

/-- Read to its last byte, the character is decoded. -/
theorem decodeFrom_append (h : p.Awaits c b bs) (rest : List UInt8) :
    decodeFrom (some p) (b :: bs ++ rest) = c :: decodeFrom none rest := by
  induction bs generalizing p b with
  | nil =>
    rw [List.cons_append, decodeFrom, step, h.feed_last]
    rfl
  | cons b' bs ih =>
    obtain ⟨q, hq, hawaits⟩ := h.feed_cons
    rw [List.cons_append, decodeFrom, step, hq]
    exact ih hawaits

/-- Cut before its last byte, the character is replaced. -/
theorem decodeFrom_take (h : p.Awaits c b bs) {k : Nat} (hk : k ≤ bs.length) :
    decodeFrom (some p) ((b :: bs).take k) = [replacement] := by
  induction k generalizing p b bs with
  | zero => rfl
  | succ k ih =>
    cases bs with
    | nil => exact absurd hk (Nat.not_succ_le_zero k)
    | cons b' bs =>
      obtain ⟨q, hq, hawaits⟩ := h.feed_cons
      rw [List.take_succ_cons, decodeFrom, step, hq]
      exact ih hawaits (Nat.le_of_succ_le_succ hk)

end Pending.Awaits

/-! ## The bytes of a character -/

/-- The bytes are read as one character. -/
inductive Encodes (c : Char) : List UInt8 → Prop where
  /-- A single byte. -/
  | single {b : UInt8} : start b = ([c], none) → Encodes c [b]
  /-- A first byte and those that complete the character. -/
  | many {b b' : UInt8} {bs : List UInt8} {p : Pending} :
    start b = ([], some p) → p.Awaits c b' bs → Encodes c (b :: b' :: bs)

theorem start_of_lt_80 {b : UInt8} (h : b.toNat < 0x80) :
    start b = ([Char.ofNat b.toNat], none) := by
  simp only [start, if_pos h]

theorem start_of_lt_E0 {b : UInt8} (h : 0xC2 ≤ b.toNat) (h' : b.toNat < 0xE0) :
    start b = ([], some ⟨b.toNat - 0xC0, 0, 0x80, 0xBF⟩) := by
  simp only [start]
  rw [if_neg (by omega), if_neg (by omega), if_pos h']

theorem start_of_lt_F0 {b : UInt8} (h : 0xE0 ≤ b.toNat) (h' : b.toNat < 0xF0) :
    start b = ([], some ⟨b.toNat - 0xE0, 1, if b.toNat = 0xE0 then 0xA0 else 0x80,
      if b.toNat = 0xED then 0x9F else 0xBF⟩) := by
  simp only [start]
  rw [if_neg (by omega), if_neg (by omega), if_neg (by omega), if_pos h']

theorem start_of_lt_F5 {b : UInt8} (h : 0xF0 ≤ b.toNat) (h' : b.toNat < 0xF5) :
    start b = ([], some ⟨b.toNat - 0xF0, 2, if b.toNat = 0xF0 then 0x90 else 0x80,
      if b.toNat = 0xF4 then 0x8F else 0xBF⟩) := by
  simp only [start]
  rw [if_neg (by omega), if_neg (by omega), if_neg (by omega), if_neg (by omega), if_pos h']

/-- A byte behind the first one, with the last six bits of `n`. -/
def trailing (n : Nat) : UInt8 := UInt8.ofNat (n % 64 + 128)

theorem toNat_trailing (n : Nat) : (trailing n).toNat = n % 64 + 128 :=
  UInt8.toNat_ofNat_of_lt' (show n % 64 + 128 < 256 by omega)

theorem trailing_bounds (ns : List Nat) :
    ∀ b ∈ ns.map trailing, 0x80 ≤ b.toNat ∧ b.toNat ≤ 0xBF := by
  rw [List.forall_mem_map]
  intro n _
  rw [toNat_trailing]
  omega

theorem shift_trailing (value n : Nat) : shift value (trailing n) = value * 64 + n % 64 := by
  have hn := toNat_trailing n
  unfold shift
  omega

theorem encodes_utf8EncodeChar (c : Char) : Encodes c (String.utf8EncodeChar c) := by
  have hvalid : c.toNat < 0xD800 ∨ 0xDFFF < c.toNat ∧ c.toNat < 0x110000 := c.valid
  have hbyte {n : Nat} (hn : n < 256) : (UInt8.ofNat n).toNat = n := UInt8.toNat_ofNat_of_lt' hn
  rw [String.utf8EncodeChar]
  simp only [Char.toNat_val]
  split
  · have hb := hbyte (show c.toNat < 256 by omega)
    refine .single ?_
    rw [start_of_lt_80 (by omega), hb, Char.ofNat_toNat]
  split
  · have hb := hbyte (show c.toNat / 64 % 32 + 192 < 256 by omega)
    have hbounds := trailing_bounds [c.toNat]
    change Encodes c (_ :: [c.toNat].map trailing)
    refine .many (start_of_lt_E0 (by omega) (by omega)) ⟨rfl, ?_, ?_, hbounds, ?_⟩
    · simp only [toNat_trailing]
      omega
    · simp only [toNat_trailing]
      omega
    · simp only [List.map, List.foldl, shift_trailing, hb]
      omega
  split
  · have hb := hbyte (show c.toNat / 4096 % 16 + 224 < 256 by omega)
    have hbounds := trailing_bounds [c.toNat / 64, c.toNat]
    change Encodes c (_ :: [c.toNat / 64, c.toNat].map trailing)
    refine .many (start_of_lt_F0 (by omega) (by omega)) ⟨rfl, ?_, ?_, hbounds, ?_⟩
    · simp only [hb, toNat_trailing]
      split <;> omega
    · simp only [hb, toNat_trailing]
      split <;> omega
    · simp only [List.map, List.foldl, shift_trailing, hb]
      omega
  · have hb := hbyte (show c.toNat / 262144 % 8 + 240 < 256 by omega)
    have hbounds := trailing_bounds [c.toNat / 4096, c.toNat / 64, c.toNat]
    change Encodes c (_ :: [c.toNat / 4096, c.toNat / 64, c.toNat].map trailing)
    refine .many (start_of_lt_F5 (by omega) (by omega)) ⟨rfl, ?_, ?_, hbounds, ?_⟩
    · simp only [hb, toNat_trailing]
      split <;> omega
    · simp only [hb, toNat_trailing]
      split <;> omega
    · simp only [List.map, List.foldl, shift_trailing, hb]
      omega

variable {c : Char} {bs piece : List UInt8}

/-- Whole, the character is decoded. -/
theorem Encodes.decode_append (h : Encodes c bs) (rest : List UInt8) :
    decode (bs ++ rest) = c :: decode rest := by
  cases h with
  | single hstart =>
    rw [List.singleton_append, decode, decodeFrom, step, hstart]
    rfl
  | many hstart hawaits =>
    rw [List.cons_append, decode, decodeFrom, step, hstart]
    exact hawaits.decodeFrom_append rest

/-- Cut anywhere inside, it is replaced. -/
theorem Encodes.decode_take (h : Encodes c bs) {k : Nat} (hk : k + 1 < bs.length) :
    decode (bs.take (k + 1)) = [replacement] := by
  cases h with
  | single => exact absurd hk (by simp)
  | many hstart hawaits =>
    rw [List.take_succ_cons, decode, decodeFrom, step, hstart]
    exact hawaits.decodeFrom_take (Nat.le_of_lt_succ (Nat.lt_of_succ_lt_succ hk))

/-- The byte that ends a line. -/
def newline : UInt8 := 10

/-- The line end is the only character with the byte of the line end. -/
theorem Encodes.eq_newline (h : Encodes c bs) (hmem : newline ∈ bs) : c = '\n' := by
  cases h with
  | single hstart =>
    obtain rfl := List.mem_singleton.mp hmem
    cases hstart
    rfl
  | many hstart hawaits =>
    rcases List.mem_cons.mp hmem with rfl | hmem
    · cases hstart
    · exact absurd (hawaits.trailing newline hmem).1 (by decide)

/-! ## The bytes of a text -/

/-- The text in UTF-8. -/
def bytes (cs : List Char) : List UInt8 := cs.flatMap String.utf8EncodeChar

theorem bytes_cons (c : Char) (cs : List Char) :
    bytes (c :: cs) = String.utf8EncodeChar c ++ bytes cs := List.flatMap_cons

theorem bytes_append (cs ds : List Char) : bytes (cs ++ ds) = bytes cs ++ bytes ds :=
  List.flatMap_append

theorem length_bytes (cs : List Char) : (bytes cs).length = Text.byteLength cs := by
  induction cs with
  | nil => rfl
  | cons c cs ih =>
    rw [bytes_cons, List.length_append, String.length_utf8EncodeChar, ih, Text.byteLength_cons]

/-- Whole characters are decoded to themselves, whatever is behind them. -/
theorem decode_bytes_append (cs : List Char) (rest : List UInt8) :
    decode (bytes cs ++ rest) = cs ++ decode rest := by
  induction cs with
  | nil => rfl
  | cons c cs ih =>
    rw [bytes_cons, List.append_assoc, (encodes_utf8EncodeChar c).decode_append, ih,
      List.cons_append]

theorem count_bytes (cs : List Char) : (bytes cs).count newline = cs.count '\n' := by
  induction cs with
  | nil => rfl
  | cons c cs ih =>
    rw [bytes_cons, List.count_append, ih]
    by_cases hc : c = '\n'
    · subst hc
      rw [List.count_cons_self, Nat.add_comm]
      rfl
    · rw [List.count_cons_of_ne hc, List.count_eq_zero.mpr
        fun hmem ↦ hc ((encodes_utf8EncodeChar c).eq_newline hmem), Nat.zero_add]

/-! ## A cut in the bytes -/

/-- The first bytes of a character, not all of them. -/
def IsPieceOf (piece : List UInt8) (c : Char) : Prop :=
  ∃ k, k + 1 < c.utf8Size ∧ piece = (String.utf8EncodeChar c).take (k + 1)

theorem IsPieceOf.decode_eq (h : IsPieceOf piece c) : decode piece = [replacement] := by
  obtain ⟨k, hk, rfl⟩ := h
  rw [← String.length_utf8EncodeChar] at hk
  exact (encodes_utf8EncodeChar c).decode_take hk

theorem IsPieceOf.ne_newline (h : IsPieceOf piece c) : c ≠ '\n' := by
  obtain ⟨k, hk, -⟩ := h
  rintro rfl
  exact absurd (show k + 1 < 1 from hk) (by omega)

theorem IsPieceOf.newline_notMem_singleton (h : IsPieceOf piece c) : '\n' ∉ [c] :=
  List.mem_singleton.not.mpr h.ne_newline.symm

theorem IsPieceOf.newline_notMem (h : IsPieceOf piece c) : newline ∉ piece := by
  intro hmem
  have hne := h.ne_newline
  obtain ⟨k, -, rfl⟩ := h
  exact hne ((encodes_utf8EncodeChar c).eq_newline (List.mem_of_mem_take hmem))

/-- A cut leaves the characters that start before it, the last of them perhaps not whole. -/
theorem take_bytes (i : Nat) (cs : List Char) :
    (bytes cs).take i = bytes (Text.before i cs) ∨
      ∃ front c piece, Text.before i cs = front ++ [c] ∧ IsPieceOf piece c ∧
        (bytes cs).take i = bytes front ++ piece := by
  induction cs generalizing i with
  | nil => exact .inl List.take_nil
  | cons c cs ih =>
    cases i with
    | zero => exact .inl (by rw [Text.before_zero]; rfl)
    | succ i =>
      have hlength := String.length_utf8EncodeChar c
      rcases Nat.lt_or_ge (i + 1) c.utf8Size with hlt | hge
      · refine .inr ⟨[], c, (String.utf8EncodeChar c).take (i + 1), ?_, ⟨i, hlt, rfl⟩, ?_⟩
        · rw [Text.before, Nat.sub_eq_zero_of_le hlt.le, Text.before_zero, List.nil_append]
        · rw [bytes_cons, List.take_append_of_le_length (hlength ▸ hlt.le)]
          rfl
      · have htake : (bytes (c :: cs)).take (i + 1) =
            String.utf8EncodeChar c ++ (bytes cs).take (i + 1 - c.utf8Size) := by
          rw [bytes_cons, List.take_append, List.take_of_length_le (hlength ▸ hge), hlength]
        rcases ih (i + 1 - c.utf8Size) with hwhole | ⟨front, d, piece, hbefore, hpiece, hcut⟩
        · exact .inl (by rw [htake, hwhole, Text.before, bytes_cons])
        · refine .inr ⟨c :: front, d, piece, ?_, hpiece, ?_⟩
          · rw [Text.before, hbefore, List.cons_append]
          · rw [htake, hcut, bytes_cons, List.append_assoc]

/-! ## Counting -/

/-- The number of lines that end before byte `i`. -/
def line (i : Nat) (bs : List UInt8) : Nat := (bs.take i).count newline

/-- The number of characters between the start of its line and byte `i`. -/
def column (i : Nat) (bs : List UInt8) : Nat :=
  (decode ((bs.take i).rtakeWhile (· != newline))).length

/-- The last line of the bytes is that of the characters, with what is behind them. -/
theorem rtakeWhile_bytes (front : List Char) (h : newline ∉ piece) :
    (bytes front ++ piece).rtakeWhile (· != newline) = bytes (Text.lineBefore front) ++ piece := by
  have hlines : (bytes (Text.linesBefore front)).rtakeWhile (· != newline) = [] := by
    rcases (Text.isLineOf_cut front []).begins with hnil | ⟨earlier, hearlier⟩
    · rw [hnil]
      rfl
    · rw [hearlier, bytes_append]
      exact List.rtakeWhile_concat_neg _ _ newline (by decide)
  have hline : newline ∉ bytes (Text.lineBefore front) := by
    rw [← List.count_eq_zero, count_bytes, List.count_eq_zero]
    exact Text.newline_notMem_lineBefore front
  have hrest : ∀ b ∈ bytes (Text.lineBefore front) ++ piece, (b != newline) = true := by
    intro b hb
    rw [bne_iff_ne]
    rintro rfl
    exact (List.mem_append.mp hb).elim hline h
  calc (bytes front ++ piece).rtakeWhile (· != newline)
      = (bytes (Text.linesBefore front) ++ (bytes (Text.lineBefore front) ++ piece)).rtakeWhile
          (· != newline) := by
        rw [← List.append_assoc, ← bytes_append, Text.linesBefore_append_lineBefore]
    _ = bytes (Text.lineBefore front) ++ piece := by
        rw [Text.rtakeWhile_append_of_pos hrest, hlines, List.nil_append]

theorem line_bytes (i : Nat) (cs : List Char) : line i (bytes cs) = Text.line i cs := by
  rw [line, Text.line]
  rcases take_bytes i cs with hwhole | ⟨front, c, piece, hbefore, hpiece, hcut⟩
  · rw [hwhole, count_bytes]
  · rw [hcut, hbefore, List.count_append, List.count_append, count_bytes,
      List.count_eq_zero.mpr hpiece.newline_notMem,
      List.count_eq_zero.mpr hpiece.newline_notMem_singleton]

theorem column_bytes (i : Nat) (cs : List Char) : column i (bytes cs) = Text.column i cs := by
  rw [column, ← Text.length_lineBefore]
  rcases take_bytes i cs with hwhole | ⟨front, c, piece, hbefore, hpiece, hcut⟩
  · rw [hwhole, ← List.append_nil (bytes _), rtakeWhile_bytes _ List.not_mem_nil,
      decode_bytes_append, List.length_append]
    rfl
  · rw [hcut, hbefore, rtakeWhile_bytes front hpiece.newline_notMem, decode_bytes_append,
      hpiece.decode_eq, Text.lineBefore_append hpiece.newline_notMem_singleton,
      List.length_append, List.length_append]
    rfl

end InfixCompiler.Utf8
