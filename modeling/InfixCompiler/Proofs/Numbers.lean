import InfixCompiler.Binary64.Shortest
import InfixCompiler.Proofs.Encoding
import InfixCompiler.Proofs.Text.Rows
import Mathlib.Data.List.DropRight

/-!
# Printed numbers are read back

A number is printed as the shortest decimal that was tried and read back, and if there is none,
exactly. The first kind is read as the number by the test that it passed. For the second, a number
is a whole number of the smallest units, so that the exact decimal is a ratio to which no rounding
is done (`nearest_eq`), and it is in the range of the decimals that are rounded at all
(`nearestDecimal_eq`). Neither part needs that a shortest decimal is found.

So different numbers are printed differently (`render_injective`). Those that are no numbers are
printed alike.
-/

namespace InfixCompiler.Binary64

/-! ## Numbers and their units -/

variable {x : Binary64}

/-- The magnitude without its exponent. -/
def significand (x : Binary64) : Nat := x.magnitude - x.shift * 2 ^ fractionWidth

theorem shift_add_significand (x : Binary64) :
    x.shift * 2 ^ fractionWidth + x.significand = x.magnitude := by
  have hle : x.shift * 2 ^ fractionWidth ≤ x.magnitude :=
    (Nat.mul_le_mul_right _ (Nat.sub_le _ 1)).trans (Nat.div_mul_le_self _ _)
  rw [significand, Nat.add_sub_cancel' hle]

theorem units_eq (x : Binary64) : x.units = x.significand * 2 ^ x.shift := rfl

/-- The significand has 53 bits at most, and exactly so many if there is an exponent. -/
theorem significand_bounds (x : Binary64) :
    x.significand < 2 * 2 ^ fractionWidth ∧ (x.shift = 0 ∨ 2 ^ fractionWidth ≤ x.significand) := by
  have hpos : 0 < 2 ^ fractionWidth := Nat.two_pow_pos _
  have hsum := x.shift_add_significand
  have hdiv := Nat.div_add_mod x.magnitude (2 ^ fractionWidth)
  have hmod := Nat.mod_lt x.magnitude hpos
  have hshift : x.shift = x.magnitude / 2 ^ fractionWidth - 1 := rfl
  generalize 2 ^ fractionWidth = one at *
  generalize x.magnitude / one = exponent at *
  rw [Nat.mul_comm] at hsum
  rcases exponent with _ | exponent
  · rw [hshift, Nat.zero_sub, Nat.mul_zero, Nat.zero_add] at hsum
    rw [Nat.mul_zero, Nat.zero_add] at hdiv
    exact ⟨by omega, .inl hshift⟩
  · rw [hshift, Nat.add_sub_cancel] at hsum ⊢
    rw [Nat.mul_add, Nat.mul_one] at hdiv
    omega

theorem log2_units (x : Binary64) : x.units.log2 - fractionWidth = x.shift := by
  obtain ⟨hlt, hge⟩ := x.significand_bounds
  rw [← Nat.pow_succ'] at hlt
  rw [units_eq]
  rcases hge with hzero | hge
  · rw [hzero, Nat.pow_zero, Nat.mul_one]
    by_cases hne : x.significand = 0
    · rw [hne]
      rfl
    · have := (Nat.log2_lt hne).mpr hlt
      omega
  · have hpos : 0 < 2 ^ x.shift := Nat.two_pow_pos _
    have hne : x.significand * 2 ^ x.shift ≠ 0 :=
      (Nat.mul_pos (Nat.lt_of_lt_of_le (Nat.two_pow_pos _) hge) hpos).ne'
    have hlog : (x.significand * 2 ^ x.shift).log2 = fractionWidth + x.shift := by
      rw [Nat.log2_eq_iff hne]
      constructor
      · rw [Nat.pow_add]
        exact Nat.mul_le_mul_right _ hge
      · rw [Nat.add_right_comm, Nat.pow_add]
        exact Nat.mul_lt_mul_of_pos_right hlt hpos
    rw [hlog, Nat.add_sub_cancel_left]

theorem divideToEven_mul (quotient : Nat) {den : Nat} (h : 0 < den) :
    divideToEven (quotient * den) den = quotient := by
  unfold divideToEven
  rw [Nat.mul_div_cancel _ h, Nat.mul_mod_left]
  exact if_pos h

/-- A ratio that is a number is rounded to it. -/
theorem nearest_eq {num den : Nat} (hx : x.magnitude ≤ infinityBits) (hden : 0 < den)
    (h : num * 2 ^ unitExponent = x.units * den) : nearest num den = ofMagnitude x.magnitude := by
  have hsignificand : divideToEven (x.units * den) (den * 2 ^ x.shift) = x.significand := by
    rw [units_eq, Nat.mul_assoc, Nat.mul_comm (2 ^ x.shift)]
    exact divideToEven_mul _ (Nat.mul_pos hden (Nat.two_pow_pos _))
  unfold nearest
  dsimp only
  rw [h, Nat.mul_div_cancel _ hden, log2_units, hsignificand, shift_add_significand,
    Nat.min_eq_left hx]

/-! ## Decimals -/

theorem isDigit_of_mem_paddedDigits {width n : Nat} {c : Char} (h : c ∈ paddedDigits width n) :
    c.isDigit := by
  rcases List.mem_append.mp h with h | h
  · rw [List.eq_of_mem_replicate h]
    rfl
  · exact Text.isDigit_of_mem_toDigits h

theorem le_length_paddedDigits (width n : Nat) : width ≤ (paddedDigits width n).length := by
  rw [paddedDigits, List.length_append, List.length_replicate]
  omega

theorem digitsValue_append (cs ds : List Char) :
    digitsValue (cs ++ ds) = 10 ^ ds.length * digitsValue cs + digitsValue ds := by
  rw [digitsValue, Nat.ofDigitChars_append, Nat.ofDigitChars_eq_ofDigitChars_zero]
  rfl

theorem digitsValue_zeros (n : Nat) : digitsValue (List.replicate n '0') = 0 := by
  rw [digitsValue, Nat.ofDigitChars_replicate_zero, Nat.mul_zero]

theorem digitsValue_paddedDigits (width n : Nat) : digitsValue (paddedDigits width n) = n := by
  rw [paddedDigits, digitsValue_append, digitsValue_zeros, Nat.mul_zero, Nat.zero_add, digitsValue,
    Nat.ofDigitChars_toDigits (by omega) le_rfl]

/-- The digits of a fraction behind a point, which is not there without digits. -/
def pointed : List Char → List Char
  | [] => []
  | digits => '.' :: digits

/-- The parts of a decimal. -/
structure IsDecimal (digits places : Nat) (whole fraction : List Char) : Prop where
  /-- There is a digit before the point. -/
  ne_nil : whole ≠ []
  /-- What is before the point are digits. -/
  whole_isDigit : ∀ c ∈ whole, c.isDigit
  /-- What is after the point are digits. -/
  fraction_isDigit : ∀ c ∈ fraction, c.isDigit
  /-- There are no more places than asked for, and those that are missing would be zeros. -/
  value_eq : ∃ zeros, fraction.length + zeros = places ∧
    digitsValue (whole ++ fraction) * 10 ^ zeros = digits

/-- The digits without the zeros that end them. -/
def significant (digits : List Char) : List Char := digits.rdropWhile (· == '0')

theorem exists_zeros (digits : List Char) :
    ∃ zeros, digits = significant digits ++ List.replicate zeros '0' := by
  refine ⟨(digits.rtakeWhile (· == '0')).length, ?_⟩
  have hzeros : ∀ c ∈ digits.rtakeWhile (· == '0'), c = '0' := fun c hc ↦
    beq_iff_eq.mp (List.mem_rtakeWhile_imp (p := (· == '0')) hc)
  rw [← List.eq_replicate_iff.mpr ⟨rfl, hzeros⟩]
  exact List.rdropWhile_append_rtakeWhile.symm

theorem fractionText_eq (digits : List Char) :
    fractionText digits = pointed (significant digits) := by
  unfold fractionText
  change (match significant digits with | [] => [] | significant => '.' :: significant) = _
  cases significant digits <;> rfl

theorem exists_isDecimal (digits places : Nat) : ∃ whole fraction,
    IsDecimal digits places whole fraction ∧
      decimalText digits places = whole ++ pointed fraction := by
  let all := paddedDigits (places + 1) digits
  have hlength : places + 1 ≤ all.length := le_length_paddedDigits _ _
  have hdigit : ∀ c ∈ all, c.isDigit := fun c ↦ isDigit_of_mem_paddedDigits
  have hvalue : digitsValue all = digits := digitsValue_paddedDigits _ _
  let whole := all.take (all.length - places)
  let tail := all.drop (all.length - places)
  have hsplit : whole ++ tail = all := List.take_append_drop _ _
  have htext : decimalText digits places = whole ++ pointed (significant tail) :=
    congrArg (whole ++ ·) (fractionText_eq tail)
  obtain ⟨zeros, hzeros⟩ := exists_zeros tail
  refine ⟨whole, significant tail, ⟨?_, ?_, ?_, zeros, ?_, ?_⟩, htext⟩
  · rw [← List.length_pos_iff, List.length_take]
    omega
  · exact fun c hc ↦ hdigit c (List.mem_of_mem_take hc)
  · exact fun c hc ↦ hdigit c (List.mem_of_mem_drop ((List.rdropWhile_prefix _ _).subset hc))
  · have htail : tail.length = places := by
      rw [List.length_drop]
      omega
    rw [hzeros, List.length_append, List.length_replicate] at htail
    exact htail
  · rw [← hsplit, hzeros, ← List.append_assoc, digitsValue_append, digitsValue_zeros,
      List.length_replicate, Nat.add_zero, Nat.mul_comm] at hvalue
    exact hvalue

/-! ## Reading decimals -/

variable {digits places : Nat} {whole fraction : List Char}

theorem spanDigits_append {rest : List Char} (h : ∀ c ∈ whole, c.isDigit)
    (hrest : ∀ c ∈ rest.head?, ¬ c.isDigit) : spanDigits (whole ++ rest) = (whole, rest) := by
  rw [spanDigits, List.takeWhile_append_of_pos h, List.dropWhile_append_of_pos h]
  cases rest with
  | nil => rw [List.takeWhile_nil, List.append_nil, List.dropWhile_nil]
  | cons c rest =>
    have hc : ¬ c.isDigit := hrest c rfl
    rw [List.takeWhile_cons_of_neg hc, List.append_nil, List.dropWhile_cons_of_neg hc]

theorem takeFraction_pointed (h : ∀ c ∈ fraction, c.isDigit) :
    takeFraction (pointed fraction) = (fraction, []) := by
  cases fraction with
  | nil => rfl
  | cons c cs =>
    have hspan : spanDigits (c :: cs ++ []) = (c :: cs, []) := spanDigits_append h nofun
    rwa [List.append_nil] at hspan

theorem not_isDigit_head?_pointed (fraction : List Char) :
    ∀ c ∈ (pointed fraction).head?, ¬ c.isDigit := by
  cases fraction with
  | nil => exact nofun
  | cons d ds =>
    intro c hc
    obtain rfl : '.' = c := Option.some.inj hc
    decide

theorem IsDecimal.read?_eq (h : IsDecimal digits places whole fraction) :
    read? (whole ++ pointed fraction) =
      some (nearestDecimal (digitsValue (whole ++ fraction)) (-fraction.length)) := by
  have hread : readDecimal? (whole ++ pointed fraction) =
      some (nearestDecimal (digitsValue (whole ++ fraction)) (-fraction.length)) := by
    unfold readDecimal?
    rw [spanDigits_append h.whole_isDigit (not_isDigit_head?_pointed fraction)]
    dsimp only
    rw [takeFraction_pointed h.fraction_isDigit]
    dsimp only
    rw [if_neg (List.append_ne_nil_of_left_ne_nil h.ne_nil _), exponent?, Option.map_some,
      Int.zero_sub]
  obtain ⟨c, cs, hcs⟩ := List.exists_cons_of_ne_nil h.ne_nil
  have hc : c.isDigit := h.whole_isDigit c (hcs ▸ List.mem_cons_self)
  rw [← hread, hcs, List.cons_append]
  exact read?_of_isDigit hc _

/-! ## Exact decimals -/

theorem two_pow_le_ten_pow {n k : Nat} (h : n ≤ 3 * k) : 2 ^ n ≤ 10 ^ k := calc
  2 ^ n ≤ 2 ^ (3 * k) := Nat.pow_le_pow_right (by omega) h
  _ = (2 ^ 3) ^ k := Nat.pow_mul 2 3 k
  _ ≤ 10 ^ k := Nat.pow_le_pow_left (by decide) k

theorem magnitude_eq_zero (h : x.units = 0) : x.magnitude = 0 := by
  have hsignificand : x.significand = 0 :=
    (Nat.mul_eq_zero.mp h).resolve_right (Nat.two_pow_pos _).ne'
  have hshift : x.shift = 0 := x.significand_bounds.2.resolve_right fun hle ↦
    absurd hle (by rw [hsignificand]; exact Nat.not_le.mpr (Nat.two_pow_pos _))
  rw [← x.shift_add_significand, hshift, hsignificand, Nat.zero_mul]

section Range

variable {k : Nat} (hk : 400 ≤ k)
include hk

theorem units_lt (hx : x.magnitude < infinityBits) : x.units < 10 ^ k * 2 ^ unitExponent := by
  have hexponent : x.magnitude / 2 ^ fractionWidth < 2047 :=
    Nat.div_lt_of_lt_mul (hx.trans_le (by decide))
  have hshift : fractionWidth + 1 + x.shift ≤ 3 * k + unitExponent := by
    have hle : x.shift ≤ x.magnitude / 2 ^ fractionWidth := Nat.sub_le _ 1
    change 52 + 1 + _ ≤ _ + 1074
    omega
  calc x.units
      = x.significand * 2 ^ x.shift := x.units_eq
    _ < 2 ^ (fractionWidth + 1) * 2 ^ x.shift :=
        Nat.mul_lt_mul_of_pos_right (by rw [Nat.pow_succ']; exact x.significand_bounds.1)
          (Nat.two_pow_pos _)
    _ = 2 ^ (fractionWidth + 1 + x.shift) := (Nat.pow_add 2 _ _).symm
    _ ≤ 2 ^ (3 * k + unitExponent) := Nat.pow_le_pow_right (by omega) hshift
    _ = 2 ^ (3 * k) * 2 ^ unitExponent := Nat.pow_add 2 _ _
    _ ≤ 10 ^ k * 2 ^ unitExponent := Nat.mul_le_mul_right _ (two_pow_le_ten_pow le_rfl)

variable (h : digits * 2 ^ unitExponent = x.units * 10 ^ places)
include h

theorem length_toDigits_le (hx : x.magnitude < infinityBits) :
    (Nat.toDigits 10 digits).length ≤ places + k := by
  rw [Nat.length_toDigits_le_iff (by omega) (by omega)]
  have hunits : x.units * 10 ^ places < 10 ^ k * 2 ^ unitExponent * 10 ^ places :=
    Nat.mul_lt_mul_of_pos_right (units_lt hk hx) (Nat.pow_pos (by omega))
  rw [← h, Nat.mul_right_comm, ← Nat.pow_add, Nat.add_comm k] at hunits
  exact Nat.lt_of_mul_lt_mul_right hunits

theorem le_length_toDigits (hne : digits ≠ 0) : places ≤ (Nat.toDigits 10 digits).length + k := by
  have hdigits := (Nat.length_toDigits_le_iff (b := 10) (n := digits) (by omega)
    Nat.length_toDigits_pos).mp le_rfl
  have hunit := Nat.two_pow_pos unitExponent
  have hrange : 2 ^ unitExponent ≤ 10 ^ k := two_pow_le_ten_pow (show 1074 ≤ 3 * k by omega)
  generalize (Nat.toDigits 10 digits).length = count at *
  generalize 2 ^ unitExponent = unit at *
  have hunits : 0 < x.units := by
    refine Nat.pos_of_ne_zero fun hzero ↦ hne ?_
    rw [hzero, Nat.zero_mul] at h
    exact (Nat.mul_eq_zero.mp h).resolve_right hunit.ne'
  by_contra hlt
  have hpower : 10 ^ (count + k) < 10 ^ (count + k) := calc
    10 ^ (count + k) ≤ 10 ^ places := Nat.pow_le_pow_right (by omega) (by omega)
    _ ≤ digits * unit := h ▸ Nat.le_mul_of_pos_left _ hunits
    _ < 10 ^ count * unit := Nat.mul_lt_mul_of_pos_right hdigits hunit
    _ ≤ 10 ^ count * 10 ^ k := Nat.mul_le_mul_left _ hrange
    _ = 10 ^ (count + k) := (Nat.pow_add 10 _ _).symm
  exact Nat.lt_irrefl _ hpower

end Range

/-- A decimal that is a number is rounded to it: none is out of the range of decimals that are
rounded. -/
theorem nearestDecimal_eq (hx : x.magnitude < infinityBits)
    (h : digits * 2 ^ unitExponent = x.units * 10 ^ places) :
    nearestDecimal digits (-places) = ofMagnitude x.magnitude := by
  have hten : 0 < 10 ^ places := Nat.pow_pos (by omega)
  unfold nearestDecimal
  by_cases hzero : digits = 0
  · have hunits : x.units = 0 := by
      rw [hzero, Nat.zero_mul] at h
      exact (Nat.mul_eq_zero.mp h.symm).resolve_right hten.ne'
    rw [if_pos hzero, magnitude_eq_zero hunits]
    rfl
  have hle := length_toDigits_le le_rfl h hx
  have hge := le_length_toDigits le_rfl h hzero
  rw [if_neg hzero]
  dsimp only
  rw [if_neg (by omega), if_neg (by omega)]
  split
  · next hplaces =>
    obtain rfl : places = 0 := by omega
    rw [Nat.pow_zero] at h
    rw [Int.natCast_zero, Int.neg_zero, Int.toNat_zero, Nat.pow_zero, Nat.mul_one]
    exact nearest_eq hx.le Nat.one_pos h
  · rw [Int.neg_neg, Int.toNat_natCast]
    exact nearest_eq hx.le hten h

theorem IsDecimal.digitsValue_mul {n : Nat}
    (h : IsDecimal (n * 5 ^ places) places whole fraction) :
    digitsValue (whole ++ fraction) * 2 ^ places = n * 10 ^ fraction.length := by
  obtain ⟨zeros, hlength, hvalue⟩ := h.value_eq
  refine Nat.eq_of_mul_eq_mul_right (Nat.pow_pos (n := zeros) (show 0 < 10 by omega)) ?_
  calc digitsValue (whole ++ fraction) * 2 ^ places * 10 ^ zeros
      = n * 5 ^ places * 2 ^ places := by rw [Nat.mul_right_comm, hvalue]
    _ = n * 10 ^ places := by rw [Nat.mul_assoc, ← Nat.mul_pow]
    _ = n * 10 ^ fraction.length * 10 ^ zeros := by rw [← hlength, Nat.pow_add, Nat.mul_assoc]

theorem exact_eq (x : Binary64) :
    x.exact = decimalText (x.units * 5 ^ unitExponent) unitExponent := rfl

theorem read?_exact (hx : x.magnitude < infinityBits) :
    read? x.exact = some (ofMagnitude x.magnitude) := by
  obtain ⟨whole, fraction, h, htext⟩ := exists_isDecimal (x.units * 5 ^ unitExponent) unitExponent
  rw [exact, htext, h.read?_eq, nearestDecimal_eq hx h.digitsValue_mul]

/-! ## Printed numbers -/

/-- A finite magnitude is printed as a decimal that was tried, or exactly. -/
theorem renderMagnitude_of_not_isInfinite (h : ¬ x.isInfinite) :
    x.renderMagnitude = x.exact ∨ ∃ count, x.decimalOf? count = some x.renderMagnitude := by
  rw [renderMagnitude, if_neg h]
  cases htext : (List.range' 1 17).findSome? x.decimalOf? with
  | none => exact .inl (Option.getD_none ..)
  | some text =>
    obtain ⟨count, -, hcount⟩ := List.exists_of_findSome?_eq_some htext
    exact .inr ⟨count, hcount⟩

theorem exists_positional_of_mem_neighbours {exponent : Int} {text : List Char}
    (h : text ∈ x.neighbours exponent) : ∃ digits, positional digits exponent = text := by
  unfold neighbours at h
  generalize x.ratio exponent = ratio at h
  obtain ⟨digits, -, htext⟩ := List.mem_map.mp h
  exact ⟨digits, htext⟩

theorem exists_decimalText_of_positional (digits : Nat) (exponent : Int) :
    ∃ digits' places, positional digits exponent = decimalText digits' places := by
  unfold positional
  split
  · exact ⟨_, _, rfl⟩
  · exact ⟨_, _, rfl⟩

/-- What is printed without a sign is a name or a decimal. -/
theorem renderMagnitude_cases (x : Binary64) : x.renderMagnitude = ['i', 'n', 'f'] ∨
    ∃ digits places, x.renderMagnitude = decimalText digits places := by
  by_cases h : x.isInfinite
  · exact .inl (if_pos h)
  · refine .inr ?_
    rcases renderMagnitude_of_not_isInfinite h with htext | ⟨count, htext⟩
    · exact ⟨x.units * 5 ^ unitExponent, unitExponent, htext.trans x.exact_eq⟩
    · obtain ⟨digits, hpositional⟩ :=
        exists_positional_of_mem_neighbours (List.mem_of_find?_eq_some htext)
      rw [← hpositional]
      exact exists_decimalText_of_positional digits _

/-- The characters of a printed magnitude. -/
def IsPrinted (c : Char) : Prop := c.isDigit ∨ c ∈ ['.', 'i', 'n', 'f']

theorem isPrinted_of_mem_decimalText {c : Char} (h : c ∈ decimalText digits places) :
    IsPrinted c := by
  obtain ⟨whole, fraction, hdecimal, htext⟩ := exists_isDecimal digits places
  rw [htext, List.mem_append] at h
  rcases h with h | h
  · exact .inl (hdecimal.whole_isDigit c h)
  · cases fraction with
    | nil => exact absurd h List.not_mem_nil
    | cons d ds =>
      rcases List.mem_cons.mp h with rfl | h
      · exact .inr (by decide)
      · exact .inl (hdecimal.fraction_isDigit c h)

theorem isPrinted_of_mem_renderMagnitude {c : Char} (h : c ∈ x.renderMagnitude) : IsPrinted c := by
  rcases x.renderMagnitude_cases with htext | ⟨digits, places, htext⟩
  · rw [htext] at h
    exact .inr (List.mem_cons_of_mem _ h)
  · exact isPrinted_of_mem_decimalText (htext ▸ h)

theorem read?_renderMagnitude (hx : ¬ x.isNaN) :
    read? x.renderMagnitude = some (ofMagnitude x.magnitude) := by
  have hle : x.magnitude ≤ infinityBits := by simpa [isNaN] using hx
  by_cases h : x.isInfinite
  · rw [renderMagnitude, if_pos h, beq_iff_eq.mp h]
    rfl
  · rcases renderMagnitude_of_not_isInfinite h with htext | ⟨count, htext⟩
    · rw [htext]
      exact read?_exact (lt_of_le_of_ne hle fun heq ↦ h (beq_iff_eq.mpr heq))
    · have hread := List.find?_some htext
      exact of_decide_eq_true hread

theorem takeSign_renderMagnitude (x : Binary64) :
    takeSign x.renderMagnitude = (false, x.renderMagnitude) := by
  have hsign : ∀ c ∈ x.renderMagnitude, c ≠ '-' ∧ c ≠ '+' := by
    intro c hc
    constructor
    · rintro rfl
      exact absurd (isPrinted_of_mem_renderMagnitude hc) (by unfold IsPrinted; decide)
    · rintro rfl
      exact absurd (isPrinted_of_mem_renderMagnitude hc) (by unfold IsPrinted; decide)
  unfold takeSign
  split
  · next heq => exact absurd rfl (hsign '-' (heq ▸ List.mem_cons_self)).1
  · next heq => exact absurd rfl (hsign '+' (heq ▸ List.mem_cons_self)).2
  · rfl

theorem readUnsigned?_renderMagnitude (hx : ¬ x.isNaN) :
    readUnsigned? x.renderMagnitude = some (ofMagnitude x.magnitude) := by
  have hread := read?_renderMagnitude hx
  rw [read?, takeSign_renderMagnitude] at hread
  simpa using hread

theorem ofMagnitude_magnitude (h : ¬ x.isNegative) : ofMagnitude x.magnitude = x := by
  have hlt : x.bits.toNat < 2 ^ signPlace := by simpa [isNegative] using h
  rw [ofMagnitude, magnitude, Nat.mod_eq_of_lt hlt, UInt64.ofNat_toNat]

/-- The sign is the bit above the magnitude, so it is set by turning it over. -/
theorem negate_ofMagnitude_magnitude (h : x.isNegative) : (ofMagnitude x.magnitude).negate = x := by
  have hge : 2 ^ signPlace ≤ x.bits.toNat := of_decide_eq_true h
  have hlt : x.bits.toNat < 2 ^ signPlace * 2 := x.bits.toNat_lt
  have hpos : 0 < 2 ^ signPlace := Nat.two_pow_pos _
  have hmagnitude : x.magnitude < 2 ^ signPlace := Nat.mod_lt _ hpos
  have hmod : (x.magnitude ^^^ 2 ^ signPlace) % 2 ^ signPlace = x.bits.toNat % 2 ^ signPlace := by
    rw [Nat.xor_mod_two_pow, Nat.mod_self, Nat.xor_zero, magnitude, Nat.mod_mod]
  have hdiv : (x.magnitude ^^^ 2 ^ signPlace) / 2 ^ signPlace = x.bits.toNat / 2 ^ signPlace := by
    rw [Nat.xor_div_two_pow, Nat.div_eq_of_lt hmagnitude, Nat.div_self hpos, Nat.zero_xor]
    exact (Nat.div_eq_of_lt_le (by omega) (by omega)).symm
  have hsize : x.magnitude < 2 ^ 64 := (Nat.mod_le _ _).trans_lt x.bits.toNat_lt
  have hbits : (ofMagnitude x.magnitude).negate.bits.toNat = x.magnitude ^^^ 2 ^ signPlace := by
    rw [negate, UInt64.toNat_xor, ofMagnitude, UInt64.toNat_ofNat_of_lt' hsize]
    rfl
  have heq : (ofMagnitude x.magnitude).negate.bits = x.bits := UInt64.toNat_inj.mp <| by
    rw [hbits, ← Nat.div_add_mod (x.magnitude ^^^ _) (2 ^ signPlace), hdiv, hmod,
      Nat.div_add_mod]
  exact congrArg mk heq

/-- **Printed numbers are read back**, unless they are no numbers. -/
theorem read?_render (hx : ¬ x.isNaN) : read? x.render.toList = some x := by
  rw [render, if_neg hx, String.toList_ofList]
  cases hsign : x.isNegative with
  | false =>
    simp only [Bool.false_eq_true, if_false, List.nil_append]
    rw [read?_renderMagnitude hx, ofMagnitude_magnitude (by rw [hsign]; exact Bool.false_ne_true)]
  | true =>
    simp only [if_true, List.singleton_append]
    rw [read?, takeSign]
    simp only [if_true]
    rw [readUnsigned?_renderMagnitude hx, Option.map_some, negate_ofMagnitude_magnitude hsign]

theorem render_injective {y : Binary64} (hx : ¬ x.isNaN) (hy : ¬ y.isNaN)
    (h : x.render = y.render) : x = y := by
  have hread := read?_render hx
  rw [h, read?_render hy] at hread
  exact (Option.some.inj hread).symm

theorem newline_notMem_render (x : Binary64) : '\n' ∉ x.render.toList := by
  rw [render]
  split
  · decide
  · rw [String.toList_ofList, List.mem_append, not_or]
    refine ⟨by split <;> decide, fun h ↦ ?_⟩
    exact absurd (isPrinted_of_mem_renderMagnitude h) (by unfold IsPrinted; decide)

end InfixCompiler.Binary64
