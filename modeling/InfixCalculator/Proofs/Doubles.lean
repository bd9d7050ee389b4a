import InfixCalculator.Number.Numeral
import Mathlib

/-!
# What a double stands for

- `rational? x` is the rational number that a finite double is, by the model that the language gives of its doubles;
- `rational?_eq`: it is a whole number of units, with the sign of the double;
- `toNat_toBits_ofSignBits`: a sign and a bit pattern up to that of infinity are those of a double, which is a number
  (`isNaN_ofSignBits`, `isNegative_ofSignBits`, `magnitudeBits_ofSignBits`);
- `unitsOfBits_shift`, `unitsOfBits_grid`, `exists_multiple`: of the doubles that are large next to a power of two, all
  are multiples of it.
-/

namespace InfixCalculator.Number

open Float.Model Float.Model.UnpackedFloat

/-- The rational number that an unpacked double is, if it is finite. -/
def rationalOf? : UnpackedFloat → Option ℚ
  | .zero _ => some 0
  | .finite sign mantissa exponent _ => some (sign.apply mantissa * 2 ^ exponent)
  | _ => none

/-- The rational number that a finite double is. -/
def rational? (x : Float) : Option ℚ :=
  rationalOf? x.toModel.unpack

/-- A number of units with a sign. -/
def signed (negative : Bool) (n : Nat) : ℚ :=
  (if negative then -(n : ℚ) else n) / unitsInOne

/-- The sign of a double. -/
def signOf (x : Float) : Sign :=
  if isNegative x then .negative else .positive

/-! ## The parts of a bit pattern -/

theorem toNat_unpackExponent (b : BitVec 64) :
    (@unpackExponent .binary64 b).toNat = b.toNat / binade % 2048 := by
  rw [unpackExponent_def, BitVec.extractLsb'_toNat, Nat.shiftRight_eq_div_pow]
  rfl

theorem toNat_unpackMantissa (b : BitVec 64) :
    (@unpackMantissa .binary64 b).toNat = b.toNat % binade := by
  rw [unpackMantissa_def, BitVec.extractLsb'_toNat]
  rfl

theorem unpackSign_eq (b : BitVec 64) :
    Sign.ofBitVec (@unpackSign .binary64 b) = if signBit ≤ b.toNat then .negative else .positive := by
  have hs : (@unpackSign .binary64 b).toNat = b.toNat / signBit % 2 := by
    rw [unpackSign_def, BitVec.extractLsb'_toNat, Nat.shiftRight_eq_div_pow]
    rfl
  have hlt := b.isLt
  have hbit : signBit = 9223372036854775808 := rfl
  unfold Sign.ofBitVec
  simp only [← BitVec.toNat_inj, hs, hbit]
  split <;> split <;> simp at * <;> omega

theorem toNat_one_append {n : Nat} (v : BitVec n) : (1#1 ++ v).toNat = 2 ^ n + v.toNat := by
  rw [BitVec.toNat_append, ← Nat.shiftLeft_add_eq_or_of_lt v.isLt, Nat.shiftLeft_eq]
  simp

theorem magnitudeBits_eq (x : Float) :
    magnitudeBits x = x.toBits.toNat / binade % 2048 * binade + x.toBits.toNat % binade := by
  have hb : binade = 4503599627370496 := rfl
  have hbit : signBit = 9223372036854775808 := rfl
  rw [magnitudeBits, hb, hbit]
  omega

/-! ## Units -/

theorem cast_unitsInOne : (unitsInOne : ℚ) = 2 ^ unitScale := by
  unfold unitsInOne
  rw [Nat.pow_eq, Nat.cast_pow, Nat.cast_ofNat]

theorem unitsInOne_pos : (0 : ℚ) < unitsInOne := by
  rw [cast_unitsInOne]
  exact pow_pos two_pos _

theorem signed_zero (negative : Bool) : signed negative 0 = 0 := by
  rw [signed, Nat.cast_zero, neg_zero, ite_self, zero_div]

theorem apply_mul_eq (x : Float) (m k : Nat) :
    (((signOf x).apply m : ℤ) * 2 ^ ((k : ℤ) - unitScale) : ℚ) = signed (isNegative x) (m * 2 ^ k) := by
  rw [signOf, signed, cast_unitsInOne, zpow_sub₀ (by decide), zpow_natCast, zpow_natCast]
  cases isNegative x <;> simp [Sign.apply] <;> ring

theorem unitsOfBits_of_lt {b : Nat} (h : b < binade) : unitsOfBits b = b :=
  if_pos h

theorem unitsOfBits_of_normal {e m : Nat} (he : e ≠ 0) (hm : m < binade) :
    unitsOfBits (e * binade + m) = (binade + m) * 2 ^ (e - 1) := by
  have hpos : 0 < binade := by decide
  have hge : ¬e * binade + m < binade := by
    have := Nat.le_mul_of_pos_left binade (Nat.pos_of_ne_zero he)
    omega
  rw [unitsOfBits, if_neg hge, Nat.add_comm (e * binade), Nat.add_mul_mod_self_right, Nat.mod_eq_of_lt hm,
    Nat.add_mul_div_right _ _ hpos, Nat.div_eq_of_lt hm, Nat.zero_add]
  rfl

/-- The rational number of a double, by the parts of its bit pattern. -/
theorem rational?_parts (x : Float) {e m : Nat} (he : e = x.toBits.toNat / binade % 2048)
    (hm : m = x.toBits.toNat % binade) :
    rational? x =
      if e = 2047 then none
      else if e = 0 then
        if m = 0 then some 0
        else some (((signOf x).apply m : ℤ) * 2 ^ ((e : ℤ) - (unitScale + 1) + 1) : ℚ)
      else some (((signOf x).apply (binade + m : Nat) : ℤ) * 2 ^ ((e : ℤ) - (unitScale + 1)) : ℚ) := by
  have hbits : x.toModel.toBits.toBitVec.toNat = x.toBits.toNat := rfl
  have hsign : Sign.ofBitVec (@unpackSign .binary64 x.toModel.toBits.toBitVec) = signOf x := by
    simp only [unpackSign_eq, signOf, isNegative, decide_eq_true_eq, hbits]
  have hhidden : binade = 2 ^ 52 := rfl
  have hones : (-1#11).toNat = 2047 := rfl
  have hbias : (Format.binary64.exponentBias : Int) + (52 : Nat) = unitScale + 1 := rfl
  unfold rational? Float.Model.unpack UnpackedFloat.unpack
  simp only [hsign, ← BitVec.toNat_inj, toNat_unpackExponent, toNat_unpackMantissa, toNat_one_append, ← hhidden, hbits,
    hbias, hones, BitVec.toNat_zero, apply_ite rationalOf?, apply_dite rationalOf?]
  simp only [rationalOf?, ite_self, dite_eq_ite, he, hm]

/-- A finite double is a whole number of units. -/
theorem rational?_eq (x : Float) :
    rational? x = if magnitudeBits x < infinityBits then some (signed (isNegative x) (units x)) else none := by
  have hmlt : x.toBits.toNat % binade < binade := Nat.mod_lt _ (by decide)
  have helt : x.toBits.toNat / binade % 2048 < 2048 := Nat.mod_lt _ (by decide)
  have hinf : infinityBits = 2047 * binade := rfl
  rw [rational?_parts x rfl rfl, units, magnitudeBits_eq]
  generalize x.toBits.toNat / binade % 2048 = e at *
  generalize x.toBits.toNat % binade = m at *
  rcases Nat.lt_or_eq_of_le (Nat.le_of_lt_succ helt) with hfinite | rfl
  · have hbelow : e * binade + m < infinityBits := by
      have := Nat.mul_le_mul_right binade (Nat.le_of_lt_succ (show e < 2046 + 1 from hfinite))
      omega
    rw [if_pos hbelow, if_neg (Nat.ne_of_lt hfinite)]
    by_cases he : e = 0
    · rw [if_pos he, he, Nat.zero_mul, Nat.zero_add, unitsOfBits_of_lt hmlt]
      by_cases hm : m = 0
      · rw [if_pos hm, hm, signed_zero]
      · have hscale := apply_mul_eq x m 0
        rw [Nat.pow_zero, Nat.mul_one] at hscale
        rw [if_neg hm, ← hscale]
        congr 3
    · rw [if_neg he, unitsOfBits_of_normal he hmlt, ← apply_mul_eq]
      congr 3
      omega
  · have hge : ¬2047 * binade + m < infinityBits := by omega
    rw [if_neg hge, if_pos rfl]

/-! ## Doubles from a sign and a bit pattern -/

theorem toNat_toBits_ofSignBits (negative : Bool) {b : Nat} (h : b ≤ infinityBits) :
    (ofSignBits negative b).toBits.toNat = (if negative then signBit else 0) + b := by
  have hinf : infinityBits = 2047 * 4503599627370496 := rfl
  have hb : binade = 4503599627370496 := rfl
  have hbit : signBit = 9223372036854775808 := rfl
  have hbits : (if negative then signBit + b else b) = (if negative then signBit else 0) + b := by
    cases negative <;> simp
  rw [ofSignBits, hbits]
  have hlt : (if negative then signBit else 0) + b < 18446744073709551616 := by
    split <;> omega
  have hparts : ((if negative then signBit else 0) + b) / binade % 2048 * binade +
      ((if negative then signBit else 0) + b) % binade = b := by
    rw [hb]
    split <;> omega
  generalize (if negative then signBit else 0) + b = n at hlt hparts
  have hnat : (UInt64.ofNat n).toBitVec.toNat = n := by
    rw [UInt64.toNat_toBitVec, UInt64.toNat_ofNat_of_lt' hlt]
  have hnum : @isNaNBits .binary64 (UInt64.ofNat n).toBitVec = false := by
    have hones : (-1#11).toNat = 2047 := rfl
    have hzero : (0#52).toNat = 0 := rfl
    rw [isNaNBits, decide_eq_false_iff_not]
    simp only [← BitVec.toNat_inj, toNat_unpackExponent, toNat_unpackMantissa, hnat, ne_eq, hb] at hparts ⊢
    omega
  have hpack := @pack_unpack .binary64 (UInt64.ofNat n).toBitVec (by decide)
  rw [hnum, if_neg (by decide)] at hpack
  exact (congrArg BitVec.toNat hpack).trans hnat

theorem isNegative_ofSignBits (negative : Bool) {b : Nat} (h : b ≤ infinityBits) :
    isNegative (ofSignBits negative b) = negative := by
  have hlt : b < signBit := Nat.lt_of_le_of_lt h (by decide)
  rw [isNegative, toNat_toBits_ofSignBits negative h]
  cases negative with
  | true => exact decide_eq_true (Nat.le_add_right signBit b)
  | false => exact decide_eq_false (by simpa using hlt)

theorem magnitudeBits_ofSignBits (negative : Bool) {b : Nat} (h : b ≤ infinityBits) :
    magnitudeBits (ofSignBits negative b) = b := by
  have hlt : b < signBit := Nat.lt_of_le_of_lt h (by decide)
  rw [magnitudeBits, toNat_toBits_ofSignBits negative h]
  cases negative with
  | true => rw [if_pos rfl, Nat.add_mod_left, Nat.mod_eq_of_lt hlt]
  | false => rw [if_neg Bool.false_ne_true, Nat.zero_add, Nat.mod_eq_of_lt hlt]

theorem rational?_ofSignBits (negative : Bool) {b : Nat} (h : b < infinityBits) :
    rational? (ofSignBits negative b) = some (signed negative (unitsOfBits b)) := by
  have hle := Nat.le_of_lt h
  rw [rational?_eq, units, magnitudeBits_ofSignBits negative hle, isNegative_ofSignBits negative hle, if_pos h]

theorem isNaN_ofSignBits (negative : Bool) {b : Nat} (h : b ≤ infinityBits) :
    (ofSignBits negative b).isNaN = false := by
  rcases Nat.lt_or_eq_of_le h with h | rfl
  · have hr := rational?_ofSignBits negative h
    rw [rational?] at hr
    unfold Float.isNaN Float.Model.isNaN
    cases hu : (ofSignBits negative b).toModel.unpack with
    | notANumber =>
      rw [hu] at hr
      cases hr
    | infinity _ | zero _ | finite _ _ _ _ => rfl
  · cases negative <;> decide +kernel

/-- The double of a decimal number has a bit pattern without a sign. -/
theorem exists_bits_ofDecimal (digits : Nat) (exponent : Int) :
    ∃ b ≤ infinityBits, ofDecimal digits exponent = ofSignBits false b := by
  unfold ofDecimal
  split
  · exact ⟨0, Nat.zero_le _, rfl⟩
  split
  · exact ⟨infinityBits, le_rfl, rfl⟩
  split
  · exact ⟨_, Nat.min_le_right _ _, rfl⟩
  split
  · exact ⟨0, Nat.zero_le _, rfl⟩
  · exact ⟨_, Nat.min_le_right _ _, rfl⟩

/-! ## The grid of the doubles -/

/-- The units of a bit pattern that is given by a power of two and a factor of 53 bits. -/
theorem unitsOfBits_shift {shift k : Nat} (hk : k ≤ 2 * binade) (hlow : shift = 0 ∨ binade ≤ k) :
    unitsOfBits (shift * binade + k) = k * 2 ^ shift := by
  rcases Nat.lt_or_ge k binade with hlt | hge
  · obtain rfl : shift = 0 := hlow.resolve_right (Nat.not_le_of_lt hlt)
    rw [Nat.zero_mul, Nat.zero_add, unitsOfBits_of_lt hlt, Nat.pow_zero, Nat.mul_one]
  rcases Nat.lt_or_eq_of_le hk with hlt | rfl
  · have hbits : shift * binade + k = (shift + 1) * binade + (k - binade) := by
      rw [Nat.add_mul]
      omega
    rw [hbits, unitsOfBits_of_normal (Nat.succ_ne_zero shift) (by omega), Nat.add_sub_cancel' hge,
      Nat.succ_sub_one]
  · -- a factor of 54 bits can only be a power of two, and belongs to the next power
    have hbits : shift * binade + 2 * binade = (shift + 2) * binade + 0 := by
      rw [Nat.add_zero, Nat.add_mul]
    rw [hbits, unitsOfBits_of_normal (Nat.succ_ne_zero _) (by decide), Nat.add_zero, Nat.mul_comm 2, Nat.mul_assoc,
      show shift + 2 - 1 = shift + 1 from rfl, Nat.pow_succ, Nat.mul_comm 2]

/-- A bit pattern stands for a multiple of a power of two, or for less than `binade` many. -/
theorem unitsOfBits_grid (b shift : Nat) : 2 ^ shift ∣ unitsOfBits b ∨ unitsOfBits b < binade * 2 ^ shift := by
  have hpos : 0 < binade := by decide
  rcases Nat.lt_or_ge b binade with hlt | hge
  · right
    rw [unitsOfBits_of_lt hlt]
    exact Nat.lt_of_lt_of_le hlt (Nat.le_mul_of_pos_right _ (Nat.two_pow_pos shift))
  have hmod : b % binade < binade := Nat.mod_lt b hpos
  have hdiv : b / binade ≠ 0 := Nat.ne_of_gt (Nat.div_pos hge hpos)
  rw [← Nat.div_add_mod' b binade, unitsOfBits_of_normal hdiv hmod]
  rcases Nat.lt_or_ge (b / binade - 1) shift with hlt | hle
  · right
    calc (binade + b % binade) * 2 ^ (b / binade - 1)
        < (binade * 2) * 2 ^ (b / binade - 1) := Nat.mul_lt_mul_of_pos_right (by omega) (Nat.two_pow_pos _)
      _ = binade * 2 ^ (b / binade - 1 + 1) := by rw [Nat.pow_succ, Nat.mul_assoc, Nat.mul_comm 2]
      _ ≤ binade * 2 ^ shift := Nat.mul_le_mul_left _ (Nat.pow_le_pow_right (by decide) hlt)
  · exact Or.inl (Dvd.dvd.mul_left (Nat.pow_dvd_pow 2 hle) _)

/-- In multiples of a power of two, a finite double is whole or has less than 53 bits. -/
theorem exists_multiple {y : Float} {s : ℚ} (hy : rational? y = some s) (shift : Nat) :
    ∃ v : ℚ, s = v * (2 ^ shift / unitsInOne) ∧ ((∃ j : ℤ, v = j) ∨ shift ≠ 0 ∧ v < binade) := by
  have hpow : (0 : ℚ) < 2 ^ shift := pow_pos two_pos shift
  rw [rational?_eq] at hy
  split at hy
  case isFalse => cases hy
  obtain rfl := Option.some.inj hy
  refine ⟨(if isNegative y then -(units y : ℚ) else units y) / 2 ^ shift, ?_, ?_⟩
  · rw [signed, div_mul_div_cancel₀ hpow.ne']
  rcases unitsOfBits_grid (magnitudeBits y) shift with ⟨c, hc⟩ | hlt
  · left
    refine ⟨if isNegative y then -c else c, ?_⟩
    rw [units, hc, Nat.cast_mul, Nat.cast_pow, Nat.cast_ofNat]
    split <;> field_simp <;> push_cast <;> rfl
  by_cases h0 : shift = 0
  · left
    refine ⟨if isNegative y then -(units y : ℤ) else units y, ?_⟩
    rw [h0, pow_zero, div_one]
    split <;> push_cast <;> rfl
  · right
    refine ⟨h0, ?_⟩
    have hcast : (units y : ℚ) < binade * 2 ^ shift := by exact_mod_cast hlt
    have hnonneg : (0 : ℚ) ≤ units y := Nat.cast_nonneg _
    rw [div_lt_iff₀ hpow]
    split <;> linarith

end InfixCalculator.Number
