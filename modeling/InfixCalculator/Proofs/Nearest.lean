import InfixCalculator.Proofs.Doubles

/-!
# The nearest double

- `Nearest q x`: the double is what a number that is not negative is rounded to;
- `abs_roundDiv_sub`, `near_of_half`: a rounded quotient is nearest to the quotient, and even if it is not the only one;
- `nearest_ofUnitRatio`, `nearest_ofRatio`, `nearest_ofDecimal`: the doubles of quotients and of decimal numbers are the
  nearest ones, whatever the size of the numbers and of the exponent.
-/

namespace InfixCalculator.Number

/-- The number halfway between the greatest finite double and the power of two above it. -/
def overflowBound : ℚ := 2 ^ 1024 - 2 ^ 970

/-- The double is the one nearest to a number that is not negative: infinity if the number is above the range, and else
a finite one, with an even bit pattern if another one is as near. -/
structure Nearest (q : ℚ) (x : Float) : Prop where
  above : overflowBound ≤ q → x.toModel.unpack = .infinity .positive
  within : q < overflowBound → ∃ r, rational? x = some r ∧ ∀ y s, rational? y = some s →
    |r - q| ≤ |s - q| ∧ (|s - q| = |r - q| → s ≠ r → x.toBits.toNat % 2 = 0)

variable {n d shift : Nat}

/-! ## Rounded quotients -/

/-- A rounded quotient is at most half of one away, and even if it is half of one away. -/
theorem abs_roundDiv_sub (n : Nat) {d : Nat} (h : 0 < d) :
    |(roundDiv n d : ℚ) - n / d| ≤ 1 / 2 ∧ (|(roundDiv n d : ℚ) - n / d| = 1 / 2 → roundDiv n d % 2 = 0) := by
  have hd : (0 : ℚ) < d := Nat.cast_pos.mpr h
  have hle : (2 * (d * roundDiv n d) : ℚ) ≤ 2 * n + d := by exact_mod_cast two_mul_roundDiv_le n h
  have hge : (2 * n : ℚ) ≤ 2 * (d * roundDiv n d) + d := by exact_mod_cast le_two_mul_roundDiv n h
  have hdiv : (roundDiv n d : ℚ) - n / d = (d * roundDiv n d - n) / d := by field_simp
  constructor
  · rw [hdiv, abs_div, abs_of_pos hd, div_le_iff₀ hd, abs_le]
    constructor <;> linarith
  · intro htie
    rw [hdiv, abs_div, abs_of_pos hd, div_eq_iff hd.ne'] at htie
    have hcases : 2 * (d * roundDiv n d) = 2 * n + d ∨ 2 * n = 2 * (d * roundDiv n d) + d := by
      rcases abs_cases ((d * roundDiv n d - n : ℚ)) with ⟨habs, -⟩ | ⟨habs, -⟩
      · exact Or.inl (by exact_mod_cast show (2 * (d * roundDiv n d) : ℚ) = 2 * n + d by linarith)
      · exact Or.inr (by exact_mod_cast show (2 * n : ℚ) = 2 * (d * roundDiv n d) + d by linarith)
    refine even_roundDiv_of_tie ?_
    have hmod := Nat.div_add_mod n d
    have hlt := Nat.mod_lt n h
    unfold roundDiv at hcases
    split at hcases
    · rw [Nat.mul_add] at hcases
      omega
    · omega

/-- A whole number at most half of one away from `t` is nearer to it than other whole numbers, and than numbers that are
below a whole number below `t`. -/
theorem near_of_half {t v : ℚ} {k : ℤ} (h : |k - t| ≤ 1 / 2) (hv : (∃ j : ℤ, v = j) ∨ ∃ m : ℤ, v < m ∧ m ≤ t) :
    |k - t| ≤ |v - t| ∧ (|v - t| = |k - t| → v ≠ k → |k - t| = 1 / 2) := by
  have hwhole : ∀ j : ℤ, j ≠ k → 1 / 2 ≤ |(j : ℚ) - t| := by
    intro j hne
    have hone : (1 : ℚ) ≤ |(j : ℚ) - k| := by exact_mod_cast Int.one_le_abs (sub_ne_zero.mpr hne)
    have htri := abs_sub_le (j : ℚ) t k
    rw [abs_sub_comm t] at htri
    linarith
  have hnear : ∀ j : ℤ, |k - t| ≤ |(j : ℚ) - t| := by
    intro j
    rcases eq_or_ne j k with rfl | hne
    · exact le_rfl
    · exact h.trans (hwhole j hne)
  rcases hv with ⟨j, rfl⟩ | ⟨m, hvm, hmt⟩
  · refine ⟨hnear j, fun heq hne => le_antisymm h ?_⟩
    rw [← heq]
    exact hwhole j (by exact_mod_cast hne)
  · have hlt : |k - t| < |v - t| := by
      refine (hnear m).trans_lt ?_
      rw [abs_of_nonpos (by linarith), abs_of_nonpos (by linarith)]
      linarith
    exact ⟨hlt.le, fun heq => absurd heq hlt.ne'⟩

/-! ## The power of two -/

/-- The power of two by which a quotient is cut to 53 bits. -/
structure Scaled (n d shift : Nat) : Prop where
  below : n < 2 * binade * (d * 2 ^ shift)
  above : shift = 0 ∨ binade * (d * 2 ^ shift) ≤ n

theorem scaled_log2 (n : Nat) (hd : 0 < d) : Scaled n d ((n / d).log2 + 1 - 53) := by
  have hb : binade = 2 ^ 52 := rfl
  constructor
  · have hlt : n / d < 2 ^ ((n / d).log2 + 1) := Nat.lt_log2_self
    have hpow : 2 ^ ((n / d).log2 + 1) ≤ 2 * binade * 2 ^ ((n / d).log2 + 1 - 53) := by
      rw [show 2 * binade = 2 ^ 53 from rfl, ← Nat.pow_add]
      exact Nat.pow_le_pow_right (by decide) (by omega)
    have := (Nat.div_lt_iff_lt_mul hd).mp (Nat.lt_of_lt_of_le hlt hpow)
    rwa [Nat.mul_assoc, Nat.mul_comm (2 ^ _)] at this
  · rcases Nat.eq_zero_or_pos ((n / d).log2 + 1 - 53) with h | h
    · exact Or.inl h
    · right
      have hne : n / d ≠ 0 := by
        intro h0
        rw [h0] at h
        exact absurd h (by decide)
      have hle : 2 ^ (n / d).log2 ≤ n / d := Nat.log2_self_le hne
      have hpow : binade * 2 ^ ((n / d).log2 + 1 - 53) = 2 ^ (n / d).log2 := by
        rw [hb, ← Nat.pow_add]
        congr 1
        omega
      rw [Nat.mul_comm d, ← Nat.mul_assoc, hpow]
      exact Nat.le_trans (Nat.mul_le_mul_right d hle) (Nat.div_mul_le_self n d)

theorem bitsOfUnitRatio_eq (n d : Nat) :
    bitsOfUnitRatio n d =
      min (((n / d).log2 + 1 - 53) * binade + roundDiv n (d * 2 ^ ((n / d).log2 + 1 - 53))) infinityBits :=
  rfl

/-- The rounded quotient has 53 bits, or is the power of two above them. -/
theorem roundDiv_le (hd : 0 < d) (h : Scaled n d shift) :
    roundDiv n (d * 2 ^ shift) ≤ 2 * binade ∧ (shift = 0 ∨ binade ≤ roundDiv n (d * 2 ^ shift)) := by
  have hD : 0 < d * 2 ^ shift := Nat.mul_pos hd (Nat.two_pow_pos shift)
  have hlt : n / (d * 2 ^ shift) < 2 * binade := (Nat.div_lt_iff_lt_mul hD).mpr h.below
  have hstep : n / (d * 2 ^ shift) ≤ roundDiv n (d * 2 ^ shift) ∧
      roundDiv n (d * 2 ^ shift) ≤ n / (d * 2 ^ shift) + 1 := by
    unfold roundDiv
    split <;> omega
  refine ⟨by omega, h.above.imp_right fun ha => ?_⟩
  exact ((Nat.le_div_iff_mul_le hD).mpr ha).trans hstep.1

/-! ## The range -/

theorem overflowBound_mul : overflowBound * unitsInOne = (2 ^ 54 - 1) * 2 ^ 2044 := by
  rw [overflowBound, cast_unitsInOne, sub_mul, ← pow_add, ← pow_add, show 1024 + unitScale = 54 + 2044 from rfl,
    show 970 + unitScale = 2044 from rfl, pow_add, sub_mul, one_mul]

theorem cast_div_eq (n : Nat) (d shift : Nat) : (n / d : ℚ) = n / (d * 2 ^ shift : Nat) * 2 ^ shift := by
  have hpow : (2 : ℚ) ^ shift ≠ 0 := pow_ne_zero _ two_ne_zero
  rw [Nat.cast_mul, Nat.cast_pow, Nat.cast_ofNat, ← div_div, div_mul_cancel₀ _ hpow]

/-- A quotient is rounded to 54 bits from halfway below on, since its neighbour of 53 bits is odd. -/
theorem two_binade_le_iff {k : Nat} {t : ℚ} (hhalf : |(k : ℚ) - t| ≤ 1 / 2)
    (heven : |(k : ℚ) - t| = 1 / 2 → k % 2 = 0) : 9007199254740992 ≤ k ↔ 2 ^ 54 - 1 ≤ 2 * t := by
  obtain ⟨hlow, hhigh⟩ := abs_le.mp hhalf
  constructor
  · intro hbits
    have hk : (9007199254740992 : ℚ) ≤ k := by exact_mod_cast hbits
    linarith
  · intro ht
    by_contra hbits
    have hk : (k : ℚ) ≤ 9007199254740991 := by exact_mod_cast (by omega : k ≤ 9007199254740991)
    have hodd : k = 9007199254740991 := by
      have hgt : (9007199254740990 : ℚ) < k := by linarith
      have : 9007199254740990 < k := by exact_mod_cast hgt
      omega
    have htie : |(k : ℚ) - t| = 1 / 2 := by
      rw [abs_of_nonpos (by linarith)]
      linarith
    have := heven htie
    omega

/-- A quotient is rounded out of range just when it is above the range. -/
theorem infinityBits_le_iff (hd : 0 < d) (h : Scaled n d shift) :
    infinityBits ≤ shift * binade + roundDiv n (d * 2 ^ shift) ↔ overflowBound ≤ n / d / unitsInOne := by
  have hD : 0 < d * 2 ^ shift := Nat.mul_pos hd (Nat.two_pow_pos shift)
  have hDq : (0 : ℚ) < (d * 2 ^ shift : Nat) := Nat.cast_pos.mpr hD
  have hinf : infinityBits = 2047 * 4503599627370496 := rfl
  have hb : binade = 4503599627370496 := rfl
  obtain ⟨hk, hlow⟩ := roundDiv_le hd h
  obtain ⟨hhalf, heven⟩ := abs_roundDiv_sub n hD
  rw [le_div_iff₀ unitsInOne_pos, overflowBound_mul, cast_div_eq n d shift, hinf, hb]
  rw [hb] at hk hlow
  have hlt : (n / (d * 2 ^ shift : Nat) : ℚ) < 9007199254740992 := by
    rw [div_lt_iff₀ hDq]
    exact_mod_cast hb ▸ h.below
  have hge : shift ≠ 0 → (4503599627370496 : ℚ) ≤ n / (d * 2 ^ shift : Nat) := by
    intro h0
    rw [le_div_iff₀ hDq]
    exact_mod_cast hb ▸ h.above.resolve_left h0
  have hnonneg : (0 : ℚ) ≤ n / (d * 2 ^ shift : Nat) := by positivity
  have hP : (0 : ℚ) < 2 ^ 2044 := pow_pos two_pos 2044
  generalize roundDiv n (d * 2 ^ shift) = k at *
  generalize (n / (d * 2 ^ shift : Nat) : ℚ) = t at *
  rcases Nat.lt_trichotomy shift 2045 with hshift | rfl | hshift
  · have hpow : (2 : ℚ) ^ shift ≤ 2 ^ 2044 := pow_le_pow_right₀ one_le_two (by omega)
    generalize (2 : ℚ) ^ 2044 = P at *
    refine iff_of_false (by omega) (not_le.mpr ?_)
    calc t * 2 ^ shift ≤ t * P := mul_le_mul_of_nonneg_left hpow hnonneg
      _ < 9007199254740992 * P := mul_lt_mul_of_pos_right hlt hP
      _ ≤ (2 ^ 54 - 1) * P := mul_le_mul_of_nonneg_right (by norm_num) hP.le
  · have hpow : (2 : ℚ) ^ 2045 = 2 * 2 ^ 2044 := pow_succ' 2 2044
    have hhalves : t * 2 ^ 2045 = 2 * t * 2 ^ 2044 := by rw [hpow, ← mul_assoc, mul_comm t]
    rw [hhalves, mul_le_mul_iff_left₀ hP]
    rw [← two_binade_le_iff hhalf heven]
    omega
  · have hpow : (4 : ℚ) * 2 ^ 2044 ≤ 2 ^ shift := by
      rw [show (4 : ℚ) = 2 ^ 2 by norm_num, ← pow_add]
      exact pow_le_pow_right₀ one_le_two (by omega)
    generalize (2 : ℚ) ^ 2044 = P at *
    refine iff_of_true (by omega) ?_
    calc (2 ^ 54 - 1) * P ≤ 4503599627370496 * (4 * P) := by linarith
      _ ≤ t * 2 ^ shift := mul_le_mul (hge (by omega)) hpow (by positivity) hnonneg

/-! ## Rounding -/

/-- A bit pattern whose quotient is rounded to the nearest, and to the even one of two, is the nearest double. -/
theorem within_of_half (shift : Nat) {k : Nat} {t : ℚ} (hk : k ≤ 2 * binade) (hlow : shift = 0 ∨ binade ≤ k)
    (hlt : shift * binade + k < infinityBits) (hge : shift ≠ 0 → (binade : ℚ) ≤ t) (hhalf : |(k : ℚ) - t| ≤ 1 / 2)
    (heven : |(k : ℚ) - t| = 1 / 2 → k % 2 = 0) {q : ℚ} (hq : q = t * (2 ^ shift / unitsInOne)) :
    ∃ r, rational? (ofSignBits false (shift * binade + k)) = some r ∧ ∀ y s, rational? y = some s →
      |r - q| ≤ |s - q| ∧
        (|s - q| = |r - q| → s ≠ r → (ofSignBits false (shift * binade + k)).toBits.toNat % 2 = 0) := by
  refine ⟨_, rational?_ofSignBits false hlt, ?_⟩
  rw [toNat_toBits_ofSignBits false hlt.le, if_neg Bool.false_ne_true, Nat.zero_add, unitsOfBits_shift hk hlow]
  intro y s hy
  -- distances are measured in the power of two by which the quotient was cut
  obtain ⟨v, rfl, hv⟩ := exists_multiple hy shift
  have hr : signed false (k * 2 ^ shift) = (k : ℤ) * (2 ^ shift / unitsInOne) := by
    rw [signed, if_neg Bool.false_ne_true]
    push_cast
    ring
  have hg : (0 : ℚ) < 2 ^ shift / unitsInOne := div_pos (pow_pos two_pos shift) unitsInOne_pos
  rw [hr, hq]
  generalize (2 ^ shift / unitsInOne : ℚ) = g at hg
  have hdist : ∀ u : ℚ, |u * g - t * g| = |u - t| * g := by
    intro u
    rw [← sub_mul, abs_mul, abs_of_pos hg]
  obtain ⟨hnear, htie⟩ := near_of_half (k := k) hhalf (hv.imp_right fun h => ⟨binade, h.2, hge h.1⟩)
  rw [hdist, hdist]
  refine ⟨mul_le_mul_of_nonneg_right hnear hg.le, fun heq hne => ?_⟩
  have hk2 : k % 2 = 0 := heven (htie (mul_right_cancel₀ hg.ne' heq) fun h => hne (by rw [h]))
  have hb : shift * binade = 2 * (shift * 2251799813685248) := by
    rw [← Nat.mul_left_comm]
    rfl
  omega

/-- The double of a quotient of units is the one nearest to it. -/
theorem nearest_ofUnitRatio (n : Nat) (hd : 0 < d) : Nearest (n / d / unitsInOne) (ofUnitRatio false n d) := by
  have hs := scaled_log2 n hd
  rw [ofUnitRatio, bitsOfUnitRatio_eq]
  generalize (n / d).log2 + 1 - 53 = shift at *
  have hD : 0 < d * 2 ^ shift := Nat.mul_pos hd (Nat.two_pow_pos shift)
  obtain ⟨hk, hlow⟩ := roundDiv_le hd hs
  obtain ⟨hhalf, heven⟩ := abs_roundDiv_sub n hD
  constructor
  · intro hq
    rw [Nat.min_eq_right ((infinityBits_le_iff hd hs).mpr hq)]
    rfl
  · intro hq
    have hlt : shift * binade + roundDiv n (d * 2 ^ shift) < infinityBits := by
      rw [← Nat.not_le, infinityBits_le_iff hd hs]
      exact not_le.mpr hq
    rw [Nat.min_eq_left hlt.le]
    refine within_of_half shift hk hlow hlt (fun h0 => ?_) hhalf heven (by rw [cast_div_eq n d shift, mul_div_assoc])
    rw [le_div_iff₀ (Nat.cast_pos.mpr hD)]
    exact_mod_cast hs.above.resolve_left h0

/-- What is less than half a unit is nearest to zero. -/
theorem nearest_zero {q : ℚ} (h : 0 ≤ q) (hq : q * unitsInOne < 1 / 2) : Nearest q (ofSignBits false 0) := by
  have hnonneg : 0 ≤ q * unitsInOne := mul_nonneg h unitsInOne_pos.le
  have habs : |((0 : Nat) : ℚ) - q * unitsInOne| < 1 / 2 := by
    rw [Nat.cast_zero, zero_sub, abs_neg, abs_of_nonneg hnonneg]
    exact hq
  constructor
  · intro hbound
    have hmul := mul_le_mul_of_nonneg_right hbound unitsInOne_pos.le
    have hpow : (1 : ℚ) ≤ 2 ^ 2044 := one_le_pow₀ one_le_two
    rw [overflowBound_mul] at hmul
    generalize (2 : ℚ) ^ 2044 = P at *
    linarith
  · intro _
    exact within_of_half 0 (by decide) (Or.inl rfl) (by decide) (fun h0 => absurd rfl h0) habs.le
      (fun heq => absurd heq habs.ne) (by rw [pow_zero, mul_one_div, mul_div_cancel_right₀ _ unitsInOne_pos.ne'])

/-- The double of a quotient is the one nearest to it. -/
theorem nearest_ofRatio (n : Nat) (hd : 0 < d) : Nearest (n / d) (ofRatio n d) := by
  have h := nearest_ofUnitRatio (n * unitsInOne) hd
  rwa [Nat.cast_mul, div_right_comm, mul_div_cancel_right₀ _ unitsInOne_pos.ne'] at h

theorem overflowBound_le_ten_pow : overflowBound ≤ 10 ^ 310 := by
  have hnat : 2 ^ 1024 ≤ 10 ^ 310 := by decide +kernel
  have hcast : (2 : ℚ) ^ 1024 ≤ 10 ^ 310 := by exact_mod_cast hnat
  exact (sub_le_self _ (pow_pos two_pos 970).le).trans hcast

/-- A decimal number with an exponent from the ceiling on is above the range. -/
theorem overflowBound_le {digits : Nat} {exponent : Int} (h0 : digits ≠ 0) (h : decimalCeiling ≤ exponent) :
    overflowBound ≤ digits * 10 ^ exponent := by
  have hdigits : (1 : ℚ) ≤ digits := by exact_mod_cast Nat.one_le_iff_ne_zero.mpr h0
  have hten : (10 : ℚ) ^ 310 ≤ 10 ^ exponent := by
    rw [← zpow_natCast]
    exact zpow_le_zpow_right₀ (by norm_num) h
  calc overflowBound ≤ 10 ^ 310 := overflowBound_le_ten_pow
    _ ≤ 10 ^ exponent := hten
    _ ≤ digits * 10 ^ exponent := le_mul_of_one_le_left (by positivity) hdigits

/-- A decimal number with its first digit below the floor is less than half a unit. -/
theorem mul_unitsInOne_lt {digits : Nat} {exponent : Int} (h : (digits.log2 + 1 : Nat) + exponent < decimalFloor) :
    digits * 10 ^ exponent * unitsInOne < (1 / 2 : ℚ) := by
  have hten : (0 : ℚ) < 10 := by norm_num
  have hdigits : (digits : ℚ) < 10 ^ (digits.log2 + 1) := by
    have hlog : digits < 2 ^ (digits.log2 + 1) := Nat.lt_log2_self
    exact_mod_cast hlog.trans_le (Nat.pow_le_pow_left (by decide) _)
  have hunits : (unitsInOne : ℚ) * 2 ≤ 10 ^ 330 := by
    have hnat : unitsInOne * 2 ≤ 10 ^ 330 := by decide +kernel
    exact_mod_cast hnat
  have hlt : (digits : ℚ) * 10 ^ exponent < 10 ^ (-330 : Int) := by
    calc (digits : ℚ) * 10 ^ exponent < 10 ^ (digits.log2 + 1) * 10 ^ exponent :=
          mul_lt_mul_of_pos_right hdigits (zpow_pos hten exponent)
      _ = 10 ^ ((digits.log2 + 1 : Nat) + exponent) := by rw [zpow_add₀ hten.ne', zpow_natCast]
      _ ≤ 10 ^ (-330 : Int) := zpow_le_zpow_right₀ (by norm_num) h.le
  have hone : (10 : ℚ) ^ (-330 : Int) * 10 ^ 330 = 1 := by
    rw [zpow_neg, ← zpow_natCast]
    exact inv_mul_cancel₀ (zpow_ne_zero _ hten.ne')
  have hmul := mul_lt_mul_of_pos_right hlt unitsInOne_pos
  have hle := mul_le_mul_of_nonneg_left hunits (zpow_pos hten (-330)).le
  rw [hone] at hle
  linarith

/-- The double of a decimal number is the one nearest to it. -/
theorem nearest_ofDecimal (digits : Nat) (exponent : Int) :
    Nearest (digits * 10 ^ exponent) (ofDecimal digits exponent) := by
  have hten : (0 : ℚ) < 10 ^ exponent := zpow_pos (by norm_num) exponent
  unfold ofDecimal
  split
  case isTrue h0 =>
    rw [h0, Nat.cast_zero, zero_mul]
    exact nearest_zero le_rfl (by rw [zero_mul]; exact half_pos one_pos)
  case isFalse h0 =>
    split
    case isTrue hceil =>
      exact ⟨fun _ => rfl, fun hlt => absurd (overflowBound_le h0 hceil) (not_le.mpr hlt)⟩
    case isFalse =>
      split
      case isTrue hpos =>
        have h := nearest_ofRatio (digits * Nat.pow 10 exponent.toNat) Nat.one_pos
        obtain ⟨n, rfl⟩ := Int.eq_ofNat_of_zero_le hpos
        rw [Nat.pow_eq] at h
        simpa using h
      case isFalse hneg =>
        split
        case isTrue hfloor => exact nearest_zero (by positivity) (mul_unitsInOne_lt hfloor)
        case isFalse =>
          obtain ⟨n, hn⟩ := Int.eq_ofNat_of_zero_le (show 0 ≤ -exponent by omega)
          have h := nearest_ofRatio digits (Nat.pow_pos (n := n) (show 0 < 10 by decide))
          rw [← neg_neg exponent, hn, zpow_neg, zpow_natCast, ← div_eq_mul_inv, neg_neg]
          simpa using h

end InfixCalculator.Number
