import InfixCalculator.Arithmetic
import InfixCalculator.Proofs.Nearest

/-!
# Exact results

- `Settled u`: the exponent of an unpacked double is the one that its size asks for. What is unpacked from a double is
  settled (`settled_unpack`), and settled doubles with the same value are the same (`eq_of_rationalOf?`);
- `round_exact`, `normalize_exact`: rounding a value that a settled double has gives that double;
- `rational?_add`, `rational?_sub`, `rational?_mul`: a sum, a difference or a product is exact as soon as there is a
  double for it;
- `exists_whole`: there is a double for every whole number up to `2 ^ 53`;
- `rational?_ofDecimal`, `rational?_remainder`: so decimal numbers and remainders that are such numbers are exact too.
-/

namespace InfixCalculator.Number

open Float.Model Float.Model.UnpackedFloat

/-- The format of doubles. -/
abbrev double : Float.Model.Format := .binary64

/-- The exponent of an unpacked double is the one that its size asks for. -/
def Settled : UnpackedFloat → Prop
  | .finite _ m e _ => double.targetExponent (totalExponent m e) = e
  | _ => True

variable {u v w : UnpackedFloat} {a b : ℚ} {s t : Sign} {m n : Nat} {e f : Int}

/-! ## Settled doubles -/

theorem targetExponent_eq (e : Int) : double.targetExponent e = max (e - 53) (-1074) :=
  rfl

theorem log2_mul_two_pow (hm : 0 < m) (k : Nat) : (m * 2 ^ k).log2 = m.log2 + k := by
  induction k with
  | zero => simp
  | succ k ih =>
    have hpos : m * 2 ^ k ≠ 0 := (Nat.mul_pos hm (Nat.two_pow_pos k)).ne'
    rw [Nat.pow_succ, ← Nat.mul_assoc, Nat.mul_comm _ 2, Nat.log2_two_mul hpos, ih, Nat.add_assoc]

theorem totalExponent_mul (hm : 0 < m) (k : Nat) (e : Int) :
    totalExponent (m * 2 ^ k) (e - k) = totalExponent m e := by
  rw [totalExponent, totalExponent, log2_mul_two_pow hm]
  push_cast
  ring

/-- Two ways to write a number by a mantissa and an exponent differ by zeros at the end of the mantissa. -/
theorem exists_shift (hef : e ≤ f) (h : (m * 2 ^ e : ℚ) = n * 2 ^ f) : ∃ k : Nat, e = f - k ∧ m = n * 2 ^ k := by
  obtain ⟨k, hk⟩ := Int.le.dest hef
  refine ⟨k, by omega, ?_⟩
  have htwo : (2 : ℚ) ^ e ≠ 0 := zpow_ne_zero _ two_ne_zero
  rw [← hk, zpow_add₀ two_ne_zero, zpow_natCast, mul_comm ((2 : ℚ) ^ e), ← mul_assoc] at h
  exact_mod_cast mul_right_cancel₀ htwo h

theorem totalExponent_congr (hm : 0 < m) (hn : 0 < n) (h : (m * 2 ^ e : ℚ) = n * 2 ^ f) :
    totalExponent m e = totalExponent n f := by
  rcases le_total e f with hef | hfe
  · obtain ⟨k, rfl, rfl⟩ := exists_shift hef h
    exact totalExponent_mul hn k f
  · obtain ⟨k, rfl, rfl⟩ := exists_shift hfe h.symm
    exact (totalExponent_mul hm k e).symm

theorem settled_unpack (x : Float) : Settled x.toModel.unpack := by
  have hbias : (Float.Model.Format.binary64.exponentBias : Int) + (52 : Nat) = 1075 := rfl
  have hlt : (@unpackMantissa .binary64 x.toModel.toBits.toBitVec).toNat < 2 ^ 52 := BitVec.isLt _
  unfold Float.Model.unpack UnpackedFloat.unpack
  simp only [← BitVec.toNat_inj, hbias]
  generalize @unpackExponent .binary64 x.toModel.toBits.toBitVec = ev
  split
  · split <;> trivial
  split
  · split
    · trivial
    next hexp hzero =>
      rw [BitVec.toNat_zero] at hexp
      have hlog := (Nat.log2_lt hzero).mpr hlt
      simp only [Settled, targetExponent_eq, totalExponent, hexp]
      omega
  · next hexp =>
    rw [BitVec.toNat_zero] at hexp
    have hlog : (1#1 ++ @unpackMantissa .binary64 x.toModel.toBits.toBitVec).toNat.log2 = 52 := by
      have happ := toNat_one_append (@unpackMantissa .binary64 x.toModel.toBits.toBitVec)
      rw [Nat.log2_eq_iff (happ ▸ (Nat.lt_add_right _ (Nat.two_pow_pos _)).ne'), happ]
      exact ⟨Nat.le_add_right _ _, Nat.add_lt_add_left hlt _⟩
    simp only [Settled, targetExponent_eq, totalExponent, hlog]
    omega

/-- A settled double has a mantissa of 53 bits or the least exponent. -/
theorem Settled.le_or_eq {hm : 0 < m} (h : Settled (.finite s m e hm)) : 52 ≤ m.log2 ∨ e = -1074 := by
  simp only [Settled, targetExponent_eq, totalExponent] at h
  omega

/-! ## Rounding -/

/-- Zeros at the end of a mantissa are shifted out of it without a trace. -/
theorem shiftRight_exact (m k : Nat) :
    ExtendedMantissa.ofMantissaAndAccuracy (m * 2 ^ k) .exact >>> k =
      ExtendedMantissa.ofMantissaAndAccuracy m .exact := by
  show k.repeat ExtendedMantissa.shiftRightOne _ = _
  induction k generalizing m with
  | zero => simp [Nat.repeat]
  | succ k ih =>
    rw [Nat.repeat, Nat.pow_succ', ← Nat.mul_assoc, ih]
    simp [ExtendedMantissa.ofMantissaAndAccuracy, ExtendedMantissa.shiftRightOne]

theorem shiftToTargetExponent_exact (hm : 0 < m) (h : double.targetExponent (totalExponent m e) = e) (k : Nat) :
    shiftToTargetExponent double (m * 2 ^ k) (e - k) .exact =
      (ExtendedMantissa.ofMantissaAndAccuracy m .exact, e) := by
  have hk : (e - (e - k)).toNat = k := by omega
  rw [shiftToTargetExponent, totalExponent_mul hm, h, shiftToExponent, hk, shiftRight_exact, sub_add_cancel]

theorem roundWithAccuracy_exact (s : Sign) (hm : 0 < m) (h : Settled (.finite s m e hm)) (k : Nat) :
    roundWithAccuracy double s (m * 2 ^ k) (e - k) .exact = .finite s m e hm := by
  have hshift := shiftToTargetExponent_exact hm h k
  have hstay := shiftToTargetExponent_exact hm h 0
  rw [pow_zero, mul_one, Nat.cast_zero, sub_zero] at hstay
  have hmantissa : (ExtendedMantissa.ofMantissaAndAccuracy m .exact).roundedMantissa = m := rfl
  unfold roundWithAccuracy
  rw [hshift]
  simp only [hmantissa, hstay]
  exact dif_neg hm.ne'

/-- Rounding a value that a settled double has gives this double. -/
theorem round_exact (s : Sign) (hn : 0 < n) (h : Settled (.finite s n f hn)) (heq : (m * 2 ^ e : ℚ) = n * 2 ^ f) :
    UnpackedFloat.round double s m e = .finite s n f hn := by
  rcases le_total e f with hef | hfe
  · obtain ⟨k, rfl, rfl⟩ := exists_shift hef heq
    have hstay : decreaseExponent (n * 2 ^ k) (f - k) f = (n * 2 ^ k, f - k) := by
      have hk : (f - k - f).toNat = 0 := by omega
      rw [decreaseExponent, hk, Nat.shiftLeft_zero, Nat.cast_zero, sub_zero]
    have htarget : double.targetExponent (totalExponent n f) = f := h
    simp only [UnpackedFloat.round, totalExponent_mul hn, htarget, hstay]
    exact roundWithAccuracy_exact s hn h k
  · obtain ⟨k, rfl, rfl⟩ := exists_shift hfe heq.symm
    have hm : 0 < m := Nat.pos_of_mul_pos_right hn
    have htarget : double.targetExponent (totalExponent m e) = e - k := by
      rw [← totalExponent_mul hm k]
      exact h
    have hmove : decreaseExponent m e (e - k) = (m * 2 ^ k, e - k) := by
      have hk : (e - (e - k)).toNat = k := by omega
      rw [decreaseExponent, hk, Nat.shiftLeft_eq]
    have hround := roundWithAccuracy_exact s hn h 0
    rw [pow_zero, mul_one, Nat.cast_zero, sub_zero] at hround
    simp only [UnpackedFloat.round, htarget, hmove]
    exact hround

theorem normalize_exact {z : Int} (zeroSign : Sign) (hn : 0 < n) (h : Settled (.finite s n f hn))
    (heq : (z * 2 ^ e : ℚ) = s.apply n * 2 ^ f) : UnpackedFloat.normalize double z e zeroSign = .finite s n f hn := by
  have he : (0 : ℚ) < 2 ^ e := zpow_pos two_pos e
  have hf : (0 : ℚ) < 2 ^ f := zpow_pos two_pos f
  have hcast : (0 : ℚ) < n := Nat.cast_pos.mpr hn
  unfold UnpackedFloat.normalize
  cases s with
  | positive =>
    rw [Sign.apply, Int.cast_natCast] at heq
    have hz : 0 < z := by
      have := pos_of_mul_pos_left (heq ▸ mul_pos hcast hf) he.le
      exact_mod_cast this
    obtain ⟨m, rfl⟩ := Int.eq_ofNat_of_zero_le hz.le
    rw [Int.compare_eq_gt.mpr hz]
    exact round_exact .positive hn h (by exact_mod_cast heq)
  | negative =>
    rw [Sign.apply, Int.cast_neg, Int.cast_natCast] at heq
    have heq' : ((-z : Int) * 2 ^ e : ℚ) = n * 2 ^ f := by
      push_cast
      linarith
    have hz : 0 < -z := by
      have := pos_of_mul_pos_left (heq' ▸ mul_pos hcast hf) he.le
      exact_mod_cast this
    obtain ⟨m, hm⟩ := Int.eq_ofNat_of_zero_le hz.le
    rw [Int.compare_eq_lt.mpr (by omega)]
    refine round_exact .negative hn h ?_
    rw [hm, Int.toNat_natCast]
    rw [hm] at heq'
    exact_mod_cast heq'

/-- There is one settled double for a value other than zero. -/
theorem eq_of_rationalOf? (hu : Settled u) (hw : Settled w) (h : rationalOf? u = some a) (h' : rationalOf? w = some a)
    (ha : a ≠ 0) : u = w := by
  have hcases : ∀ {u : UnpackedFloat}, rationalOf? u = some a →
      ∃ s m e hm, u = .finite s m e hm ∧ (s.apply m * 2 ^ e : ℚ) = a := by
    intro u h
    cases u with
    | zero s => exact absurd (Option.some.inj h).symm ha
    | finite s m e hm => exact ⟨s, m, e, hm, rfl, Option.some.inj h⟩
    | infinity s | notANumber => cases h
  obtain ⟨s, m, e, hm, rfl, hs⟩ := hcases h
  obtain ⟨t, n, f, hn, rfl, ht⟩ := hcases h'
  -- both are what the value is rounded to
  rw [← normalize_exact (z := s.apply m) (e := e) .positive hm hu rfl]
  exact normalize_exact .positive hn hw (hs.trans ht.symm)

/-! ## Sums, differences and products -/

theorem apply_decreaseExponent (s : Sign) (m : Nat) (h : f ≤ e) :
    ((s.apply (decreaseExponent m e f).1 : ℤ) * 2 ^ f : ℚ) = s.apply m * 2 ^ e := by
  obtain ⟨k, hk⟩ := Int.le.dest h
  have hshift : (e - f).toNat = k := by omega
  have hsize : ((m * 2 ^ k : Nat) : ℚ) * 2 ^ f = m * 2 ^ e := by
    rw [← hk, zpow_add₀ two_ne_zero, zpow_natCast]
    push_cast
    ring
  rw [decreaseExponent, hshift, Nat.shiftLeft_eq]
  cases s with
  | positive => simpa only [Sign.apply, Int.cast_natCast] using hsize
  | negative => simpa only [Sign.apply, Int.cast_neg, Int.cast_natCast, neg_mul, neg_inj] using hsize

theorem apply_ne_zero (s : Sign) (hm : 0 < m) (e : Int) : (s.apply m * 2 ^ e : ℚ) ≠ 0 := by
  have hcast : (m : ℚ) ≠ 0 := Nat.cast_ne_zero.mpr hm.ne'
  have htwo : (2 : ℚ) ^ e ≠ 0 := zpow_ne_zero _ two_ne_zero
  cases s <;> simp [Sign.apply, hcast, htwo]

/-- A sum of whole numbers is normalized to the settled double of its value, or to zero. -/
theorem normalize_settled {z : Int} (hw : Settled w) (h : rationalOf? w = some (z * 2 ^ e : ℚ)) (zeroSign : Sign) :
    ((z * 2 ^ e : ℚ) ≠ 0 → UnpackedFloat.normalize double z e zeroSign = w) ∧
      ((z * 2 ^ e : ℚ) = 0 → ∃ s, UnpackedFloat.normalize double z e zeroSign = .zero s) := by
  constructor
  · intro hne
    cases w with
    | infinity s | notANumber => cases h
    | zero s => exact absurd (Option.some.inj h).symm hne
    | finite s n f hn => exact normalize_exact zeroSign hn hw (Option.some.inj h).symm
  · intro hzero
    have hz : z = 0 := by
      rcases mul_eq_zero.mp hzero with hz | htwo
      · exact_mod_cast hz
      · exact absurd htwo (zpow_ne_zero _ two_ne_zero)
    subst hz
    exact ⟨zeroSign, rfl⟩

theorem add_exact (hu : Settled u) (hv : Settled v) (hw : Settled w) (ha : rationalOf? u = some a)
    (hb : rationalOf? v = some b) (hab : rationalOf? w = some (a + b)) :
    (a + b ≠ 0 → UnpackedFloat.add double u v = w) ∧ (a + b = 0 → ∃ s, UnpackedFloat.add double u v = .zero s) := by
  cases u with
  | infinity s | notANumber => cases ha
  | zero s =>
    obtain rfl := Option.some.inj ha
    rw [zero_add] at hab ⊢
    cases v with
    | infinity t | notANumber => cases hb
    | zero t =>
      obtain rfl := Option.some.inj hb
      refine ⟨fun h => absurd rfl h, fun _ => ?_⟩
      rw [UnpackedFloat.add]
      split <;> exact ⟨_, rfl⟩
    | finite t n f hn =>
      obtain rfl := Option.some.inj hb
      exact ⟨fun h => eq_of_rationalOf? hv hw hb hab h, fun h => absurd h (apply_ne_zero t hn f)⟩
  | finite s m e hm =>
    obtain rfl := Option.some.inj ha
    cases v with
    | infinity t | notANumber => cases hb
    | zero t =>
      obtain rfl := Option.some.inj hb
      rw [add_zero] at hab ⊢
      exact ⟨fun h => eq_of_rationalOf? hu hw ha hab h, fun h => absurd h (apply_ne_zero s hm e)⟩
    | finite t n f hn =>
      obtain rfl := Option.some.inj hb
      -- both mantissas are taken to the smaller exponent, and added there
      have hsum : ((s.apply (decreaseExponent m e (min e f)).1 + t.apply (decreaseExponent n f (min e f)).1 : ℤ) *
          2 ^ min e f : ℚ) = s.apply m * 2 ^ e + t.apply n * 2 ^ f := by
        rw [Int.cast_add, add_mul, apply_decreaseExponent s m (min_le_left e f),
          apply_decreaseExponent t n (min_le_right e f)]
      rw [UnpackedFloat.add, ← hsum]
      rw [← hsum] at hab
      exact normalize_settled hw hab .positive

theorem apply_neg (s : Sign) (z : Int) : (-s).apply z = -s.apply z := by
  cases s with
  | positive => rfl
  | negative => exact (neg_neg z).symm

theorem unpacked_sub_eq (u v : UnpackedFloat) : UnpackedFloat.sub double u v = UnpackedFloat.add double u v.neg := by
  cases u with
  | notANumber => rfl
  | infinity s | zero s => cases v <;> rfl
  | finite s m e hm =>
    cases v with
    | notANumber | infinity t | zero t => rfl
    | finite t n f hn =>
      simp only [UnpackedFloat.sub, UnpackedFloat.neg, UnpackedFloat.add, apply_neg, Int.sub_eq_add_neg]

theorem rationalOf?_neg (h : rationalOf? u = some a) : rationalOf? u.neg = some (-a) := by
  cases u with
  | infinity s | notANumber => cases h
  | zero s =>
    obtain rfl := Option.some.inj h
    rw [neg_zero]
    rfl
  | finite s m e hm =>
    obtain rfl := Option.some.inj h
    rw [UnpackedFloat.neg, rationalOf?, apply_neg, Int.cast_neg, neg_mul]

theorem Settled.neg (h : Settled u) : Settled u.neg := by
  cases u with
  | infinity s | notANumber | zero s => trivial
  | finite s m e hm => exact h

theorem apply_mul_zpow (s t : Sign) (m n : Nat) (e f : Int) :
    (s.apply m * 2 ^ e * (t.apply n * 2 ^ f) : ℚ) = (s * t).apply (m * n : Nat) * 2 ^ (e + f) := by
  have hsign : ((s * t).apply (m * n : Nat) : ℚ) = s.apply m * t.apply n := by
    rw [Nat.cast_mul]
    cases s <;> cases t
    · exact_mod_cast (neg_mul_neg (m : ℤ) n).symm
    · exact_mod_cast (neg_mul (m : ℤ) n).symm
    · exact_mod_cast (mul_neg (m : ℤ) n).symm
    · exact Int.cast_mul _ _
  rw [hsign, zpow_add₀ two_ne_zero]
  ring

theorem eq_of_apply_eq (hm : 0 < m) (hn : 0 < n) (h : (s.apply m * 2 ^ e : ℚ) = t.apply n * 2 ^ f) :
    s = t ∧ (m * 2 ^ e : ℚ) = n * 2 ^ f := by
  have hleft : (0 : ℚ) < m * 2 ^ e := mul_pos (Nat.cast_pos.mpr hm) (zpow_pos two_pos e)
  have hright : (0 : ℚ) < n * 2 ^ f := mul_pos (Nat.cast_pos.mpr hn) (zpow_pos two_pos f)
  cases s <;> cases t <;> simp only [Sign.apply, Int.cast_neg, Int.cast_natCast, neg_mul] at h
  · exact ⟨rfl, neg_inj.mp h⟩
  · linarith
  · linarith
  · exact ⟨rfl, h⟩

/-- A product of two settled doubles has no greater exponent than a settled double of its value. -/
theorem exponent_mul_le {hm : 0 < m} {hn : 0 < n} (hu : Settled (.finite s m e hm)) (hv : Settled (.finite t n f hn)) :
    e + f ≤ double.targetExponent (totalExponent (m * n) (e + f)) := by
  rw [targetExponent_eq, totalExponent]
  have hbits : 52 ≤ m.log2 ∨ 52 ≤ n.log2 → 52 ≤ (m * n).log2 := by
    have hne : m * n ≠ 0 := (Nat.mul_pos hm hn).ne'
    rw [Nat.le_log2 hm.ne', Nat.le_log2 hn.ne', Nat.le_log2 hne]
    rintro (h | h)
    · exact h.trans (Nat.le_mul_of_pos_right m hn)
    · exact h.trans (Nat.le_mul_of_pos_left n hm)
  rcases hu.le_or_eq with hu | rfl
  · have := hbits (Or.inl hu)
    omega
  rcases hv.le_or_eq with hv | rfl
  · have := hbits (Or.inr hv)
    omega
  · omega

theorem mul_exact (hu : Settled u) (hv : Settled v) (hw : Settled w) (ha : rationalOf? u = some a)
    (hb : rationalOf? v = some b) (hab : rationalOf? w = some (a * b)) :
    (a * b ≠ 0 → UnpackedFloat.mul double u v = w) ∧ (a * b = 0 → ∃ s, UnpackedFloat.mul double u v = .zero s) := by
  cases u with
  | infinity s | notANumber => cases ha
  | zero s =>
    obtain rfl := Option.some.inj ha
    rw [zero_mul]
    refine ⟨fun h => absurd rfl h, fun _ => ?_⟩
    cases v with
    | infinity t | notANumber => cases hb
    | zero t | finite t n f hn => exact ⟨_, rfl⟩
  | finite s m e hm =>
    obtain rfl := Option.some.inj ha
    cases v with
    | infinity t | notANumber => cases hb
    | zero t =>
      obtain rfl := Option.some.inj hb
      rw [mul_zero]
      exact ⟨fun h => absurd rfl h, fun _ => ⟨_, rfl⟩⟩
    | finite t n f hn =>
      obtain rfl := Option.some.inj hb
      have hne := mul_ne_zero (apply_ne_zero s hm e) (apply_ne_zero t hn f)
      refine ⟨fun _ => ?_, fun h => absurd h hne⟩
      have hprod := apply_mul_zpow s t m n e f
      rw [hprod] at hab hne
      cases w with
      | infinity s' | notANumber => cases hab
      | zero s' => exact absurd (Option.some.inj hab).symm hne
      | finite s' k g hk =>
        obtain ⟨rfl, hsize⟩ := eq_of_apply_eq hk (Nat.mul_pos hm hn) (Option.some.inj hab)
        have hle := exponent_mul_le hu hv
        rw [← totalExponent_congr hk (Nat.mul_pos hm hn) hsize, hw] at hle
        obtain ⟨j, he, hprodsize⟩ := exists_shift hle hsize.symm
        show roundWithAccuracy double (s * t) (m * n) (e + f) .exact = _
        rw [he, hprodsize]
        exact roundWithAccuracy_exact _ hk hw j

/-! ## Doubles -/

variable {x y z : Float} {i j : ℤ}

theorem pack_unpack_toModel (x : Float) : Float.Model.pack x.toModel.unpack = x.toModel := by
  have hbits : UnpackedFloat.pack .binary64 x.toModel.unpack = x.toModel.toBits.toBitVec :=
    pack_unpack_of_valid x.toModel.valid
  have h : UInt64.ofBitVec (UnpackedFloat.pack .binary64 x.toModel.unpack) = x.toModel.toBits := by
    rw [hbits]
  cases hx : x.toModel with
  | mk bits valid =>
    rw [hx] at h
    exact Float.Model.mk.injEq _ _ _ _ ▸ h

/-- There is one double for a value other than zero. -/
theorem eq_of_rational? (hx : rational? x = some a) (hy : rational? y = some a) (ha : a ≠ 0) : x = y := by
  have hunpack := eq_of_rationalOf? (settled_unpack x) (settled_unpack y) hx hy ha
  have hmodel : x.toModel = y.toModel := by rw [← pack_unpack_toModel x, hunpack, pack_unpack_toModel]
  cases x
  cases y
  exact congrArg (fun m => (⟨m⟩ : Float)) hmodel

/-- A result that is the double of a value, or a zero if the value is zero, has this value. -/
theorem rational?_pack (hz : rational? z = some a) (h : a ≠ 0 → u = z.toModel.unpack)
    (h0 : a = 0 → ∃ s, u = .zero s) : rational? ⟨Float.Model.pack u⟩ = some a := by
  by_cases ha : a = 0
  · obtain ⟨s, rfl⟩ := h0 ha
    have hzero : (Float.Model.pack (.zero s)).unpack = .zero s := @unpack_packedZero .binary64 s
    rw [rational?, hzero, ha]
    rfl
  · rw [h ha, pack_unpack_toModel]
    exact hz

theorem rational?_add (hx : rational? x = some a) (hy : rational? y = some b) (hz : rational? z = some (a + b)) :
    rational? (x + y) = some (a + b) := by
  have h := add_exact (settled_unpack x) (settled_unpack y) (settled_unpack z) hx hy hz
  exact rational?_pack hz h.1 h.2

theorem rational?_sub (hx : rational? x = some a) (hy : rational? y = some b) (hz : rational? z = some (a - b)) :
    rational? (x - y) = some (a - b) := by
  rw [sub_eq_add_neg] at hz ⊢
  have h := add_exact (settled_unpack x) (settled_unpack y).neg (settled_unpack z) hx (rationalOf?_neg hy) hz
  rw [← unpacked_sub_eq] at h
  exact rational?_pack hz h.1 h.2

theorem rational?_mul (hx : rational? x = some a) (hy : rational? y = some b) (hz : rational? z = some (a * b)) :
    rational? (x * y) = some (a * b) := by
  have h := mul_exact (settled_unpack x) (settled_unpack y) (settled_unpack z) hx hy hz
  exact rational?_pack hz h.1 h.2

/-! ## Whole numbers -/

theorem exists_bits_whole {n : Nat} (h : n ≤ 2 ^ 53) : ∃ b < infinityBits, unitsOfBits b = n * unitsInOne := by
  rcases Nat.eq_zero_or_pos n with rfl | hpos
  · exact ⟨0, by decide, (Nat.zero_mul _).symm⟩
  have hlow : 2 ^ n.log2 ≤ n := Nat.log2_self_le hpos.ne'
  have hhigh : n < 2 ^ (n.log2 + 1) := Nat.lt_log2_self
  have hb : binade = 2 ^ 52 := rfl
  have hinf : infinityBits = 2047 * binade := rfl
  have hone : unitsInOne = 2 ^ unitScale := by exact_mod_cast cast_unitsInOne
  -- the number is brought to 53 bits, if it has not 54
  have hge : binade ≤ n * 2 ^ (52 - n.log2) := by
    calc binade ≤ 2 ^ (n.log2 + (52 - n.log2)) := hb ▸ Nat.pow_le_pow_right (by decide) (by omega)
      _ = 2 ^ n.log2 * 2 ^ (52 - n.log2) := Nat.pow_add ..
      _ ≤ n * 2 ^ (52 - n.log2) := Nat.mul_le_mul_right _ hlow
  have hle : n * 2 ^ (52 - n.log2) ≤ 2 * binade := by
    rcases Nat.lt_or_ge 52 n.log2 with hlog | hlog
    · rw [Nat.sub_eq_zero_of_le hlog.le, Nat.pow_zero, Nat.mul_one]
      exact h
    · calc n * 2 ^ (52 - n.log2) ≤ 2 ^ (n.log2 + 1) * 2 ^ (52 - n.log2) := Nat.mul_le_mul_right _ hhigh.le
        _ = 2 ^ (n.log2 + 1 + (52 - n.log2)) := (Nat.pow_add ..).symm
        _ = 2 * binade := by rw [show n.log2 + 1 + (52 - n.log2) = 53 by omega]; rfl
  refine ⟨(1074 - (52 - n.log2)) * binade + n * 2 ^ (52 - n.log2), ?_, ?_⟩
  · have := Nat.mul_le_mul_right binade (Nat.sub_le 1074 (52 - n.log2))
    omega
  · have hscale : 52 - n.log2 + (1074 - (52 - n.log2)) = unitScale := by
      rw [show unitScale = 1074 from rfl]
      omega
    rw [unitsOfBits_shift hle (Or.inr hge), Nat.mul_assoc, ← Nat.pow_add, hscale, hone]

theorem signed_mul_unitsInOne (negative : Bool) (n : Nat) :
    signed negative (n * unitsInOne) = if negative then -(n : ℚ) else n := by
  have hne := unitsInOne_pos.ne'
  rw [signed, Nat.cast_mul]
  split
  · rw [neg_div, mul_div_cancel_right₀ _ hne]
  · exact mul_div_cancel_right₀ _ hne

/-- The units of a whole number, and its sign. -/
theorem eq_of_signed_eq {negative : Bool} {n : Nat} (h : signed negative n = i) :
    n = i.natAbs * unitsInOne ∧ i = if negative then -(i.natAbs : ℤ) else i.natAbs := by
  have hpos : 0 < (unitsInOne : ℤ) := by exact_mod_cast unitsInOne_pos
  rw [signed, div_eq_iff unitsInOne_pos.ne'] at h
  cases negative with
  | false =>
    have hint : (n : ℤ) = i * unitsInOne := by exact_mod_cast h
    have hsign : 0 ≤ i := nonneg_of_mul_nonneg_left (hint ▸ Int.natCast_nonneg n) hpos
    have habs : (i.natAbs : ℤ) = i := Int.natAbs_of_nonneg hsign
    refine ⟨?_, habs.symm⟩
    rw [← habs] at hint
    exact_mod_cast hint
  | true =>
    have hint : -(n : ℤ) = i * unitsInOne := by exact_mod_cast h
    have hsign : 0 ≤ -i := by
      refine nonneg_of_mul_nonneg_left (b := (unitsInOne : ℤ)) ?_ hpos
      rw [neg_mul, ← hint, neg_neg]
      exact Int.natCast_nonneg n
    have habs : (i.natAbs : ℤ) = -i := by omega
    refine ⟨?_, ?_⟩
    · have hneg : (n : ℤ) = -i * unitsInOne := by rw [neg_mul, ← hint, neg_neg]
      rw [← habs] at hneg
      exact_mod_cast hneg
    · show i = -(i.natAbs : ℤ)
      rw [habs, neg_neg]

/-- There is a double for every whole number up to `2 ^ 53`. -/
theorem exists_whole (h : i.natAbs ≤ 2 ^ 53) : ∃ z, rational? z = some (i : ℚ) := by
  obtain ⟨b, hb, hunits⟩ := exists_bits_whole h
  refine ⟨ofSignBits (i < 0) b, ?_⟩
  rw [rational?_ofSignBits _ hb, hunits, signed_mul_unitsInOne]
  congr 1
  rcases lt_or_ge i 0 with hneg | hnonneg
  · rw [if_pos (decide_eq_true hneg), Nat.cast_natAbs, abs_of_neg hneg, Int.cast_neg, neg_neg]
  · rw [if_neg (by simpa using hnonneg), Nat.cast_natAbs, abs_of_nonneg hnonneg]

/-- The double nearest to a value that a double has is this double. -/
theorem Nearest.exact {q : ℚ} (h : Nearest q x) (hlt : q < overflowBound) (hz : rational? z = some q) :
    rational? x = some q := by
  obtain ⟨r, hr, hnear⟩ := h.within hlt
  have hdist := (hnear z q hz).1
  rw [sub_self, abs_zero, abs_nonpos_iff, sub_eq_zero] at hdist
  rw [hr, hdist]

theorem whole_lt_overflowBound {n : Nat} (h : n ≤ 2 ^ 53) : (n : ℚ) < overflowBound := by
  have hcast : (n : ℚ) ≤ 2 ^ 53 := by exact_mod_cast h
  have hnat : 2 ^ 53 + 2 ^ 970 < 2 ^ 1024 := by decide +kernel
  have hbound : (2 : ℚ) ^ 53 + 2 ^ 970 < 2 ^ 1024 := by exact_mod_cast hnat
  exact hcast.trans_lt (lt_sub_iff_add_lt.mpr hbound)

theorem rational?_ofDecimal {n : Nat} (h : n ≤ 2 ^ 53) : rational? (ofDecimal n 0) = some (n : ℚ) := by
  have hnear := nearest_ofDecimal n 0
  rw [zpow_zero, mul_one] at hnear
  obtain ⟨z, hz⟩ := exists_whole (i := n) h
  exact hnear.exact (whole_lt_overflowBound h) hz

theorem rational?_ofUnitRatio (negative : Bool) {n : Nat} (h : n ≤ 2 ^ 53) :
    rational? (ofUnitRatio negative (n * unitsInOne) 1) = some (if negative then -(n : ℚ) else n) := by
  have hnear := nearest_ofUnitRatio (n * unitsInOne) Nat.one_pos
  rw [Nat.cast_mul, Nat.cast_one, div_one, mul_div_cancel_right₀ _ unitsInOne_pos.ne'] at hnear
  obtain ⟨z, hz⟩ := exists_whole (i := n) h
  have hvalue := hnear.exact (whole_lt_overflowBound h) hz
  -- the sign does not matter for the size
  have hle : bitsOfUnitRatio (n * unitsInOne) 1 ≤ infinityBits := Nat.min_le_right _ _
  rw [ofUnitRatio, rational?_eq, units, magnitudeBits_ofSignBits false hle, isNegative_ofSignBits false hle] at hvalue
  split at hvalue
  case isFalse => cases hvalue
  case isTrue hlt =>
    obtain ⟨hunits, -⟩ := eq_of_signed_eq (i := n) (Option.some.inj hvalue)
    rw [Int.natAbs_natCast] at hunits
    rw [ofUnitRatio, rational?_ofSignBits negative hlt, hunits, signed_mul_unitsInOne]

theorem isNaN_isInf_of_rational? (hx : rational? x = some a) : x.isNaN = false ∧ x.isInf = false := by
  rw [rational?] at hx
  unfold Float.isNaN Float.isInf Float.Model.isNaN Float.Model.isInf
  cases hu : x.toModel.unpack with
  | notANumber | infinity s =>
    rw [hu] at hx
    cases hx
  | zero s | finite s m e hm => exact ⟨rfl, rfl⟩

/-- The units of a double that is a whole number, and its sign. -/
theorem units_of_whole (hx : rational? x = some (i : ℚ)) :
    units x = i.natAbs * unitsInOne ∧ i = if isNegative x then -(i.natAbs : ℤ) else i.natAbs := by
  rw [rational?_eq] at hx
  split at hx
  case isTrue => exact eq_of_signed_eq (Option.some.inj hx)
  case isFalse => cases hx

/-- The remainder of whole numbers is exact, and has the sign of the dividend. -/
theorem rational?_remainder (hx : rational? x = some (i : ℚ)) (hy : rational? y = some (j : ℚ)) (hj : j ≠ 0)
    (hi : i.natAbs ≤ 2 ^ 53) : rational? (remainder x y) = some ((i.tmod j : ℤ) : ℚ) := by
  obtain ⟨hxn, hxi⟩ := isNaN_isInf_of_rational? hx
  obtain ⟨hyn, hyi⟩ := isNaN_isInf_of_rational? hy
  obtain ⟨hxu, hsign⟩ := units_of_whole hx
  obtain ⟨hyu, -⟩ := units_of_whole hy
  have hone : 0 < unitsInOne := by exact_mod_cast unitsInOne_pos
  have hne : units y ≠ 0 := by
    rw [hyu]
    exact (Nat.mul_pos (Int.natAbs_pos.mpr hj) hone).ne'
  have hnat : (i.natAbs : ℤ).tmod j = (i.natAbs % j.natAbs : ℕ) := by
    rcases Int.natAbs_eq j with h | h
    · conv_lhs => rw [h]
      rfl
    · conv_lhs => rw [h, Int.tmod_neg]
      rfl
  have hmod : i.tmod j = if isNegative x then -((i.natAbs % j.natAbs : ℕ) : ℤ) else (i.natAbs % j.natAbs : ℕ) := by
    conv_lhs => rw [hsign]
    split
    · rw [Int.neg_tmod, hnat]
    · exact hnat
  rw [remainder, hxn, hxi, hyn, hyi, if_neg (by decide), if_neg (by decide), if_neg hne, hxu, hyu,
    Nat.mul_mod_mul_right, rational?_ofUnitRatio (isNegative x) ((Nat.mod_le _ _).trans hi), hmod]
  split
  · rw [Int.cast_neg, Int.cast_natCast]
  · rw [Int.cast_natCast]

end InfixCalculator.Number
