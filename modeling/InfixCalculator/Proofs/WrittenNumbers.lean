import InfixCalculator.Proofs.Exactness
import InfixCalculator.Proofs.NumberTexts

/-!
# Written numbers are read back

- `value_shortest`: the shortest decimal of a finite double reads back as its size, the exact decimal being there for
  the search to end in (`value_exactDecimal`);
- `readSize?_positional`, `readSize?_scientific`: the digits of a decimal are read as the decimal in both layouts;
- `readWritten?_written`: every double is read back from its text.
-/

namespace InfixCalculator.Number

variable {x : Float} {n d : Nat} {digits : List Char} {e : Int}

/-! ## Finite doubles -/

theorem ofSignBits_parts (x : Float) : ofSignBits (isNegative x) (magnitudeBits x) = x := by
  have hparts : (if isNegative x then signBit + magnitudeBits x else magnitudeBits x) = x.toBits.toNat := by
    have hbit : signBit = 9223372036854775808 := rfl
    have hlt : x.toBits.toNat < 18446744073709551616 := x.toBits.toNat_lt
    unfold isNegative magnitudeBits
    simp only [decide_eq_true_eq, hbit]
    split <;> omega
  rw [ofSignBits, hparts, UInt64.ofNat_toNat]
  exact Float.ofBits_toBits x

theorem negate_ofSignBits {b : Nat} (h : b ≤ infinityBits) : negate (ofSignBits false b) = ofSignBits true b := by
  rw [negate, isNegative_ofSignBits false h, magnitudeBits_ofSignBits false h]
  rfl

theorem magnitudeBits_lt (hnan : x.isNaN = false) (hinf : x.isInf = false) : magnitudeBits x < infinityBits := by
  have hfinite : (rational? x).isSome = true := by
    rw [rational?]
    unfold Float.isNaN Float.Model.isNaN at hnan
    unfold Float.isInf Float.Model.isInf at hinf
    cases hu : x.toModel.unpack with
    | notANumber =>
      rw [hu] at hnan
      cases hnan
    | infinity s =>
      rw [hu] at hinf
      cases hinf
    | zero s | finite s m e hm => rfl
  rw [rational?_eq] at hfinite
  split at hfinite
  · assumption
  · cases hfinite

theorem exists_unitsOfBits_le {b : Nat} (h : b < infinityBits) :
    ∃ shift ≤ 2045, unitsOfBits b ≤ 9007199254740991 * 2 ^ shift := by
  have hb : binade = 4503599627370496 := rfl
  have hinf : infinityBits = 2047 * 4503599627370496 := rfl
  rcases Nat.lt_or_ge b binade with hlt | hge
  · exact ⟨0, Nat.zero_le _, by rw [unitsOfBits_of_lt hlt]; omega⟩
  · have hmod : b % binade < binade := Nat.mod_lt b (by decide)
    have hdiv : b / binade ≠ 0 := Nat.ne_of_gt (Nat.div_pos hge (by decide))
    refine ⟨b / binade - 1, by rw [hb]; omega, ?_⟩
    rw [← Nat.div_add_mod' b binade, unitsOfBits_of_normal hdiv hmod, Nat.div_add_mod']
    exact Nat.mul_le_mul_right _ (by omega)

/-- A finite size is in the range. -/
theorem units_lt_overflowBound (hnan : x.isNaN = false) (hinf : x.isInf = false) :
    (units x : ℚ) / unitsInOne < overflowBound := by
  obtain ⟨shift, hshift, hle⟩ := exists_unitsOfBits_le (magnitudeBits_lt hnan hinf)
  have hcast : (units x : ℚ) ≤ 9007199254740991 * 2 ^ shift := by exact_mod_cast hle
  have hpow : (2 : ℚ) ^ shift ≤ 2 * 2 ^ 2044 := by
    rw [← pow_succ']
    exact pow_le_pow_right₀ one_le_two hshift
  have hpos : (0 : ℚ) < 2 ^ 2044 := pow_pos two_pos 2044
  rw [div_lt_iff₀ unitsInOne_pos, overflowBound_mul]
  generalize (2 : ℚ) ^ 2044 = P at *
  linarith

/-! ## The shortest decimal -/

/-- The exact decimal of a finite double reads back as its size. -/
theorem value_exactDecimal (hnan : x.isNaN = false) (hinf : x.isInf = false) (h0 : units x ≠ 0) :
    (exactDecimal (units x)).value = ofSignBits false (magnitudeBits x) := by
  have hvalue : ((units x * Nat.pow 5 unitScale : Nat) : ℚ) * 10 ^ (-(unitScale : Int)) = units x / unitsInOne := by
    rw [cast_unitsInOne, Nat.pow_eq, zpow_neg, zpow_natCast, show (10 : ℚ) = 2 * 5 by norm_num, mul_pow]
    push_cast
    field_simp
  have hnear := nearest_ofDecimal (units x * Nat.pow 5 unitScale) (-(unitScale : Int))
  rw [hvalue] at hnear
  have hsize : rational? (ofSignBits false (magnitudeBits x)) = some (units x / unitsInOne : ℚ) :=
    rational?_ofSignBits false (magnitudeBits_lt hnan hinf)
  refine eq_of_rational? (hnear.exact (units_lt_overflowBound hnan hinf) hsize) hsize ?_
  exact div_ne_zero (Nat.cast_ne_zero.mpr h0) unitsInOne_pos.ne'

/-- The shortest decimal of a finite double reads back as its size. -/
theorem value_shortest (hnan : x.isNaN = false) (hinf : x.isInf = false) (h0 : units x ≠ 0) :
    (shortest x).value = ofSignBits false (magnitudeBits x) := by
  have hlt := magnitudeBits_lt hnan hinf
  have hexact : magnitudeBits (exactDecimal (units x)).value = magnitudeBits x := by
    rw [value_exactDecimal hnan hinf h0, magnitudeBits_ofSignBits false hlt.le]
  have hback : magnitudeBits (shortest x).value = magnitudeBits x := firstReadingBack_reads_back hexact
  obtain ⟨b, hb, hbits⟩ := exists_bits_ofDecimal (shortest x).digits (shortest x).exponent
  have hvalue : (shortest x).value = ofSignBits false b := hbits
  rw [hvalue, magnitudeBits_ofSignBits false hb] at hback
  rw [hvalue, hback]

/-! ## Zeros at the end of the digits -/

theorem roundDiv_mul_mul (n d : Nat) {c : Nat} (hc : 0 < c) : roundDiv (n * c) (d * c) = roundDiv n d := by
  have hhalf : 2 * (n * c % (d * c)) = 2 * (n % d) * c := by rw [Nat.mul_mod_mul_right, Nat.mul_assoc]
  unfold roundDiv
  simp only [hhalf, Nat.mul_div_mul_right n d hc, Nat.mul_lt_mul_right hc, Nat.mul_left_inj hc.ne']

theorem bitsOfUnitRatio_mul_mul (n d : Nat) {c : Nat} (hc : 0 < c) :
    bitsOfUnitRatio (n * c) (d * c) = bitsOfUnitRatio n d := by
  rw [bitsOfUnitRatio_eq, bitsOfUnitRatio_eq, Nat.mul_div_mul_right n d hc, Nat.mul_right_comm d,
    roundDiv_mul_mul _ _ hc]

theorem ofRatio_mul_mul (n d : Nat) {c : Nat} (hc : 0 < c) : ofRatio (n * c) (d * c) = ofRatio n d := by
  have hbits : ∀ u, bitsOfUnitRatio (n * c * u) (d * c) = bitsOfUnitRatio (n * u) d := by
    intro u
    rw [Nat.mul_right_comm n, bitsOfUnitRatio_mul_mul _ _ hc]
  exact congrArg (ofSignBits false) (hbits unitsInOne)

/-- Zeros at the end of the digits count as much as the exponent that they stand for. -/
theorem ofDecimal_zeros (d : Nat) {k : Nat} (hk : k < 310) : ofDecimal (d * 10 ^ (k + 1)) (-1) = ofDecimal d k := by
  rcases Nat.eq_zero_or_pos d with rfl | hd
  · rw [Nat.zero_mul, ofDecimal, if_pos rfl, ofDecimal, if_pos rfl]
  · have hne : d * 10 ^ (k + 1) ≠ 0 := (Nat.mul_pos hd (Nat.pow_pos (by decide))).ne'
    have hceil : ¬decimalCeiling ≤ (k : Int) := by
      rw [show decimalCeiling = 310 from rfl]
      omega
    have hfloor : ¬((d * 10 ^ (k + 1)).log2 + 1 : Nat) + (-1 : Int) < decimalFloor := by
      rw [show decimalFloor = -330 from rfl]
      omega
    rw [ofDecimal, if_neg hne, if_neg (by decide), if_neg (by decide), if_neg hfloor, ofDecimal, if_neg hd.ne',
      if_neg hceil, if_pos (Int.natCast_nonneg k), Int.toNat_natCast, Nat.pow_eq, Nat.pow_eq,
      ← ofRatio_mul_mul (d * 10 ^ k) 1 (show 0 < 10 by decide), Nat.mul_assoc, ← Nat.pow_succ]
    rfl

/-! ## Digits in a layout -/

/-- A character is the mark of an exponent. -/
def isMark (c : Char) : Bool :=
  c = 'e' || c = 'E'

theorem readSize?_eq (cs : List Char) : readSize? cs =
    match Numeral.read? (cs.takeWhile fun c => !isMark c), cs.dropWhile fun c => !isMark c with
    | some n, [] => some n.value
    | some n, _ :: exponent => (readExponentText? exponent).map fun e => ofDecimal n.significand (n.scale + e)
    | none, _ => if cs = ['i', 'n', 'f'] then some infinity else none :=
  rfl

variable {l : Literal}

theorem isMark_eq_false {c : Char} (h : isDigit c = true ∨ c = '.') : isMark c = false := by
  rcases h with h | rfl
  · cases hm : isMark c with
    | false => rfl
    | true =>
      have hmark : c = 'e' ∨ c = 'E' := by simpa [isMark] using hm
      rw [Literal.isDigit_of_mark hmark] at h
      cases h
  · decide

theorem isMark_of_mem_text (h : l.exponent = none) {c : Char} (hc : c ∈ l.text) : isMark c = false := by
  apply isMark_eq_false
  rw [Literal.text, h, Literal.exponentText, List.append_nil] at hc
  rcases List.mem_append.mp hc with hc | hc
  · exact Or.inl (l.whole_digits c hc)
  · cases hf : l.fraction with
    | none =>
      rw [hf] at hc
      cases hc
    | some ds =>
      rw [hf] at hc
      rcases List.mem_cons.mp hc with rfl | hc
      · exact Or.inr rfl
      · exact Or.inl (l.fraction_digits ds hf c hc)

/-- The mantissa of a number ends where its exponent begins. -/
theorem mantissa_append (h : l.exponent = none) (rest : List Char) (hrest : ∀ c ∈ rest.head?, isMark c = true) :
    (l.text ++ rest).takeWhile (fun c => !isMark c) = l.text ∧ (l.text ++ rest).dropWhile (fun c => !isMark c) = rest :=
  takeWhile_class (fun c hc => by rw [isMark_of_mem_text h hc]; rfl) fun c hc => by rw [hrest c hc]; rfl

/-- A literal without an exponent is read as its value. -/
theorem readSize?_text (h : l.exponent = none) : readSize? l.text = some l.value := by
  have hsplit := mantissa_append h [] fun c hc => absurd hc (by simp)
  rw [List.append_nil] at hsplit
  rw [readSize?_eq, hsplit.1, hsplit.2, l.read?_text]
  rfl

theorem readExponentText?_of (width : Nat) (e : Int) :
    readExponentText? ((if e < 0 then '-' else '+') :: padDigits width (digitsOf e.natAbs)) = some e := by
  have hdigits : ∀ c ∈ padDigits width (digitsOf e.natAbs), isDigit c = true :=
    isDigit_of_mem_padDigits (fun _ => isDigit_of_mem_digitsOf) width
  have hne : padDigits width (digitsOf e.natAbs) ≠ [] :=
    List.append_ne_nil_of_right_ne_nil _ Nat.toDigits_ne_nil
  have hok : padDigits width (digitsOf e.natAbs) ≠ [] ∧ (padDigits width (digitsOf e.natAbs)).all isDigit = true :=
    ⟨hne, List.all_eq_true.mpr hdigits⟩
  have hvalue : digitsValue (padDigits width (digitsOf e.natAbs)) = e.natAbs := by
    rw [padDigits, digitsValue_append, digitsValue_zeros, Nat.zero_mul, Nat.zero_add, digitsValue_digitsOf]
  split
  case isTrue hneg =>
    rw [readExponentText?, if_pos hok, hvalue]
    congr 1
    omega
  case isFalse hneg =>
    rw [readExponentText?, if_pos hok, hvalue]
    congr 1
    omega

/-- A literal without an exponent is read together with the exponent in writing behind it. -/
theorem readSize?_exponentText (h : l.exponent = none) (width : Nat) (e : Int) :
    readSize? (l.text ++ exponentText 'e' width e) = some (ofDecimal l.numeral.significand (l.numeral.scale + e)) := by
  obtain ⟨htake, hdrop⟩ := mantissa_append h (exponentText 'e' width e) fun c hc => by
    rw [← Option.some.inj hc]
    decide
  rw [readSize?_eq, htake, hdrop, l.read?_text]
  show (readExponentText? _).map _ = _
  rw [readExponentText?_of]
  rfl

/-! ## Layouts -/

theorem isDigit_singleton_zero : ∀ c ∈ ['0'], isDigit c = true :=
  List.forall_mem_singleton.mpr (by decide)

/-- Digits on both sides of a point are a literal. -/
theorem exists_literal_point {ds fs : List Char} (hne : ds ≠ []) (hds : ∀ c ∈ ds, isDigit c = true)
    (hfs : ∀ c ∈ fs, isDigit c = true) :
    ∃ l : Literal, l.exponent = none ∧ l.text = ds ++ '.' :: fs ∧ l.numeral.significand = digitsValue (ds ++ fs) ∧
      l.numeral.scale = -(fs.length : Int) :=
  ⟨.ofDecimal ds fs hne (List.all_eq_true.mpr hds) (List.all_eq_true.mpr hfs), rfl,
    congrArg (ds ++ ·) (List.append_nil _), rfl, Int.zero_sub _⟩

theorem readSize?_point {ds fs : List Char} (hne : ds ≠ []) (hds : ∀ c ∈ ds, isDigit c = true)
    (hfs : ∀ c ∈ fs, isDigit c = true) :
    readSize? (ds ++ '.' :: fs) = some (ofDecimal (digitsValue (ds ++ fs)) (-(fs.length : Int))) := by
  obtain ⟨l, hexponent, htext, hsignificand, hscale⟩ := exists_literal_point hne hds hfs
  rw [← htext, readSize?_text hexponent, Literal.value, Numeral.value, hsignificand, hscale]

/-- Digits on both sides of a point, or without one, are read with the exponent behind them. -/
theorem readSize?_pointExponent {ds fs : List Char} (hne : ds ≠ []) (hds : ∀ c ∈ ds, isDigit c = true)
    (hfs : ∀ c ∈ fs, isDigit c = true) (width : Nat) (e : Int) :
    readSize? (ds ++ (if fs = [] then [] else '.' :: fs) ++ exponentText 'e' width e) =
      some (ofDecimal (digitsValue (ds ++ fs)) (e - fs.length)) := by
  split
  case isTrue hnil =>
    subst hnil
    have hread := readSize?_exponentText (l := Literal.ofDigits ds hne (List.all_eq_true.mpr hds)) rfl width e
    have hscale : (Literal.ofDigits ds hne (List.all_eq_true.mpr hds)).numeral.scale = 0 := rfl
    rw [hscale, Int.zero_add] at hread
    rw [List.length_nil, Int.natCast_zero, Int.sub_zero]
    exact hread
  case isFalse =>
    obtain ⟨l, hexponent, htext, hsignificand, hscale⟩ := exists_literal_point hne hds hfs
    rw [← htext, readSize?_exponentText hexponent, hsignificand, hscale, neg_add_eq_sub]

/-- Zeros between the point and the digits. -/
theorem readSize?_zeros_front (hds : ∀ c ∈ digits, isDigit c = true) (k : Nat) :
    readSize? ('0' :: '.' :: (List.replicate k '0' ++ digits)) =
      some (ofDecimal (digitsValue digits) (-(k + digits.length : Int))) := by
  have hzeros : ∀ c ∈ List.replicate k '0', isDigit c = true := fun _ => isDigit_replicate_zero
  have hread := readSize?_point (List.cons_ne_nil '0' []) isDigit_singleton_zero
    (List.forall_mem_append.mpr ⟨hzeros, hds⟩)
  have hvalue : digitsValue (['0'] ++ (List.replicate k '0' ++ digits)) = digitsValue digits := by
    rw [← List.append_assoc, digitsValue_append, ← List.replicate_one, List.replicate_append_replicate,
      digitsValue_zeros, Nat.zero_mul, Nat.zero_add]
  rw [hvalue, List.length_append, List.length_replicate, Nat.cast_add] at hread
  exact hread

/-- Zeros between the digits and the point. -/
theorem readSize?_zeros_back (hne : digits ≠ []) (hds : ∀ c ∈ digits, isDigit c = true) {k : Nat} (hk : k < 310) :
    readSize? (digits ++ List.replicate k '0' ++ '.' :: ['0']) = some (ofDecimal (digitsValue digits) k) := by
  have hwhole : ∀ c ∈ digits ++ List.replicate k '0', isDigit c = true :=
    List.forall_mem_append.mpr ⟨hds, fun _ => isDigit_replicate_zero⟩
  have hvalue : digitsValue (digits ++ List.replicate k '0' ++ ['0']) = digitsValue digits * 10 ^ (k + 1) := by
    rw [List.append_assoc, ← List.replicate_succ', digitsValue_append, digitsValue_zeros, List.length_replicate,
      Nat.add_zero]
  rw [readSize?_point (List.append_ne_nil_of_left_ne_nil hne _) hwhole isDigit_singleton_zero, hvalue]
  exact congrArg some (ofDecimal_zeros _ hk)

/-- The point among the digits. -/
theorem readSize?_split (hds : ∀ c ∈ digits, isDigit c = true) {k : Nat} (hpos : 0 < k) (hk : k < digits.length) :
    readSize? (digits.take k ++ '.' :: digits.drop k) =
      some (ofDecimal (digitsValue digits) (k - digits.length : Int)) := by
  have hne : digits.take k ≠ [] := List.ne_nil_of_length_pos (by rw [List.length_take]; omega)
  have hscale : -((digits.drop k).length : Int) = k - digits.length := by
    rw [List.length_drop]
    omega
  rw [readSize?_point hne (fun c hc => hds c (List.mem_of_mem_take hc)) fun c hc => hds c (List.mem_of_mem_drop hc),
    List.take_append_drop, hscale]

/-- The digits with the point after the exponent's place are the decimal with its last digit at this place. -/
theorem readSize?_positional (hne : digits ≠ []) (hds : ∀ c ∈ digits, isDigit c = true) (he : e < 310) :
    readSize? (positional digits e) = some (ofDecimal (digitsValue digits) (e + 1 - digits.length)) := by
  have hpos : 0 < digits.length := List.length_pos_iff.mpr hne
  unfold positional
  split
  case isTrue hneg =>
    have hscale : -(((-e).toNat - 1 : Nat) + digits.length : Int) = e + 1 - digits.length := by omega
    rw [readSize?_zeros_front hds, hscale]
  case isFalse hnonneg =>
    dsimp only
    split
    case isTrue hnil =>
      have hle : digits.length ≤ e.toNat + 1 := List.drop_eq_nil_iff.mp hnil
      have hscale : ((e.toNat + 1 - digits.length : Nat) : Int) = e + 1 - digits.length := by omega
      rw [List.take_of_length_le hle, readSize?_zeros_back hne hds (by omega), hscale]
    case isFalse hfrac =>
      have hlt : e.toNat + 1 < digits.length := by simpa using hfrac
      have hscale : ((e.toNat + 1 : Nat) - digits.length : Int) = e + 1 - digits.length := by omega
      rw [Nat.sub_eq_zero_of_le hlt.le, List.replicate_zero, List.append_nil,
        readSize?_split hds (Nat.succ_pos _) hlt, hscale]

/-- The digits with the point after the first and an exponent are the decimal with this exponent. -/
theorem readSize?_scientific (hne : digits ≠ []) (hds : ∀ c ∈ digits, isDigit c = true) (width : Nat) (e : Int) :
    readSize? (scientific width digits e) = some (ofDecimal (digitsValue digits) (e + 1 - digits.length)) := by
  have hpos : 0 < digits.length := List.length_pos_iff.mpr hne
  have hscale : e - ((digits.drop 1).length : Int) = e + 1 - digits.length := by
    rw [List.length_drop]
    omega
  unfold scientific
  dsimp only
  rw [readSize?_pointExponent (by simpa using hne) (fun c hc => hds c (List.mem_of_mem_take hc))
    (fun c hc => hds c (List.mem_of_mem_drop hc)), List.take_append_drop, hscale]

/-- A decimal in a layout is read as its value. -/
theorem readSize?_write {layout : Layout} (h : layout.bound ≤ 310) (d : Decimal) :
    readSize? (layout.write d) = some d.value := by
  have hne : d.digitString ≠ [] := Nat.toDigits_ne_nil
  have hds : ∀ c ∈ d.digitString, isDigit c = true := fun _ => isDigit_of_mem_digitsOf
  have hvalue : ofDecimal (digitsValue d.digitString) (d.leadingExponent + 1 - d.digitString.length) = d.value := by
    have hexponent : d.leadingExponent + 1 - d.digitString.length = d.exponent := by
      unfold Decimal.leadingExponent
      omega
    rw [hexponent, Decimal.digitString, digitsValue_digitsOf]
    rfl
  unfold Layout.write
  dsimp only
  split
  case isTrue hplain => rw [readSize?_positional hne hds (by omega), hvalue]
  case isFalse => rw [readSize?_scientific hne hds, hvalue]

/-! ## Doubles -/

theorem magnitudeBits_eq_zero (h : units x = 0) : magnitudeBits x = 0 := by
  have hb : binade = 4503599627370496 := rfl
  rw [units, unitsOfBits] at h
  split at h
  · exact h
  · rcases Nat.mul_eq_zero.mp h with h | h
    · omega
    · exact absurd h (Nat.two_pow_pos _).ne'

/-- The size of a finite double is read back from its text. -/
theorem readSize?_writtenSize (hnan : x.isNaN = false) (hinf : x.isInf = false) :
    readSize? (writtenSize x) = some (ofSignBits false (magnitudeBits x)) := by
  unfold writtenSize
  split
  case isTrue h0 =>
    have hread := readSize?_point (List.cons_ne_nil '0' []) isDigit_singleton_zero isDigit_singleton_zero
    have hvalue : digitsValue (['0'] ++ ['0']) = 0 := rfl
    rw [hvalue, ofDecimal, if_pos rfl] at hread
    rw [magnitudeBits_eq_zero h0]
    exact hread
  case isFalse h0 => rw [readSize?_write (by decide), value_shortest hnan hinf h0]

theorem eq_notANumber (h : x.isNaN = true) : x = notANumber := by
  have hnan : notANumber.isNaN = true := by decide +kernel
  rw [Float.isNaN_eq_decide_eq_nan, decide_eq_true_eq] at h hnan
  rw [h, hnan]

theorem eq_of_isInf (h : x.isInf = true) : x = ofSignBits (isNegative x) infinityBits := by
  have hx : ∃ negative, x = ofSignBits negative infinityBits := by
    have hpack := pack_unpack_toModel x
    unfold Float.isInf Float.Model.isInf at h
    cases hu : x.toModel.unpack with
    | infinity s =>
      have hmodel : x = ⟨Float.Model.pack (.infinity s)⟩ := by
        cases x
        rw [← hu, hpack]
      cases s with
      | positive => exact ⟨false, hmodel.trans (by decide +kernel)⟩
      | negative => exact ⟨true, hmodel.trans (by decide +kernel)⟩
    | notANumber | zero _ | finite _ _ _ _ =>
      rw [hu] at h
      cases h
  obtain ⟨negative, rfl⟩ := hx
  rw [isNegative_ofSignBits negative (Nat.le_refl _)]

theorem ne_of_isDigit {c d : Char} (hc : isDigit c = true) (hd : isDigit d = false) : c ≠ d := by
  rintro rfl
  rw [hd] at hc
  cases hc

theorem exists_write_eq_cons (layout : Layout) (d : Decimal) :
    ∃ c cs, layout.write d = c :: cs ∧ isDigit c = true ∧ ∃ m ∈ cs, isDigit m = false := by
  have hpoint : ∀ a b : List Char, ∃ m ∈ a ++ '.' :: b, isDigit m = false := fun a b => ⟨'.', by simp, by decide⟩
  have hmark : ∀ (a : List Char) (e : Int), ∃ m ∈ a ++ exponentText 'e' layout.exponentWidth e, isDigit m = false :=
    fun a e => ⟨'e', by simp [exponentText], by decide⟩
  obtain ⟨c, cs, hcs⟩ : ∃ c cs, d.digitString = c :: cs := List.exists_cons_of_ne_nil Nat.toDigits_ne_nil
  have hc : isDigit c = true := isDigit_of_mem_digitsOf (n := d.digits) (by rw [← Decimal.digitString, hcs]; simp)
  unfold Layout.write
  dsimp only
  rw [hcs]
  split
  · unfold positional
    split
    · exact ⟨'0', _, rfl, by decide, hpoint [] _⟩
    · exact ⟨c, _, rfl, hc, hpoint _ _⟩
  · exact ⟨c, _, rfl, hc, hmark (if cs = [] then [] else '.' :: cs) d.leadingExponent⟩

/-- The text of a finite size begins with a digit, and not all of it is digits. -/
theorem exists_writtenSize_eq_cons (x : Float) :
    ∃ c cs, writtenSize x = c :: cs ∧ isDigit c = true ∧ ∃ m ∈ cs, isDigit m = false := by
  unfold writtenSize
  split
  · exact ⟨'0', ['.', '0'], rfl, by decide, '.', by simp, by decide⟩
  · exact exists_write_eq_cons plainLayout (shortest x)

theorem readWritten?_negative (cs : List Char) :
    readWritten? (String.ofList ('-' :: cs)) = (readSize? cs).map negate := by
  rw [readWritten?, String.toList_ofList]
  rfl

theorem readWritten?_unsigned {c : Char} (cs : List Char) (hn : c ≠ 'n') (hsign : c ≠ '-') :
    readWritten? (String.ofList (c :: cs)) = readSize? (c :: cs) := by
  rw [readWritten?, String.toList_ofList]
  split
  case h_1 h => exact absurd (List.cons.inj h).1 hn
  case h_2 h => exact absurd (List.cons.inj h).1 hsign
  case h_3 => rfl

/-- A size with its sign. -/
def signedText (negative : Bool) (cs : List Char) : List Char :=
  if negative then '-' :: cs else cs

/-- A size in writing is read back with the sign before it. -/
theorem readWritten?_signedText {c : Char} {cs : List Char} {b : Nat} (hn : c ≠ 'n') (hsign : c ≠ '-')
    (hb : b ≤ infinityBits) (h : readSize? (c :: cs) = some (ofSignBits false b)) (negative : Bool) :
    readWritten? (String.ofList (signedText negative (c :: cs))) = some (ofSignBits negative b) := by
  cases negative with
  | false => exact (readWritten?_unsigned cs hn hsign).trans h
  | true =>
    refine (readWritten?_negative (c :: cs)).trans ?_
    rw [h, Option.map_some, negate_ofSignBits hb]

theorem written_of_finite (hnan : x.isNaN = false) (hinf : x.isInf = false) :
    written x = String.ofList (signedText (isNegative x) (writtenSize x)) := by
  unfold written
  rw [hnan, hinf]
  rfl

/-- Every double is read back from its text. -/
theorem readWritten?_written (x : Float) : readWritten? (written x) = some x := by
  cases hnan : x.isNaN with
  | true =>
    rw [written, hnan, if_pos rfl]
    exact congrArg some (eq_notANumber hnan).symm
  | false =>
    cases hinf : x.isInf with
    | true =>
      have hsize : readSize? ['i', 'n', 'f'] = some (ofSignBits false infinityBits) := rfl
      rw [written, hnan, hinf]
      exact (readWritten?_signedText (by decide) (by decide) (Nat.le_refl _) hsize _).trans
        (congrArg some (eq_of_isInf hinf).symm)
    | false =>
      obtain ⟨c, cs, hcs, hc, -⟩ := exists_writtenSize_eq_cons x
      have hsize := readSize?_writtenSize hnan hinf
      rw [hcs] at hsize
      rw [written_of_finite hnan hinf, hcs, readWritten?_signedText (ne_of_isDigit hc (by decide))
        (ne_of_isDigit hc (by decide)) (magnitudeBits_lt hnan hinf).le hsize, ofSignBits_parts]

end InfixCalculator.Number
