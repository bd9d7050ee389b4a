import InfixCalculator.Proofs.Exactness
import InfixCalculator.Proofs.Formulas

/-!
# Whole numbers are calculated exactly

- `Formula.whole?`: the whole number that a formula of digits, `+`, `-`, `*`, `%` and groups has, as long as no part of
  it is above `2 ^ 53`; the remainder is that of the division truncated toward zero;
- `Operator.rational?_apply`: what one operator does with the doubles of whole numbers;
- `Formula.rational?_value`: the value of a formula with a whole number is the double of this number;
- `calculation_of_whole`: so is the result of its calculation, in every spelling and under all options.
-/

namespace InfixCalculator

open Number

/-! ## Formulas of whole numbers -/

/-- The greatest size up to which there are doubles for all whole numbers. -/
def wholeBound : Nat := 2 ^ 53

/-- The number, if it is not too great. -/
def bounded? (i : ℤ) : Option ℤ :=
  if i.natAbs ≤ wholeBound then some i else none

/-- What an operator does with whole numbers. There is no remainder of a division by zero. -/
def Operator.whole? : Operator → ℤ → ℤ → Option ℤ
  | .plus, i, j => some (i + j)
  | .minus, i, j => some (i - j)
  | .times, i, j => some (i * j)
  | .modulo, i, j => if j = 0 then none else some (i.tmod j)
  | .divide, _, _ | .power, _, _ | .sqrt, _, _ => none

/-- The whole number that a literal without a point and without an exponent denotes. -/
def Literal.whole? (l : Literal) : Option ℤ :=
  if l.fraction = none ∧ l.exponent = none then some (digitsValue l.whole) else none

/-- The whole number that a formula has, if no part of it is too great. -/
def Formula.whole? : {k : Nat} → Formula k → Option ℤ
  | _, .literal l => l.whole?.bind bounded?
  | _, .constant _ => none
  | _, .group f => f.whole?
  | _, .lift f => f.whole?
  | _, .apply op _ l r => l.whole?.bind fun i => r.whole?.bind fun j => (op.whole? i j).bind bounded?

/-! ## Exact values -/

variable {i j z : ℤ} {x y : Float} {k : Nat}

theorem bounded?_eq_some_iff : bounded? i = some z ↔ i = z ∧ z.natAbs ≤ wholeBound := by
  unfold bounded?
  constructor
  · intro h
    obtain ⟨hi, h⟩ := Option.ite_none_right_eq_some.mp h
    obtain rfl := Option.some.inj h
    exact ⟨rfl, hi⟩
  · rintro ⟨rfl, hi⟩
    exact if_pos hi

/-- An operator is exact on the doubles of whole numbers, as far as the result is not too great. -/
theorem Operator.rational?_apply {op : Operator} (hx : rational? x = some (i : ℚ)) (hy : rational? y = some (j : ℚ))
    (hi : i.natAbs ≤ wholeBound) (h : op.whole? i j = some z) (hz : z.natAbs ≤ wholeBound) :
    rational? (op.apply x y) = some (z : ℚ) := by
  obtain ⟨w, hw⟩ := exists_whole hz
  cases op with
  | sqrt | power | divide => cases h
  | plus =>
    obtain rfl := Option.some.inj h
    rw [Int.cast_add] at hw ⊢
    exact rational?_add hx hy hw
  | minus =>
    obtain rfl := Option.some.inj h
    rw [Int.cast_sub] at hw ⊢
    exact rational?_sub hx hy hw
  | times =>
    obtain rfl := Option.some.inj h
    rw [Int.cast_mul] at hw ⊢
    exact rational?_mul hx hy hw
  | modulo =>
    obtain ⟨hj, htmod⟩ := Option.ite_none_left_eq_some.mp h
    obtain rfl := Option.some.inj htmod
    exact rational?_remainder hx hy hj hi

theorem Literal.rational?_value {l : Literal} (h : l.whole? = some z) (hz : z.natAbs ≤ wholeBound) :
    rational? l.value = some (z : ℚ) := by
  obtain ⟨⟨hfraction, hexponent⟩, hwhole⟩ := Option.ite_none_right_eq_some.mp h
  obtain rfl := Option.some.inj hwhole
  have hvalue : l.value = Number.ofDecimal (digitsValue l.whole) 0 := by
    simp [value, numeral, Numeral.value, Numeral.significand, Numeral.scale, hfraction, hexponent, digitsValue]
  rw [Int.natAbs_natCast] at hz
  rw [hvalue, rational?_ofDecimal hz, Int.cast_natCast]

/-- The value of a formula with a whole number is the double of this number, which is not too great. -/
theorem Formula.rational?_value {f : Formula k} (h : f.whole? = some z) :
    rational? f.value = some (z : ℚ) ∧ z.natAbs ≤ wholeBound := by
  induction f generalizing z with
  | literal l =>
    obtain ⟨i, hl, hi⟩ := Option.bind_eq_some_iff.mp h
    obtain ⟨rfl, hz⟩ := bounded?_eq_some_iff.mp hi
    exact ⟨Literal.rational?_value hl hz, hz⟩
  | constant n => cases h
  | group f ih => exact ih h
  | lift f ih => exact ih h
  | apply op hop l r ihl ihr =>
    obtain ⟨i, hl, h⟩ := Option.bind_eq_some_iff.mp h
    obtain ⟨j, hr, h⟩ := Option.bind_eq_some_iff.mp h
    obtain ⟨z', hop', hz'⟩ := Option.bind_eq_some_iff.mp h
    obtain ⟨rfl, hz⟩ := bounded?_eq_some_iff.mp hz'
    obtain ⟨hx, hi⟩ := ihl hl
    exact ⟨Operator.rational?_apply hx (ihr hr).1 hi hop' hz, hz⟩

/-! ## Calculation -/

/-- However it is spelled and whatever the options, a formula with a whole number is calculated to the double of this
number. -/
theorem calculation_of_whole {f : Formula 4} (hf : f.whole? = some z) {s : String}
    (h : Spelling f.symbols s.toList) (policy : Policy) (allowPartial : Bool) :
    ∃ c, Calculation.ofExpression ⟨.ok policy, allowPartial⟩ s = .ok c ∧ c.diagnostics = [] ∧
      rational? c.result = some (z : ℚ) := by
  obtain ⟨e, hd, hv, hterm⟩ := f.derives_tokenize h
  refine ⟨_, ofExpression_derives hd hterm policy allowPartial, rfl, ?_⟩
  rw [hv]
  exact (Formula.rational?_value hf).1

/-- The remainder is that of the product on its left, which is `2 ^ 53`, and is itself a factor. -/
theorem calculation_of_whole_remainder :
    ∃ (f : Formula 4) (c : Calculation), f.whole? = some (-118) ∧
      Spelling f.symbols " 2-8*1125899906842624%(0 -7 )* 30".toList ∧
      Calculation.ofExpression ⟨.ok .recover, true⟩ " 2-8*1125899906842624%(0 -7 )* 30" = .ok c ∧
      c.diagnostics = [] ∧ rational? c.result = some ((-118 : ℤ) : ℚ) := by
  obtain ⟨f, hf, h⟩ : ∃ f : Formula 4, f.whole? = some (-118) ∧
      Spelling f.symbols " 2-8*1125899906842624%(0 -7 )* 30".toList := by
    refine ⟨.apply .minus (by decide)
      (.lift (.lift (.lift (.lift (.literal (.ofDigits ['2'] (by decide) (by decide)))))))
      (.apply .times (by decide)
        (.apply .modulo (by decide)
          (.apply .times (by decide)
            (.lift (.lift (.lift (.literal (.ofDigits ['8'] (by decide) (by decide))))))
            (.lift (.lift (.literal (.ofDigits "1125899906842624".toList (by decide) (by decide))))))
          (.lift (.lift (.group (.apply .minus (by decide)
            (.lift (.lift (.lift (.lift (.literal (.ofDigits ['0'] (by decide) (by decide)))))))
            (.lift (.lift (.lift (.literal (.ofDigits ['7'] (by decide) (by decide)))))))))))
        (.lift (.lift (.literal (.ofDigits ['3', '0'] (by decide) (by decide)))))), by decide +kernel, ?_⟩
    exact .cons 1 _ (.cons 0 _ (.cons 0 _ (.cons 0 _ (.cons 0 _ (.cons 0 _ (.cons 0 _ (.cons 0 _ (.cons 1 _ (.cons 0 _
      (.cons 1 _ (.cons 0 _ (.cons 1 _ (.nil 0) (by decide)) (by decide)) (by decide)) (by decide)) (by decide))
        (by decide)) (by decide)) (by decide)) (by decide)) (by decide)) (by decide)) (by decide)) (by decide)
  obtain ⟨c, hc, hdiagnostics, hresult⟩ := calculation_of_whole hf h .recover true
  exact ⟨f, c, hf, h, hc, hdiagnostics, hresult⟩

end InfixCalculator
