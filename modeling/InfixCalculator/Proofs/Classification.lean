import InfixCalculator.Proofs.Literals
import InfixCalculator.Proofs.Nearest
import InfixCalculator.Proofs.NumberTexts
import Mathlib.Computability.RegularExpressions

/-!
# What a word is

- `numberPattern` is the regular expression of numbers; `mem_numberPattern_iff`: the texts that it matches are the number
  literals;
- `exists_literal_of_read?`: only literals are read as numerals, so that the numbers among words are the literals with
  blanks around them (`kindOf_number_iff`);
- `Literal.rational` is the number that a literal denotes, and `nearest_value` says that its value is the nearest double;
- `classify_grammar`: which words are operators, constants, numbers and terms, and what the values of numbers are.
-/

namespace InfixCalculator

open Number Computability

/-! ## The pattern of numbers -/

/-- The pattern of one character out of a list. -/
def oneOf (cs : List Char) : RegularExpression Char :=
  (cs.map RegularExpression.char).sum

/-- The pattern of a digit. -/
def digitPattern : RegularExpression Char :=
  oneOf ['0', '1', '2', '3', '4', '5', '6', '7', '8', '9']

/-- The pattern of one digit or more. -/
def digitsPattern : RegularExpression Char :=
  digitPattern * digitPattern.star

/-- The pattern of what may be left out. -/
def optionalPattern (pattern : RegularExpression Char) : RegularExpression Char :=
  pattern + 1

/-- The pattern of numbers: digits, perhaps a point and perhaps digits after it, or a point and digits; and perhaps an
exponent, which is the letter of exponents and digits. -/
def numberPattern : RegularExpression Char :=
  (digitsPattern * optionalPattern (.char '.') * digitPattern.star + .char '.' * digitsPattern) *
    optionalPattern (oneOf ['e', 'E'] * digitsPattern)

variable {cs w : List Char}

theorem mem_oneOf_iff {ds : List Char} : w ∈ (oneOf ds).matches' ↔ ∃ c ∈ ds, w = [c] := by
  induction ds with
  | nil =>
    rw [oneOf, List.map_nil, List.sum_nil, RegularExpression.matches'_zero]
    simp [Language.notMem_zero]
  | cons d ds ih =>
    have hsum : oneOf (d :: ds) = .char d + oneOf ds := rfl
    have hchar : w ∈ (RegularExpression.char d).matches' ↔ w = [d] := Iff.rfl
    rw [hsum, RegularExpression.matches'_add, Language.mem_add, ih, hchar]
    simp

theorem isDigit_iff_mem {c : Char} : isDigit c = true ↔ c ∈ ['0', '1', '2', '3', '4', '5', '6', '7', '8', '9'] := by
  constructor
  · intro h
    obtain ⟨hge, hle⟩ := Literal.toNat_of_isDigit h
    rw [← Char.ofNat_toNat c]
    generalize c.toNat = n at hge hle
    interval_cases n <;> decide
  · intro h
    simp only [List.mem_cons, List.not_mem_nil, or_false] at h
    rcases h with rfl | rfl | rfl | rfl | rfl | rfl | rfl | rfl | rfl | rfl <;> decide

theorem mem_digitPattern_iff : w ∈ digitPattern.matches' ↔ ∃ c, isDigit c = true ∧ w = [c] := by
  rw [digitPattern, mem_oneOf_iff]
  simp only [isDigit_iff_mem]

theorem mem_digits_iff : w ∈ digitPattern.star.matches' ↔ ∀ c ∈ w, isDigit c = true := by
  rw [RegularExpression.matches'_star, Language.mem_kstar]
  constructor
  · rintro ⟨words, rfl, hwords⟩ c hc
    obtain ⟨word, hword, hc⟩ := List.mem_flatten.mp hc
    obtain ⟨d, hd, rfl⟩ := mem_digitPattern_iff.mp (hwords word hword)
    rwa [List.mem_singleton.mp hc]
  · intro hw
    refine ⟨w.map fun c => [c], ?_, ?_⟩
    · rw [← List.flatMap_def, List.flatMap_singleton']
    · intro word hword
      obtain ⟨c, hc, rfl⟩ := List.mem_map.mp hword
      exact mem_digitPattern_iff.mpr ⟨c, hw c hc, rfl⟩

theorem mem_digitsPattern_iff : w ∈ digitsPattern.matches' ↔ w ≠ [] ∧ ∀ c ∈ w, isDigit c = true := by
  rw [digitsPattern, RegularExpression.matches'_mul, Language.mem_mul]
  constructor
  · rintro ⟨u, hu, v, hv, rfl⟩
    obtain ⟨c, hc, rfl⟩ := mem_digitPattern_iff.mp hu
    exact ⟨List.cons_ne_nil c v, List.forall_mem_cons.mpr ⟨hc, mem_digits_iff.mp hv⟩⟩
  · rintro ⟨hne, hw⟩
    obtain ⟨c, v, rfl⟩ := List.exists_cons_of_ne_nil hne
    obtain ⟨hc, hv⟩ := List.forall_mem_cons.mp hw
    exact ⟨[c], mem_digitPattern_iff.mpr ⟨c, hc, rfl⟩, v, mem_digits_iff.mpr hv, rfl⟩

theorem mem_optionalPattern_iff {pattern : RegularExpression Char} :
    w ∈ (optionalPattern pattern).matches' ↔ w ∈ pattern.matches' ∨ w = [] := by
  rw [optionalPattern, RegularExpression.matches'_add, Language.mem_add, RegularExpression.matches'_epsilon,
    Language.mem_one]

theorem mem_char_iff {c : Char} : w ∈ (RegularExpression.char c).matches' ↔ w = [c] :=
  Iff.rfl

/-- The texts of exponents are those that their pattern matches. -/
theorem mem_exponentPattern_iff :
    w ∈ (optionalPattern (oneOf ['e', 'E'] * digitsPattern)).matches' ↔
      ∃ exponent : Option (Char × List Char), Literal.exponentText exponent = w ∧
        ∀ m ∈ exponent, (m.1 = 'e' ∨ m.1 = 'E') ∧ m.2 ≠ [] ∧ ∀ c ∈ m.2, isDigit c = true := by
  rw [mem_optionalPattern_iff, RegularExpression.matches'_mul, Language.mem_mul]
  constructor
  · rintro (⟨u, hu, v, hv, rfl⟩ | rfl)
    · obtain ⟨c, hc, rfl⟩ := mem_oneOf_iff.mp hu
      obtain ⟨hne, hds⟩ := mem_digitsPattern_iff.mp hv
      refine ⟨some (c, v), rfl, ?_⟩
      rintro m ⟨⟩
      exact ⟨by simpa using hc, hne, hds⟩
    · exact ⟨none, rfl, by simp⟩
  · rintro ⟨exponent, rfl, hm⟩
    cases exponent with
    | none => exact Or.inr rfl
    | some m =>
      obtain ⟨hmark, hds⟩ := hm m rfl
      refine Or.inl ⟨[m.1], mem_oneOf_iff.mpr ⟨m.1, ?_, rfl⟩, m.2, mem_digitsPattern_iff.mpr hds, rfl⟩
      simpa using hmark

/-- The texts of digits and fractions are those that their pattern matches. -/
theorem mem_mantissaPattern_iff :
    w ∈ (digitsPattern * optionalPattern (.char '.') * digitPattern.star + .char '.' * digitsPattern).matches' ↔
      ∃ (whole : List Char) (fraction : Option (List Char)), whole ++ Literal.fractionText fraction = w ∧
        (∀ c ∈ whole, isDigit c = true) ∧ (∀ ds ∈ fraction, ∀ c ∈ ds, isDigit c = true) ∧
        (whole ≠ [] ∨ ∃ ds ∈ fraction, ds ≠ []) := by
  simp only [RegularExpression.matches'_add, RegularExpression.matches'_mul, Language.mem_add, Language.mem_mul,
    mem_digitsPattern_iff, mem_digits_iff, mem_optionalPattern_iff, mem_char_iff]
  constructor
  · rintro (⟨_, ⟨ds, ⟨hne, hds⟩, dot, rfl | rfl, rfl⟩, fs, hfs, rfl⟩ | ⟨_, rfl, ds, ⟨hne, hds⟩, rfl⟩)
    · refine ⟨ds, some fs, by simp [Literal.fractionText], hds, ?_, Or.inl hne⟩
      rintro _ ⟨⟩
      exact hfs
    · -- without a point the digits of both patterns are one digit string
      refine ⟨ds ++ fs, none, by simp [Literal.fractionText], ?_, by simp, Or.inl (by simp [hne])⟩
      exact fun c hc => (List.mem_append.mp hc).elim (hds c) (hfs c)
    · refine ⟨[], some ds, rfl, by simp, ?_, Or.inr ⟨ds, rfl, hne⟩⟩
      rintro _ ⟨⟩
      exact hds
  · rintro ⟨whole, fraction, rfl, hwhole, hfraction, hsome⟩
    by_cases hne : whole = []
    · obtain ⟨ds, rfl, hds⟩ := hsome.resolve_left (not_not.mpr hne)
      exact Or.inr ⟨['.'], rfl, ds, ⟨hds, hfraction ds rfl⟩, by rw [hne]; rfl⟩
    · left
      cases fraction with
      | none => exact ⟨_, ⟨whole, ⟨hne, hwhole⟩, [], Or.inr rfl, rfl⟩, [], by simp, by simp [Literal.fractionText]⟩
      | some ds =>
        exact ⟨_, ⟨whole, ⟨hne, hwhole⟩, ['.'], Or.inl rfl, rfl⟩, ds, hfraction ds rfl,
          by simp [Literal.fractionText]⟩

/-- The texts that the pattern of numbers matches are the number literals. -/
theorem mem_numberPattern_iff : w ∈ numberPattern.matches' ↔ ∃ l : Literal, l.text = w := by
  rw [numberPattern, RegularExpression.matches'_mul, Language.mem_mul]
  constructor
  · rintro ⟨u, hu, v, hv, rfl⟩
    obtain ⟨whole, fraction, rfl, hwhole, hfraction, hsome⟩ := mem_mantissaPattern_iff.mp hu
    obtain ⟨exponent, rfl, hm⟩ := mem_exponentPattern_iff.mp hv
    exact ⟨⟨whole, fraction, exponent, hwhole, hfraction, fun m h => (hm m h).1, fun m h => (hm m h).2, hsome⟩,
      (List.append_assoc ..).symm⟩
  · rintro ⟨l, rfl⟩
    refine ⟨l.whole ++ Literal.fractionText l.fraction, mem_mantissaPattern_iff.mpr ?_, Literal.exponentText l.exponent,
      mem_exponentPattern_iff.mpr ?_, List.append_assoc ..⟩
    · exact ⟨l.whole, l.fraction, rfl, l.whole_digits, l.fraction_digits, l.some_digit⟩
    · exact ⟨l.exponent, rfl, fun m h => ⟨l.exponent_mark m h, l.exponent_digits m h⟩⟩

/-! ## Reading -/

theorem exists_fraction (rest : List Char) :
    ∃ fraction : Option (List Char), rest = Literal.fractionText fraction ++ (Numeral.readFraction rest).2 ∧
      fraction.getD [] = (Numeral.readFraction rest).1 ∧ ∀ ds ∈ fraction, ∀ c ∈ ds, isDigit c = true := by
  unfold Numeral.readFraction
  split
  · next ds =>
    refine ⟨some (ds.takeWhile isDigit), ?_, rfl, ?_⟩
    · rw [Literal.fractionText, List.cons_append, List.takeWhile_append_dropWhile]
    · rintro _ ⟨⟩ c hc
      exact List.mem_takeWhile_imp hc
  · exact ⟨none, rfl, rfl, by simp⟩

theorem exists_exponent {rest ds : List Char} (h : Numeral.readExponent? rest = some ds) :
    ∃ exponent : Option (Char × List Char), rest = Literal.exponentText exponent ∧
      (exponent.map Prod.snd).getD [] = ds ∧ (∀ m ∈ exponent, m.1 = 'e' ∨ m.1 = 'E') ∧
      ∀ m ∈ exponent, m.2 ≠ [] ∧ ∀ c ∈ m.2, isDigit c = true := by
  unfold Numeral.readExponent? at h
  split at h
  · obtain rfl := Option.some.inj h
    exact ⟨none, rfl, rfl, by simp, by simp⟩
  · next c cs =>
    split at h
    · next hc =>
      obtain rfl := Option.some.inj h
      refine ⟨some (c, cs), rfl, rfl, ?_, ?_⟩
      · rintro _ ⟨⟩
        exact hc.1
      · rintro _ ⟨⟩
        exact ⟨hc.2.1, List.all_eq_true.mp hc.2.2⟩
    · cases h

/-- What reads as a numeral is a written literal. -/
theorem exists_literal_of_read? {n : Numeral} (h : Numeral.read? cs = some n) :
    ∃ l : Literal, l.text = cs ∧ l.numeral = n := by
  obtain ⟨fraction, hrest, hgetD, hfraction⟩ := exists_fraction (cs.dropWhile isDigit)
  simp only [Numeral.read?] at h
  split at h
  case isTrue => cases h
  case isFalse hsome =>
    obtain ⟨ds, hds, rfl⟩ := Option.map_eq_some_iff.mp h
    obtain ⟨exponent, hexponent, hsnd, hmark, hdigits⟩ := exists_exponent hds
    refine ⟨⟨cs.takeWhile isDigit, fraction, exponent, fun c hc => List.mem_takeWhile_imp hc, hfraction, hmark, hdigits,
      ?_⟩, ?_, ?_⟩
    · rw [← hgetD] at hsome
      cases fraction with
      | none => exact Or.inl fun hw => hsome ⟨hw, rfl⟩
      | some fs => exact (not_and_or.mp hsome).imp_right fun hf => ⟨fs, rfl, hf⟩
    · rw [Literal.text, ← hexponent, ← hrest, List.takeWhile_append_dropWhile]
    · simp only [Literal.numeral, hgetD, hsnd]

/-- The numbers are the words that are literals, blanks around them apart. -/
theorem kindOf_number_iff {x : Float} :
    kindOf w = .number x ↔ ∃ l : Literal, l.text = Text.trim w ∧ l.value = x := by
  rw [kindOf_eq_number_iff, numeral?, Option.map_eq_some_iff]
  constructor
  · rintro ⟨n, hn, rfl⟩
    obtain ⟨l, hl, rfl⟩ := exists_literal_of_read? hn
    exact ⟨l, hl, rfl⟩
  · rintro ⟨l, hl, rfl⟩
    exact ⟨l.numeral, hl ▸ l.read?_text, rfl⟩

/-! ## The number that a literal denotes -/

namespace Literal

variable (l : Literal)

/-- The number that the literal denotes. -/
def rational : ℚ :=
  (digitsValue l.whole + digitsValue (l.fraction.getD []) / 10 ^ (l.fraction.getD []).length) *
    10 ^ digitsValue ((l.exponent.map Prod.snd).getD [])

theorem significand_mul_scale : (l.numeral.significand * 10 ^ l.numeral.scale : ℚ) = l.rational := by
  have hten : (10 : ℚ) ≠ 0 := by norm_num
  unfold numeral Numeral.significand Numeral.scale rational
  rw [digitsValue_append, zpow_sub₀ hten, zpow_natCast, zpow_natCast]
  push_cast
  field_simp

/-- The value of a literal is the double nearest to the number that it denotes. -/
theorem nearest_value : Nearest l.rational l.value := by
  rw [← significand_mul_scale]
  exact nearest_ofDecimal _ _

/-- The value of a literal is a number, and has no sign. -/
theorem value_sign : l.value.isNaN = false ∧ isNegative l.value = false := by
  obtain ⟨b, hb, hvalue⟩ := exists_bits_ofDecimal l.numeral.significand l.numeral.scale
  rw [value, Numeral.value, hvalue]
  exact ⟨isNaN_ofSignBits false hb, isNegative_ofSignBits false hb⟩

end Literal

/-! ## Classification -/

/-- The text is the symbol of an operator. -/
def IsSymbol (text : String) : Prop :=
  text ∈ ["SQRT", "POWER", "*", "/", "%", "+", "-"]

/-- The text is the name of the constant, each letter of it small or capital. -/
def IsConstantName (text : String) : Prop :=
  ∃ c d, text.toList = [c, d] ∧ (c = 'p' ∨ c = 'P') ∧ (d = 'i' ∨ d = 'I')

/-- The text without the blanks around it is a number. -/
def IsNumber (text : String) : Prop :=
  Text.trim text.toList ∈ numberPattern.matches'

variable {text : String}

theorem toLower_eq_iff {c d : Char} (hd : d.toLower = d) : c.toLower = d ↔ c = d ∨ c = d.toUpper := by
  constructor
  · intro h
    by_cases hc : c.isUpper = true
    · right
      rw [← h, Char.toUpper_toLower_eq_toUpper, Char.toUpper_eq_of_not_isLower (Char.not_isLower_of_isUpper hc)]
    · exact Or.inl ((Char.toLower_eq_of_not_isUpper hc).symm.trans h)
  · rintro (rfl | rfl)
    · exact hd
    · rw [Char.toLower_toUpper_eq_toLower, hd]

theorem kindOf_operator_iff : kindOf text.toList = .operator ↔ IsSymbol text := by
  have hsymbol : IsSymbol text ↔ ∃ op : Operator, op.symbol = text := by
    have hlist : ["SQRT", "POWER", "*", "/", "%", "+", "-"] = Operator.all.map Operator.symbol := rfl
    rw [IsSymbol, hlist, List.mem_map]
    exact exists_congr fun op => and_iff_right op.mem_all
  rw [hsymbol]
  constructor
  · intro h
    rcases kindOf_cases text.toList with ⟨op, hop, -⟩ | ⟨x, hx⟩ | ⟨x, hx⟩ | hx
    · exact ⟨op, by simpa using Operator.ofSymbol?_eq_some_iff.mp hop⟩
    all_goals rw [hx] at h; cases h
  · rintro ⟨op, hop⟩
    have hfound : Operator.ofSymbol? text = some op := Operator.ofSymbol?_eq_some_iff.mpr hop
    simp [kindOf, hfound]

theorem kindOf_constant_iff : (∃ x, kindOf text.toList = .constant x) ↔ IsConstantName text := by
  have hletters : IsConstantName text ↔ text.toList.map Char.toLower = ['p', 'i'] := by
    have hp : ∀ c : Char, c.toLower = 'p' ↔ c = 'p' ∨ c = 'P' := fun c => toLower_eq_iff (by decide)
    have hi : ∀ c : Char, c.toLower = 'i' ↔ c = 'i' ∨ c = 'I' := fun c => toLower_eq_iff (by decide)
    constructor
    · rintro ⟨c, d, hcd, hc, hd⟩
      rw [hcd, List.map_cons, List.map_singleton, (hp c).mpr hc, (hi d).mpr hd]
    · intro h
      obtain ⟨c, cs, hcs, hc, h⟩ := List.map_eq_cons_iff.mp h
      obtain ⟨d, rfl, hd⟩ := List.map_eq_singleton_iff.mp h
      exact ⟨c, d, hcs, (hp c).mp hc, (hi d).mp hd⟩
  rw [hletters]
  constructor
  · rintro ⟨x, hx⟩
    by_contra hno
    have hnone := constant?_eq_none hno
    unfold kindOf at hx
    rw [hnone] at hx
    split at hx
    · cases hx
    · cases hn : numeral? text.toList <;> simp [hn] at hx
  · intro h
    exact ⟨_, ConstantName.kindOf_letters ⟨text.toList, h⟩⟩

theorem kindOf_number_iff_isNumber : (∃ x, kindOf text.toList = .number x) ↔ IsNumber text := by
  simp only [kindOf_number_iff, IsNumber, mem_numberPattern_iff]
  constructor
  · rintro ⟨x, l, hl, -⟩
    exact ⟨l, hl⟩
  · rintro ⟨l, hl⟩
    exact ⟨l.value, l, hl, rfl⟩

theorem kindOf_term_iff : kindOf text.toList = .term ↔ ¬IsSymbol text ∧ ¬IsConstantName text ∧ ¬IsNumber text := by
  rw [← kindOf_operator_iff, ← kindOf_constant_iff, ← kindOf_number_iff_isNumber]
  rcases kindOf_cases text.toList with ⟨op, -, h⟩ | ⟨x, h⟩ | ⟨x, h⟩ | h <;> simp [h]

/-- What a text is as a word, and what its value is. -/
structure Classified (text : String) (t : Token) : Prop where
  operator : t.kind = .operator ↔ IsSymbol text
  constant : (∃ x, t.kind = .constant x) ↔ IsConstantName text
  number : (∃ x, t.kind = .number x) ↔ IsNumber text
  term : t.kind = .term ↔ ¬IsSymbol text ∧ ¬IsConstantName text ∧ ¬IsNumber text
  valueless : t.kind = .term → t.value? = none
  /-- The value of a number is the double nearest to what the text without the blanks denotes. -/
  value : ∀ l : Literal, l.text = Text.trim text.toList → ∃ x, t.kind = .number x ∧ Nearest l.rational x ∧
    x.isNaN = false ∧ isNegative x = false
  /-- The value of a number is that of every text that is the same without the blanks around it. -/
  trimmed : ∀ (other : String) (q : Option Nat) (x : Float), Text.trim other.toList = Text.trim text.toList →
    t.kind = .number x → (classify other.toList q).kind = .number x

/-- A word is an operator, the constant or a number just when its text is, and a term otherwise; and the value of a
number is the double nearest to it. -/
theorem classify_grammar (text : String) (p : Option Nat) :
    Classified text (classify text.toList p) ∧ (classify text.toList p).text = text ∧
      (classify text.toList p).position = p := by
  refine ⟨⟨kindOf_operator_iff, kindOf_constant_iff, kindOf_number_iff_isNumber, kindOf_term_iff, ?_, ?_, ?_⟩, ?_, rfl⟩
  · intro h
    rw [Token.value?, h]
    rfl
  · intro l hl
    exact ⟨l.value, kindOf_number_iff.mpr ⟨l, hl, rfl⟩, l.nearest_value, l.value_sign⟩
  · intro other q x hother hx
    obtain ⟨l, hl, hvalue⟩ := kindOf_number_iff.mp hx
    exact kindOf_number_iff.mpr ⟨l, hl.trans hother.symm, hvalue⟩
  · exact String.ofList_toList

end InfixCalculator
