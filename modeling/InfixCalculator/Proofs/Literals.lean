import InfixCalculator.Proofs.Scanning

/-!
# Number literals and names of constants

- `Literal` is a number as it can be written: digits with an optional point and further digits, or a point and digits,
  and an optional exponent after `e` or `E`;
- `read?_text`: a written literal reads as its numeral;
- `kindOf_of_mem`, `kindOf_eq_number_iff`: a word with a digit or a blank is a number or a term, and the numbers are the
  words that are numerals, blanks around them apart (`numeral?_blanks`);
- `kindOf_text`, `kindOf_letters`: as a word a literal is a number with its value, and a name of `pi` in any letter case
  is the constant.
-/

namespace InfixCalculator

open Number

/-- A number literal, part by part. -/
structure Literal where
  whole : List Char
  /-- The digits after the point, if there is a point. -/
  fraction : Option (List Char)
  /-- The mark of the exponent and its digits, if there is one. -/
  exponent : Option (Char × List Char)
  whole_digits : ∀ c ∈ whole, isDigit c = true
  fraction_digits : ∀ ds ∈ fraction, ∀ c ∈ ds, isDigit c = true
  exponent_mark : ∀ m ∈ exponent, m.1 = 'e' ∨ m.1 = 'E'
  exponent_digits : ∀ m ∈ exponent, m.2 ≠ [] ∧ ∀ c ∈ m.2, isDigit c = true
  some_digit : whole ≠ [] ∨ ∃ ds ∈ fraction, ds ≠ []

/-- The name of the constant, in any letter case. -/
structure ConstantName where
  letters : List Char
  spells : letters.map Char.toLower = ['p', 'i']

/-- Characters of a class end where a character of another class follows. -/
theorem takeWhile_class {p : Char → Bool} {cs rest : List Char} (h : ∀ c ∈ cs, p c = true)
    (hrest : ∀ c ∈ rest.head?, p c = false) :
    (cs ++ rest).takeWhile p = cs ∧ (cs ++ rest).dropWhile p = rest := by
  rw [List.takeWhile_append_of_pos h, List.dropWhile_append_of_pos h]
  cases rest with
  | nil => simp
  | cons c rest => simp [hrest c rfl]

namespace Literal

/-- The point and the digits after it. -/
def fractionText : Option (List Char) → List Char
  | none => []
  | some ds => '.' :: ds

/-- The mark and the digits of the exponent. -/
def exponentText : Option (Char × List Char) → List Char
  | none => []
  | some (mark, ds) => mark :: ds

/-- The written literal. -/
def text (l : Literal) : List Char :=
  l.whole ++ (fractionText l.fraction ++ exponentText l.exponent)

/-- The digits of the literal. -/
def numeral (l : Literal) : Numeral :=
  ⟨l.whole, l.fraction.getD [], (l.exponent.map Prod.snd).getD []⟩

/-- The double nearest to the number. -/
def value (l : Literal) : Float :=
  l.numeral.value

/-- The literal of a whole number. -/
def ofDigits (ds : List Char) (hne : ds ≠ []) (h : ds.all isDigit = true) : Literal where
  whole := ds
  fraction := none
  exponent := none
  whole_digits := List.all_eq_true.mp h
  fraction_digits := by simp
  exponent_mark := by simp
  exponent_digits := by simp
  some_digit := Or.inl hne

/-- The literal of digits on both sides of a point. -/
def ofDecimal (ds fs : List Char) (hne : ds ≠ []) (hds : ds.all isDigit = true) (hfs : fs.all isDigit = true) :
    Literal where
  whole := ds
  fraction := some fs
  exponent := none
  whole_digits := List.all_eq_true.mp hds
  fraction_digits := by simpa using hfs
  exponent_mark := by simp
  exponent_digits := by simp
  some_digit := Or.inl hne

/-- The literal `0`. -/
def zero : Literal :=
  ofDigits ['0'] (by decide) (by decide)

theorem value_zero : zero.value = 0 := by
  decide +kernel

variable (l : Literal)

/-! ## Reading -/

theorem isDigit_of_mark {c : Char} (h : c = 'e' ∨ c = 'E') : isDigit c = false := by
  rcases h with rfl | rfl <;> decide

theorem head_exponentText : ∀ c ∈ (exponentText l.exponent).head?, c = 'e' ∨ c = 'E' := by
  intro c hc
  cases he : l.exponent with
  | none => simp [he, exponentText] at hc
  | some m =>
    obtain rfl : m.1 = c := by simpa [he, exponentText] using hc
    exact l.exponent_mark m he

theorem readExponent?_exponentText :
    Numeral.readExponent? (exponentText l.exponent) = some ((l.exponent.map Prod.snd).getD []) := by
  cases he : l.exponent with
  | none => rfl
  | some m =>
    obtain ⟨hne, hds⟩ := l.exponent_digits m he
    simpa [exponentText, Numeral.readExponent?, l.exponent_mark m he, hne] using hds

/-- The point and its digits are read up to the exponent. -/
theorem readFraction_fractionText :
    Numeral.readFraction (fractionText l.fraction ++ exponentText l.exponent) =
      (l.fraction.getD [], exponentText l.exponent) := by
  have hmark := head_exponentText l
  cases hf : l.fraction with
  | none =>
    cases he : exponentText l.exponent with
    | nil => rfl
    | cons c cs =>
      have hc : c ≠ '.' := by
        rintro rfl
        have := hmark '.' (by simp [he])
        simp at this
      simp [fractionText, Numeral.readFraction, hc]
  | some ds =>
    obtain ⟨htake, hdrop⟩ := takeWhile_class (l.fraction_digits ds hf) fun c hc => isDigit_of_mark (hmark c hc)
    simp [fractionText, Numeral.readFraction, htake, hdrop]

/-- A written literal reads as its numeral. -/
theorem read?_text : Numeral.read? l.text = some l.numeral := by
  have hstop : ∀ c ∈ (fractionText l.fraction ++ exponentText l.exponent).head?, isDigit c = false := by
    intro c hc
    cases hf : l.fraction with
    | none => exact isDigit_of_mark (head_exponentText l c (by simpa [hf, fractionText] using hc))
    | some ds =>
      obtain rfl : '.' = c := by simpa [hf, fractionText] using hc
      decide
  obtain ⟨htake, hdrop⟩ := takeWhile_class l.whole_digits hstop
  have hsome : ¬(l.whole = [] ∧ l.fraction.getD [] = []) := by
    rintro ⟨hw, hf⟩
    rcases l.some_digit with h | ⟨ds, hds, h⟩
    · exact h hw
    · rw [Option.mem_def.mp hds] at hf
      exact h hf
  simp only [Numeral.read?, text, htake, hdrop, readFraction_fractionText, hsome, if_false,
    readExponent?_exponentText]
  rfl

/-! ## As words -/

theorem mem_text {c : Char} (h : c ∈ l.text) : isDigit c = true ∨ c = '.' ∨ c = 'e' ∨ c = 'E' := by
  rcases List.mem_append.mp h with h | h
  · exact Or.inl (l.whole_digits c h)
  rcases List.mem_append.mp h with h | h
  · cases hf : l.fraction with
    | none => simp [hf, fractionText] at h
    | some ds =>
      rw [hf] at h
      rcases List.mem_cons.mp h with h | h
      · exact Or.inr (Or.inl h)
      · exact Or.inl (l.fraction_digits ds hf c h)
  · cases he : l.exponent with
    | none => simp [he, exponentText] at h
    | some m =>
      rw [he] at h
      rcases List.mem_cons.mp h with h | h
      · exact Or.inr (Or.inr (h ▸ l.exponent_mark m he))
      · exact Or.inl ((l.exponent_digits m he).2 c h)

/-- A literal begins with a digit or with its point. -/
theorem exists_text_eq_cons : ∃ c cs, l.text = c :: cs ∧ (isDigit c = true ∨ c = '.') := by
  unfold text
  cases hw : l.whole with
  | cons c cs => exact ⟨c, _, rfl, Or.inl (l.whole_digits c (by simp [hw]))⟩
  | nil =>
    rcases l.some_digit with h | ⟨ds, hds, -⟩
    · exact absurd hw h
    · rw [Option.mem_def.mp hds]
      exact ⟨'.', _, rfl, Or.inr rfl⟩

theorem toNat_of_isDigit {c : Char} (h : isDigit c = true) : 48 ≤ c.toNat ∧ c.toNat ≤ 57 := by
  simp only [isDigit, Bool.and_eq_true, decide_eq_true_eq] at h
  exact h

theorem toLower_of_isDigit {c : Char} (h : isDigit c = true) : c.toLower = c := by
  simp only [isDigit, Bool.and_eq_true, decide_eq_true_eq] at h
  have hno : ¬(c.val ≥ 'A'.val ∧ c.val ≤ 'Z'.val) := fun h' => absurd (UInt32.le_trans h'.1 h.2) (by decide)
  exact dif_neg hno

theorem isBlank_of_mem_text {c : Char} (h : c ∈ l.text) : Text.isBlank c = false := by
  rcases mem_text l h with h | rfl | rfl | rfl
  · have := toNat_of_isDigit h
    simp [Text.isBlank, Text.inRanges, Text.blankRanges]
    omega
  all_goals decide

theorem isDelimiter_of_mem_text {c : Char} (h : c ∈ l.text) : isDelimiter c = false := by
  cases hd : isDelimiter c with
  | false => rfl
  | true =>
    rcases isDelimiter_cases hd with rfl | rfl | rfl | ⟨op, hop⟩
    · exact absurd (mem_text l h) (by decide)
    · exact absurd (mem_text l h) (by decide)
    · exact absurd (mem_text l h) (by decide)
    · unfold Operator.ofChar? at hop
      split at hop
      case h_6 => cases hop
      all_goals exact absurd (mem_text l h) (by decide)

end Literal

namespace Text

theorem trimEnd_eq_self {cs : List Char} (h : ∀ c ∈ cs, isBlank c = false) : trimEnd cs = cs := by
  induction cs with
  | nil => rfl
  | cons c cs ih =>
    have hr := ih fun x hx => h x (List.mem_cons_of_mem _ hx)
    cases cs with
    | nil => simp [trimEnd, h c List.mem_cons_self]
    | cons d ds => rw [trimEnd, hr]

/-- A text without blanks has nothing to trim. -/
theorem trim_eq_self {cs : List Char} (h : ∀ c ∈ cs, isBlank c = false) : trim cs = cs := by
  have hs : trimStart cs = cs := by
    cases cs with
    | nil => rfl
    | cons c cs => simp [trimStart, h c List.mem_cons_self]
  rw [trim, hs, trimEnd_eq_self h]

theorem trimEnd_append {b : List Char} (hb : isBlankText b = true) (cs : List Char) :
    trimEnd (cs ++ b) = trimEnd cs := by
  induction cs with
  | nil => exact (trimEnd_eq_nil_iff b).mpr hb
  | cons c cs ih => rw [List.cons_append, trimEnd, trimEnd, ih]

/-- The blanks around a text are trimmed. -/
theorem trim_blanks {b b' : List Char} (hb : isBlankText b = true) (hb' : isBlankText b' = true) (cs : List Char) :
    trim (b ++ cs ++ b') = trim cs := by
  have hfront : trimStart (b ++ cs ++ b') = trimStart (cs ++ b') := by
    rw [trimStart, trimStart, List.append_assoc, List.dropWhile_append_of_pos (List.all_eq_true.mp hb)]
  rw [trim, trim, hfront, trimStart, List.dropWhile_append]
  split
  · next hempty =>
    rw [(trimEnd_eq_nil_iff _).mpr, trimStart, List.isEmpty_iff.mp hempty, trimEnd]
    exact List.all_eq_true.mpr fun c hc => List.all_eq_true.mp hb' c ((List.dropWhile_sublist _).subset hc)
  · exact trimEnd_append hb' _

theorem mem_of_mem_trimEnd {c : Char} {cs : List Char} (h : c ∈ trimEnd cs) : c ∈ cs := by
  induction cs with
  | nil => cases h
  | cons d ds ih =>
    rw [trimEnd] at h
    split at h
    · split at h
      · cases h
      · rw [List.mem_singleton.mp h]
        exact List.mem_cons_self
    · rcases List.mem_cons.mp h with rfl | h
      · exact List.mem_cons_self
      · exact List.mem_cons_of_mem _ (ih h)

theorem mem_of_mem_trim {c : Char} {cs : List Char} (h : c ∈ trim cs) : c ∈ cs :=
  (List.dropWhile_sublist _).subset (mem_of_mem_trimEnd h)

theorem toLower_of_isBlank {c : Char} (h : isBlank c = true) : c.toLower = c := by
  have hno : ¬(c.val ≥ 'A'.val ∧ c.val ≤ 'Z'.val) := by
    rintro ⟨hge, hle⟩
    have hnat : 65 ≤ c.toNat ∧ c.toNat ≤ 90 := ⟨UInt32.le_iff_toNat_le.mp hge, UInt32.le_iff_toNat_le.mp hle⟩
    simp [isBlank, inRanges, blankRanges] at h
    omega
  exact dif_neg hno

end Text

/-- A word is no operator unless it is one of the symbols. -/
theorem ofSymbol?_eq_none {word : List Char} (h : ∀ op : Operator, op.symbol.toList ≠ word) :
    Operator.ofSymbol? (String.ofList word) = none := by
  cases hs : Operator.ofSymbol? (String.ofList word) with
  | none => rfl
  | some op =>
    have := congrArg String.toList (Operator.ofSymbol?_eq_some_iff.mp hs)
    exact absurd (by simpa using this) (h op)

/-- In lower case a word is the name of the constant just when its letters are those of ASCII. -/
theorem lower_eq_name_iff {word : List Char} :
    Text.lower word = ['p', 'i'] ↔ word.map Char.toLower = ['p', 'i'] := by
  constructor
  · intro h
    match word with
    | [] => cases h
    | [c] => exact absurd (Text.lower_cons_inv h (Or.inl rfl) (by decide)).2 (by decide)
    | c :: d :: rest =>
      obtain ⟨hc, h⟩ := Text.lower_cons_inv h (Or.inl rfl) (by decide)
      obtain ⟨hd, h⟩ := Text.lower_cons_inv h (Or.inr rfl) (by decide)
      rw [Text.lower_eq_nil_iff.mp h]
      simp [hc, hd]
  · intro h
    obtain ⟨c, cs, rfl, hc, hcs⟩ := List.map_eq_cons_iff.mp h
    obtain ⟨d, rfl, hd⟩ := List.map_eq_singleton_iff.mp hcs
    simp [Text.lower, Text.lowerOf_of_toLower hc (by decide), Text.lowerOf_of_toLower hd (by decide)]

theorem constant?_eq_none {word : List Char} (h : word.map Char.toLower ≠ ['p', 'i']) : constant? word = none := by
  have hne : String.ofList (Text.lower word) ≠ "pi" := by
    intro he
    exact h (lower_eq_name_iff.mp (by simpa using congrArg String.toList he))
  simp [constant?, constants, List.lookup_cons, beq_eq_false_iff_ne.mpr hne]

/-! ## Words with a digit or a blank -/

/-- A word with a digit or a blank names no operator and no constant: it is a number if it is a numeral, or else a
term. -/
theorem kindOf_of_mem {word : List Char} {c : Char} (hc : c ∈ word)
    (h : isDigit c = true ∨ Text.isBlank c = true) : kindOf word = (numeral? word).elim .term .number := by
  have hor : (isDigit c || Text.isBlank c) = true := by simpa using h
  have hop : Operator.ofSymbol? (String.ofList word) = none := by
    refine ofSymbol?_eq_none fun op hs => ?_
    have hno : op.symbol.toList.all (fun c => !(isDigit c || Text.isBlank c)) = true := by cases op <;> rfl
    rw [hs] at hno
    simpa [hor] using List.all_eq_true.mp hno c hc
  have hconst : constant? word = none := by
    refine constant?_eq_none fun hs => ?_
    have hno : ['p', 'i'].all (fun c => !(isDigit c || Text.isBlank c)) = true := rfl
    have hlower : c.toLower = c := h.elim Literal.toLower_of_isDigit Text.toLower_of_isBlank
    have hmem : c ∈ word.map Char.toLower := hlower ▸ List.mem_map_of_mem hc
    rw [← hs] at hno
    simpa [hor] using List.all_eq_true.mp hno c hmem
  cases hn : numeral? word <;> simp [kindOf, hop, hconst, hn]

/-- A numeral has a digit. -/
theorem exists_digit_of_read? {cs : List Char} {n : Numeral} (h : Numeral.read? cs = some n) :
    ∃ c ∈ cs, isDigit c = true := by
  apply Classical.byContradiction
  intro hno
  have hnone : ∀ c ∈ cs, isDigit c = false := fun c hc => by
    rw [Bool.eq_false_iff]
    exact fun hd => hno ⟨c, hc, hd⟩
  have hwhole : ∀ {ds : List Char}, ds ⊆ cs → ds.takeWhile isDigit = [] := fun {ds} hds => by
    cases ds with
    | nil => rfl
    | cons d ds => simp [hnone d (hds List.mem_cons_self)]
  have hfraction : (Numeral.readFraction (cs.dropWhile isDigit)).1 = [] := by
    unfold Numeral.readFraction
    split
    · next ds hds =>
      have hsub : '.' :: ds ⊆ cs := hds ▸ (List.dropWhile_sublist isDigit).subset
      exact hwhole fun d hd => hsub (List.mem_cons_of_mem _ hd)
    · rfl
  simp [Numeral.read?, hwhole (List.Subset.refl cs), hfraction] at h

/-- The numbers are the words that are numerals. -/
theorem kindOf_eq_number_iff {word : List Char} {x : Float} : kindOf word = .number x ↔ numeral? word = some x := by
  constructor
  · intro h
    unfold kindOf at h
    split at h
    · cases h
    · split at h
      · cases h
      · next y hy => rw [hy, TokenKind.number.inj h]
      · cases h
  · intro h
    obtain ⟨n, hn, -⟩ := Option.map_eq_some_iff.mp h
    obtain ⟨c, hc, hd⟩ := exists_digit_of_read? hn
    rw [kindOf_of_mem (Text.mem_of_mem_trim hc) (Or.inl hd), h]
    rfl

/-- Blanks around a word do not change the numeral that it is. -/
theorem numeral?_blanks {b b' : List Char} (hb : Text.isBlankText b = true) (hb' : Text.isBlankText b' = true)
    (word : List Char) : numeral? (b ++ word ++ b') = numeral? word := by
  rw [numeral?, numeral?, Text.trim_blanks hb hb']

/-- A literal, as a word, is a number. -/
theorem kindOf_text (l : Literal) : kindOf l.text = .number l.value := by
  rw [kindOf_eq_number_iff, numeral?, Text.trim_eq_self fun c hc => l.isBlank_of_mem_text hc, l.read?_text]
  rfl

/-! ## Names of constants -/

namespace ConstantName

/-- The value of the constant. -/
def value (_ : ConstantName) : Float :=
  3.141592653589793

variable (n : ConstantName)

theorem letters_ne_nil : n.letters ≠ [] := by
  intro h
  have := n.spells
  simp [h] at this

theorem isDelimiter_of_mem_letters {c : Char} (h : c ∈ n.letters) : isDelimiter c = false := by
  have hc : c.toLower ∈ ['p', 'i'] := n.spells ▸ List.mem_map_of_mem h
  cases hd : isDelimiter c with
  | false => rfl
  | true =>
    rcases isDelimiter_cases hd with rfl | rfl | rfl | ⟨op, hop⟩
    · exact absurd hc (by decide)
    · exact absurd hc (by decide)
    · exact absurd hc (by decide)
    · unfold Operator.ofChar? at hop
      split at hop
      case h_6 => cases hop
      all_goals exact absurd hc (by decide)

/-- A name of the constant, as a word, is the constant. -/
theorem kindOf_letters : kindOf n.letters = .constant n.value := by
  have hop : Operator.ofSymbol? (String.ofList n.letters) = none := by
    refine ofSymbol?_eq_none fun op h => ?_
    have hs := n.spells
    rw [← h] at hs
    cases op <;> exact absurd hs (by decide)
  have hconst : constant? n.letters = some n.value := by
    rw [constant?, lower_eq_name_iff.mpr n.spells]
    rfl
  simp [kindOf, hop, hconst]

end ConstantName

end InfixCalculator
