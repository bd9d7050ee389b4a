import InfixCalculator.Json.Print
import InfixCalculator.Json.Read
import Mathlib

/-!
# Texts in JSON

- `hexadecimal_four`: a UTF-16 unit has four hexadecimal digits, and `unit?_hexadecimal` is their value;
- `readText?_printChar`: a character is read back from its escape, whatever follows; above the basic plane the two
  surrogates are put together again;
- `readText?_flatMap`: a text is read back up to its closing mark;
- `plain_printText`: a text in writing is printable ASCII.
-/

namespace InfixCalculator

namespace Text

variable {w n : Nat}

/-! ## Hexadecimal digits -/

theorem hexDigit?_digitChar : ∀ k < 16, hexDigit? (Nat.digitChar k) = some k := by
  decide

theorem hexadecimal_one (h : n < 16) : hexadecimal 1 n = [Nat.digitChar n] := by
  rw [hexadecimal, Nat.toDigits_of_lt_base h]
  rfl

/-- The last digit of a number, and the digits before it. -/
theorem hexadecimal_succ (hw : 0 < w) (n : Nat) :
    hexadecimal (w + 1) n = hexadecimal w (n / 16) ++ [Nat.digitChar (n % 16)] := by
  rcases Nat.lt_or_ge n 16 with hlt | hge
  · obtain ⟨w, rfl⟩ := Nat.exists_eq_add_of_le' hw
    rw [Nat.div_eq_of_lt hlt, Nat.mod_eq_of_lt hlt, hexadecimal, hexadecimal, Nat.toDigits_of_lt_base hlt,
      Nat.toDigits_zero]
    simp only [List.length_singleton, Nat.add_sub_cancel]
    rw [← List.replicate_succ']
  · have hdigits := Nat.toDigits_append_toDigits (by decide : 1 < 16) (Nat.div_pos hge (by decide))
      (Nat.mod_lt n (by decide : 0 < 16))
    rw [Nat.div_add_mod, Nat.toDigits_of_lt_base (Nat.mod_lt n (by decide))] at hdigits
    rw [hexadecimal, hexadecimal, ← hdigits]
    simp only [List.length_append, List.length_singleton, Nat.add_sub_add_right, List.append_assoc]

theorem hexadecimal_four (h : n < 0x10000) :
    hexadecimal 4 n = [Nat.digitChar (n / 16 / 16 / 16), Nat.digitChar (n / 16 / 16 % 16),
      Nat.digitChar (n / 16 % 16), Nat.digitChar (n % 16)] := by
  rw [hexadecimal_succ (by decide), hexadecimal_succ (by decide), hexadecimal_succ (by decide),
    hexadecimal_one (by omega)]
  rfl

end Text

namespace Json

open Text

variable {c : Char} {n : Nat}

theorem unit?_hexadecimal (h : n < 0x10000) :
    unit? (Nat.digitChar (n / 16 / 16 / 16)) (Nat.digitChar (n / 16 / 16 % 16)) (Nat.digitChar (n / 16 % 16))
      (Nat.digitChar (n % 16)) = some n := by
  have hmod : ∀ k, k % 16 < 16 := fun k => Nat.mod_lt k (by decide)
  have hvalue : ((n / 16 / 16 / 16 * 16 + n / 16 / 16 % 16) * 16 + n / 16 % 16) * 16 + n % 16 = n := by omega
  rw [unit?, hexDigit?_digitChar _ (by omega), hexDigit?_digitChar _ (hmod _), hexDigit?_digitChar _ (hmod _),
    hexDigit?_digitChar _ (hmod _)]
  exact congrArg some hvalue

/-! ## Units -/

/-- What a unit does, by the unit that waits for its partner. -/
theorem readText?_unit {a b c d : Char} (h : unit? a b c d = some n) (high : Option Nat) (rest : List Char) :
    readText? high ('\\' :: 'u' :: a :: b :: c :: d :: rest) = match high with
      | some first =>
        (char? (pairCodePoint first n)).bind fun ch => (readText? none rest).map fun p => (ch :: p.1, p.2)
      | none =>
        if isHighSurrogate n then readText? (some n) rest
        else (char? n).bind fun ch => (readText? none rest).map fun p => (ch :: p.1, p.2) := by
  rw [readText?.eq_def]
  split
  case h_1 heq => cases heq
  case h_2 heq =>
    obtain ⟨rfl, rfl, rfl, rfl, rfl⟩ : a = _ ∧ b = _ ∧ c = _ ∧ d = _ ∧ rest = _ := by simpa using heq
    rw [h]
    generalize readText? none rest = tail
    cases high <;> cases tail <;> rfl
  case h_3 hne heq =>
    obtain ⟨rfl, rfl⟩ := List.cons.inj heq
    exact absurd rfl (hne a b c d rest rfl)

theorem exists_unitEscape (h : n < 0x10000) :
    ∃ a b c d, unit? a b c d = some n ∧ ∀ rest, unitEscape n ++ rest = '\\' :: 'u' :: a :: b :: c :: d :: rest := by
  refine ⟨_, _, _, _, unit?_hexadecimal h, fun rest => ?_⟩
  unfold unitEscape
  rw [hexadecimal_four h]
  rfl

theorem char?_toNat (c : Char) : char? c.toNat = some c := by
  have hvalid : c.toNat.isValidChar := c.valid
  rw [char?, if_pos hvalid, Char.ofNat_toNat]

theorem codePoint_lt (c : Char) : c.toNat < 0x110000 := by
  have hvalid : c.toNat < 0xD800 ∨ 0xDFFF < c.toNat ∧ c.toNat < 0x110000 := c.valid
  omega

/-- A character is not a surrogate. -/
theorem isHighSurrogate_toNat (c : Char) : isHighSurrogate c.toNat = false := by
  have hvalid : c.toNat < 0xD800 ∨ 0xDFFF < c.toNat ∧ c.toNat < 0x110000 := c.valid
  rw [isHighSurrogate, Bool.and_eq_false_iff, decide_eq_false_iff_not, decide_eq_false_iff_not]
  omega

theorem isHighSurrogate_of_pair (h : n < 0x110000) : isHighSurrogate (0xD800 + (n - 0x10000) / 0x400) = true := by
  rw [isHighSurrogate, Bool.and_eq_true, decide_eq_true_eq, decide_eq_true_eq]
  omega

theorem pairCodePoint_of_pair (h : 0x10000 ≤ n) :
    pairCodePoint (0xD800 + (n - 0x10000) / 0x400) (0xDC00 + (n - 0x10000) % 0x400) = n := by
  unfold pairCodePoint
  omega

/-- A character is read back from its escape in UTF-16. -/
theorem readText?_codePointEscape (c : Char) (rest : List Char) :
    readText? none (codePointEscape c.toNat ++ rest) = (readText? none rest).map fun p => (c :: p.1, p.2) := by
  have hbound := codePoint_lt c
  unfold codePointEscape
  split
  case isTrue hbasic =>
    obtain ⟨w, x, y, z, hunit, happend⟩ := exists_unitEscape hbasic
    rw [happend, readText?_unit hunit]
    simp only [isHighSurrogate_toNat, Bool.false_eq_true, if_false, char?_toNat, Option.bind_some]
  case isFalse hastral =>
    obtain ⟨w, x, y, z, hhigh, happend⟩ := exists_unitEscape (n := 0xD800 + (c.toNat - 0x10000) / 0x400) (by omega)
    obtain ⟨w', x', y', z', hlow, happend'⟩ := exists_unitEscape (n := 0xDC00 + (c.toNat - 0x10000) % 0x400) (by omega)
    have hpair := char?_toNat c
    rw [← pairCodePoint_of_pair (Nat.le_of_not_lt hastral)] at hpair
    rw [List.append_assoc, happend, readText?_unit hhigh]
    simp only [isHighSurrogate_of_pair hbound, if_true]
    rw [happend', readText?_unit hlow]
    simp only [hpair, Option.bind_some]

/-! ## Characters -/

/-- A character after a backslash is the one that it stands for. -/
theorem readText?_escape {e : Char} (hu : e ≠ 'u') (h : escape? e = some c) (rest : List Char) :
    readText? none ('\\' :: e :: rest) = (readText? none rest).map fun p => (c :: p.1, p.2) := by
  rw [readText?.eq_def]
  split
  case h_1 heq => cases heq
  case h_2 heq => exact absurd (List.cons.inj (List.cons.inj heq).2).1 hu
  case h_3 heq =>
    obtain ⟨rfl, rfl⟩ := List.cons.inj heq
    simp only [Option.isSome_none, Bool.false_eq_true, if_false, if_true, h]
    rw [if_neg (by decide)]
    cases readText? none rest <;> rfl

/-- Any other character stands for itself. -/
theorem readText?_plain (hmark : c ≠ '\x22') (hescape : c ≠ '\\') (rest : List Char) :
    readText? none (c :: rest) = (readText? none rest).map fun p => (c :: p.1, p.2) := by
  rw [readText?.eq_def]
  split
  case h_1 heq => cases heq
  case h_2 heq => exact absurd (List.cons.inj heq).1 hescape
  case h_3 heq =>
    obtain ⟨rfl, rfl⟩ := List.cons.inj heq
    simp only [Option.isSome_none, Bool.false_eq_true, if_false, if_neg hmark, if_neg hescape]
    cases readText? none rest <;> rfl

/-- Every character is read back from its writing, whatever follows. -/
theorem readText?_printChar (c : Char) (rest : List Char) :
    readText? none (printChar c ++ rest) = (readText? none rest).map fun p => (c :: p.1, p.2) := by
  unfold printChar
  split
  case h_8 hmark hescape _ _ _ _ _ =>
    split
    · exact readText?_plain hmark hescape rest
    · exact readText?_codePointEscape c rest
  all_goals exact readText?_escape (by decide) rfl rest

/-- A text is read back up to its closing mark. -/
theorem readText?_flatMap (cs rest : List Char) :
    readText? none (cs.flatMap printChar ++ '\x22' :: rest) = some (cs, rest) := by
  induction cs with
  | nil =>
    rw [List.flatMap_nil, List.nil_append, readText?.eq_def]
    rfl
  | cons c cs ih => rw [List.flatMap_cons, List.append_assoc, readText?_printChar, ih]; rfl

theorem printText_append (s : String) (rest : List Char) :
    printText s ++ rest = '\x22' :: (s.toList.flatMap printChar ++ '\x22' :: rest) := by
  rw [printText, List.cons_append, List.append_assoc]
  rfl

/-! ## Printable ASCII -/

/-- The character is printable ASCII. -/
def isPlain (c : Char) : Bool :=
  0x20 ≤ c.toNat && c.toNat ≤ 0x7E

theorem isPlain_digitChar : ∀ k < 16, isPlain (Nat.digitChar k) = true := by
  decide

theorem plain_unitEscape (h : n < 0x10000) : ∀ c ∈ unitEscape n, isPlain c = true := by
  have hmod : ∀ k, isPlain (Nat.digitChar (k % 16)) = true := fun k => isPlain_digitChar _ (Nat.mod_lt k (by decide))
  unfold unitEscape
  rw [hexadecimal_four h]
  simp only [List.forall_mem_cons]
  exact ⟨by decide, by decide, isPlain_digitChar _ (by omega), hmod _, hmod _, hmod _, List.forall_mem_nil _⟩

theorem plain_codePointEscape (h : n < 0x110000) : ∀ c ∈ codePointEscape n, isPlain c = true := by
  unfold codePointEscape
  split
  case isTrue hbasic => exact plain_unitEscape hbasic
  case isFalse => exact List.forall_mem_append.mpr ⟨plain_unitEscape (by omega), plain_unitEscape (by omega)⟩

theorem plain_printChar (c : Char) : ∀ d ∈ printChar c, isPlain d = true := by
  have htwo : ∀ e, isPlain e = true → ∀ d ∈ ['\\', e], isPlain d = true := fun e he =>
    List.forall_mem_cons.mpr ⟨by decide, List.forall_mem_singleton.mpr he⟩
  unfold printChar
  split
  case h_8 =>
    split
    case isTrue hplain =>
      refine List.forall_mem_singleton.mpr ?_
      rw [isPlain, Bool.and_eq_true, decide_eq_true_eq, decide_eq_true_eq]
      exact hplain
    case isFalse => exact plain_codePointEscape (codePoint_lt c)
  all_goals exact htwo _ (by decide)

/-- A text in writing is printable ASCII, whatever its characters. -/
theorem plain_printText (s : String) : ∀ c ∈ printText s, isPlain c = true := by
  have hmark : isPlain '\x22' = true := by decide
  refine List.forall_mem_cons.mpr ⟨hmark, List.forall_mem_append.mpr ⟨?_, List.forall_mem_singleton.mpr hmark⟩⟩
  intro c hc
  obtain ⟨d, -, hc⟩ := List.mem_flatMap.mp hc
  exact plain_printChar d c hc

end Json

end InfixCalculator
