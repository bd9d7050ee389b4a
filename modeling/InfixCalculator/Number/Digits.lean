/-!
# Decimal digits

* `isDigit` holds of the ten digits of ASCII only.
* `digitsValue` is the value of a digit string, `digitsOf` the digit string of a value; `digitsValue_digitsOf` says
  that the first undoes the second.
-/

namespace InfixCalculator.Number

/-- A decimal digit of ASCII. -/
def isDigit (c : Char) : Bool :=
  '0' ≤ c && c ≤ '9'

/-- The value of a digit string; the empty string counts as zero. -/
def digitsValue (cs : List Char) : Nat :=
  cs.foldl (fun n c => 10 * n + (c.toNat - '0'.toNat)) 0

/-- The decimal digits of a number, without leading zeros. -/
def digitsOf (n : Nat) : List Char :=
  Nat.toDigits 10 n

/-- The text of a whole number in decimal. -/
def wholeText (n : Nat) : String :=
  String.ofList (digitsOf n)

theorem digitsValue_append_singleton (cs : List Char) (c : Char) :
    digitsValue (cs ++ [c]) = 10 * digitsValue cs + (c.toNat - '0'.toNat) := by
  simp [digitsValue, List.foldl_append]

theorem toNat_digitChar {d : Nat} (h : d < 10) : (Nat.digitChar d).toNat - '0'.toNat = d := by
  rcases d with _ | _ | _ | _ | _ | _ | _ | _ | _ | _ | d <;> first | rfl | omega

/-- The digits of a number read as the number. -/
theorem digitsValue_digitsOf (n : Nat) : digitsValue (digitsOf n) = n := by
  induction n using Nat.strongRecOn with
  | _ n ih =>
    unfold digitsOf
    by_cases h : n < 10
    · rw [Nat.toDigits_of_lt_base h]
      simpa [digitsValue] using toNat_digitChar h
    · have hd : 0 < n / 10 := Nat.div_pos (by omega) (by omega)
      have hm : n % 10 < 10 := Nat.mod_lt n (by omega)
      have hn : 10 * (n / 10) + n % 10 = n := Nat.div_add_mod n 10
      have split := Nat.toDigits_append_toDigits (by omega : 1 < 10) hd hm
      rw [Nat.toDigits_of_lt_base hm, hn] at split
      rw [← split, digitsValue_append_singleton, toNat_digitChar hm]
      have := ih (n / 10) (by omega)
      unfold digitsOf at this
      omega

end InfixCalculator.Number
