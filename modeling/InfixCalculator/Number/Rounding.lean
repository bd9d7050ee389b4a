/-!
# Division rounded to the nearest

* `roundDiv n d` is the whole number nearest to `n / d`; halfway between two, it is the even one.
* `two_mul_roundDiv_le` and `le_two_mul_roundDiv`: the rounded quotient is within half a divisor of the dividend.
* `even_roundDiv_of_tie`: a tie goes to the even neighbour.
-/

namespace InfixCalculator.Number

/-- The whole number nearest to the quotient, and the even one of two equally near. -/
def roundDiv (n d : Nat) : Nat :=
  if d < 2 * (n % d) ∨ (d = 2 * (n % d) ∧ n / d % 2 = 1) then n / d + 1 else n / d

theorem two_mul_roundDiv_le (n : Nat) {d : Nat} (h : 0 < d) : 2 * (d * roundDiv n d) ≤ 2 * n + d := by
  have hn := Nat.div_add_mod n d
  have hr := Nat.mod_lt n h
  unfold roundDiv
  split
  · rw [Nat.mul_add]; omega
  · omega

theorem le_two_mul_roundDiv (n : Nat) {d : Nat} (h : 0 < d) : 2 * n ≤ 2 * (d * roundDiv n d) + d := by
  have hn := Nat.div_add_mod n d
  have hr := Nat.mod_lt n h
  unfold roundDiv
  split
  · rw [Nat.mul_add]; omega
  · omega

/-- Halfway between two whole numbers the even one is taken. -/
theorem even_roundDiv_of_tie {n d : Nat} (h : d = 2 * (n % d)) : roundDiv n d % 2 = 0 := by
  unfold roundDiv
  split <;> omega

end InfixCalculator.Number
