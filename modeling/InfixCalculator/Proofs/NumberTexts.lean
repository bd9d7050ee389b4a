import InfixCalculator.Json.Read
import InfixCalculator.Number.Format
import InfixCalculator.Proofs.Literals
import Mathlib

/-!
# The characters of numbers in writing

- `NumberText cs`: the characters are digits, signs, points and marks of exponents;
- `numberText_writtenSize`: the shortest decimal of a number is such a text, and so are the other notations of sizes
  (`numberText_finiteSize`);
- `mem_written`, `Format.mem_size`: besides these there are only the letters of the words for what is not finite.
-/

namespace InfixCalculator.Number

open Json (isNumberChar)

/-- The characters are those of decimal numbers. -/
def NumberText (cs : List Char) : Prop :=
  ∀ c ∈ cs, isNumberChar c = true

variable {c : Char} {cs ds : List Char} {n : Nat}

/-! ## Digits -/

theorem isDigit_of_mem_digitsOf (h : c ∈ digitsOf n) : isDigit c = true := by
  have hd : c.isDigit = true := Nat.isDigit_of_mem_toDigits (by decide) (by decide) h
  simpa [isDigit, Char.isDigit, Char.le_def] using hd

theorem isDigit_replicate_zero (h : c ∈ List.replicate n '0') : isDigit c = true := by
  rw [List.eq_of_mem_replicate h]
  decide

theorem isDigit_of_mem_padDigits (h : ∀ c ∈ ds, isDigit c = true) (width : Nat) :
    ∀ c ∈ padDigits width ds, isDigit c = true :=
  List.forall_mem_append.mpr ⟨fun _ hc => isDigit_replicate_zero hc, h⟩

theorem isNumberChar_of_isDigit (h : isDigit c = true) : isNumberChar c = true := by
  simp [isNumberChar, h]

theorem digitsValue_append (a b : List Char) :
    digitsValue (a ++ b) = digitsValue a * 10 ^ b.length + digitsValue b := by
  induction b using List.reverseRecOn with
  | nil => simp [digitsValue]
  | append_singleton b c ih =>
    rw [← List.append_assoc, digitsValue_append_singleton, digitsValue_append_singleton, ih, List.length_append,
      List.length_singleton, pow_succ]
    ring

theorem digitsValue_zeros (n : Nat) : digitsValue (List.replicate n '0') = 0 := by
  induction n with
  | zero => rfl
  | succ n ih => rw [List.replicate_succ', digitsValue_append_singleton, ih]; rfl

/-! ## Texts of numbers -/

theorem numberText_of_digits (h : ∀ c ∈ ds, isDigit c = true) : NumberText ds :=
  fun c hc => isNumberChar_of_isDigit (h c hc)

theorem numberText_digitsOf (n : Nat) : NumberText (digitsOf n) :=
  numberText_of_digits fun _ => isDigit_of_mem_digitsOf

theorem numberText_of_all (h : cs.all isNumberChar = true) : NumberText cs :=
  List.all_eq_true.mp h

theorem NumberText.append (h : NumberText cs) (h' : NumberText ds) : NumberText (cs ++ ds) :=
  List.forall_mem_append.mpr ⟨h, h'⟩

theorem NumberText.cons (hc : isNumberChar c = true) (h : NumberText cs) : NumberText (c :: cs) :=
  List.forall_mem_cons.mpr ⟨hc, h⟩

theorem NumberText.of_subset (h : NumberText cs) (hsub : ds ⊆ cs) : NumberText ds :=
  fun c hc => h c (hsub hc)

theorem numberText_replicate_zero (n : Nat) : NumberText (List.replicate n '0') :=
  numberText_of_digits fun _ => isDigit_replicate_zero

theorem numberText_exponentText (width : Nat) (e : Int) : NumberText (exponentText 'e' width e) := by
  refine .cons (by decide) (.cons ?_ ?_)
  · split <;> decide
  · exact numberText_of_digits (isDigit_of_mem_padDigits (fun _ => isDigit_of_mem_digitsOf) width)

/-! ## The shortest decimal -/

theorem numberText_positional (h : NumberText ds) (e : Int) : NumberText (positional ds e) := by
  unfold positional
  split
  · exact .cons (by decide) (.cons (by decide) ((numberText_replicate_zero _).append h))
  · refine ((h.of_subset (List.take_subset _ _)).append (numberText_replicate_zero _)).append (.cons (by decide) ?_)
    split
    · exact numberText_of_all (by decide)
    · exact h.of_subset (List.drop_subset _ _)

theorem numberText_scientific (h : NumberText ds) (width : Nat) (e : Int) : NumberText (scientific width ds e) := by
  unfold scientific
  refine ((h.of_subset (List.take_subset _ _)).append ?_).append (numberText_exponentText width e)
  split
  · exact fun _ hc => absurd hc List.not_mem_nil
  · exact .cons (by decide) (h.of_subset (List.drop_subset _ _))

theorem numberText_writtenSize (x : Float) : NumberText (writtenSize x) := by
  unfold writtenSize
  split
  · exact numberText_of_all (by decide)
  · unfold Layout.write
    dsimp only
    split
    · exact numberText_positional (numberText_digitsOf _) _
    · exact numberText_scientific (numberText_digitsOf _) _ _

/-! ## Formats -/

theorem numberText_withPoint (keepPoint : Bool) (places : Nat) (h : ∀ c ∈ ds, isDigit c = true) :
    NumberText (withPoint keepPoint places ds) := by
  have hpad := numberText_of_digits (isDigit_of_mem_padDigits h (places + 1))
  have hwhole := fun k => hpad.of_subset (List.take_subset k _)
  have hpoint : NumberText ['.'] := numberText_of_all (by decide)
  unfold withPoint
  dsimp only
  split_ifs
  · exact (hwhole _).append hpoint
  · exact hwhole _
  · exact (hwhole _).append (.cons (by decide) (hpad.of_subset (List.drop_subset _ _)))

theorem numberText_fixed (keepPoint : Bool) (places n d : Nat) : NumberText (fixed keepPoint places n d) :=
  numberText_withPoint _ _ fun _ => isDigit_of_mem_digitsOf

theorem stripFraction_subset (cs : List Char) : stripFraction cs ⊆ cs := by
  have hstrip : stripTrailingZeros cs ⊆ cs := by
    intro c hc
    rw [stripTrailingZeros, List.mem_reverse] at hc
    exact List.mem_reverse.mp ((List.dropWhile_suffix _).subset hc)
  unfold stripFraction
  dsimp only
  split_ifs
  · exact List.Subset.trans (List.dropLast_subset _) hstrip
  · exact hstrip
  · exact List.Subset.refl cs

/-- What is left when the zeros at the end go is still the text of a number. -/
theorem NumberText.strip (h : NumberText cs) (keepPoint : Bool) :
    NumberText ((if keepPoint then id else stripFraction) cs) := by
  cases keepPoint with
  | true => exact h
  | false => exact h.of_subset (stripFraction_subset cs)

theorem NumberText.withFraction (h : NumberText cs) : NumberText (withFraction cs) := by
  unfold Number.withFraction
  split_ifs
  · exact h.append (numberText_of_all (by decide))
  · exact h
  · exact h.append (numberText_of_all (by decide))

theorem numberText_general (keepPoint : Bool) (precision n d : Nat) : NumberText (general keepPoint precision n d) := by
  unfold general
  dsimp only
  split
  · exact (numberText_fixed _ _ _ _).strip keepPoint
  · exact ((numberText_withPoint _ _ fun _ => isDigit_of_mem_digitsOf).strip keepPoint).append
      (numberText_exponentText _ _)

theorem numberText_generalWithFraction (keepPoint : Bool) (precision n d : Nat) :
    NumberText (generalWithFraction keepPoint precision n d) := by
  unfold generalWithFraction
  dsimp only
  split
  · exact ((numberText_fixed _ _ _ _).strip keepPoint).withFraction
  · exact ((numberText_withPoint _ _ fun _ => isDigit_of_mem_digitsOf).strip keepPoint).append
      (numberText_exponentText _ _)

theorem numberText_shortestSize (keepPoint : Bool) (x : Float) : NumberText (shortestSize keepPoint x) := by
  have h := numberText_writtenSize x
  unfold shortestSize
  dsimp only
  split_ifs
  · exact (h.of_subset (List.takeWhile_subset _)).append
      (.cons (by decide) (h.of_subset (List.dropWhile_suffix _).subset))
  · exact h

/-- The size of a finite double is the text of a number in every notation. -/
theorem numberText_finiteSize (f : Format) (x : Float) : NumberText (f.finiteSize x) := by
  unfold Format.finiteSize
  dsimp only
  split
  · exact numberText_fixed _ _ _ _
  · exact (numberText_withPoint _ _ fun _ => isDigit_of_mem_digitsOf).append (numberText_exponentText _ _)
  · exact numberText_general _ _ _ _
  · exact numberText_generalWithFraction _ _ _ _
  · exact numberText_shortestSize _ _

/-- The letters of the words for what is not finite. -/
def wordLetters : List Char :=
  ['i', 'n', 'f', 'a']

theorem words_subset : ['n', 'a', 'n'] ⊆ wordLetters ∧ ['i', 'n', 'f'] ⊆ wordLetters := by
  simp [wordLetters]

theorem Format.mem_size {f : Format} (h : f.upperCase = false) {x : Float} (hc : c ∈ f.size x) :
    isNumberChar c = true ∨ c ∈ wordLetters := by
  rw [size, h] at hc
  simp only [Bool.false_eq_true, if_false] at hc
  split_ifs at hc
  · exact Or.inr (words_subset.1 hc)
  · exact Or.inr (words_subset.2 hc)
  · exact Or.inl (numberText_finiteSize f x c hc)

theorem mem_written {x : Float} (hc : c ∈ (written x).toList) : isNumberChar c = true ∨ c ∈ wordLetters := by
  have hsize : ∀ c ∈ (if x.isInf then ['i', 'n', 'f'] else writtenSize x), isNumberChar c = true ∨ c ∈ wordLetters := by
    intro c hc
    split at hc
    · exact Or.inr (words_subset.2 hc)
    · exact Or.inl (numberText_writtenSize x c hc)
  rw [written] at hc
  split at hc
  · exact Or.inr (words_subset.1 hc)
  · rw [String.toList_ofList] at hc
    split at hc
    · rcases List.mem_cons.mp hc with rfl | hc
      · exact Or.inl (by decide)
      · exact hsize c hc
    · exact hsize c hc

end InfixCalculator.Number
