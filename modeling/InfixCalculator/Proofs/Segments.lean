import InfixCalculator.Proofs.Relocation
import Mathlib.Data.List.Induction

/-!
# Words and delimiters of a text

- `segments_induction`: every text is an unbroken word, or such a word and a delimiter before another text;
- `exists_first_word`, `exists_last_word`: the word at either end of a text;
- `Parted a b`: nothing of `a` and `b` grows together where they meet, and `scan_append_of_parted`: then the tokens of
  the two are the tokens of each;
- `Legible t`: the text of the token, scanned by itself, is the token again. All tokens of a text are legible
  (`legible_of_mem_scan`), and legible tokens are read back from their texts with a space between any two
  (`tokenize_joined`).
-/

namespace InfixCalculator

/-! ## Words -/

/-- No delimiter is among the characters. -/
def Unbroken (w : List Char) : Prop :=
  ∀ c ∈ w, isDelimiter c = false

theorem unbroken_nil : Unbroken [] := by
  intro c hc
  cases hc

/-- A text is taken apart at its delimiters, from left to right. -/
@[elab_as_elim]
theorem segments_induction {P : List Char → Prop} (word : ∀ w, Unbroken w → P w)
    (cut : ∀ w d cs, Unbroken w → isDelimiter d = true → P cs → P (w ++ d :: cs)) (cs : List Char) : P cs := by
  -- the induction is on what follows a word that is still growing
  suffices h : ∀ w, Unbroken w → P (w ++ cs) from h [] unbroken_nil
  induction cs with
  | nil =>
    intro w hw
    rw [List.append_nil]
    exact word w hw
  | cons c cs ih =>
    intro w hw
    cases hc : isDelimiter c with
    | true => exact cut w c cs hw hc (ih [] unbroken_nil)
    | false =>
      have hwc : Unbroken (w ++ [c]) := by
        intro x hx
        rcases List.mem_append.mp hx with hx | hx
        · exact hw x hx
        · rw [List.mem_singleton.mp hx]
          exact hc
      have h := ih (w ++ [c]) hwc
      rwa [List.append_assoc] at h

/-- An unbroken word is at most one token. -/
theorem scan_unbroken {w : List Char} (hw : Unbroken w) (p : Nat) :
    scan p [] w = if w = [] then [] else [classify w (some p)] := by
  split
  · next h => rw [h]; rfl
  · next h =>
    have hend : ∀ c ∈ ([] : List Char).head?, isDelimiter c = true := by simp
    have hs := scan_word h hw hend p
    rw [List.append_nil] at hs
    rw [hs]
    rfl

/-! ## Where two texts meet -/

/-- The characters that separate, and the operators of one character. -/
def delimiters : List Char :=
  [' ', '(', ')', '+', '-', '*', '/', '%']

theorem isDelimiter_iff {c : Char} : isDelimiter c = true ↔ c ∈ delimiters := by
  constructor
  · intro h
    rcases isDelimiter_cases h with rfl | rfl | rfl | ⟨op, hop⟩
    · decide
    · decide
    · decide
    · unfold Operator.ofChar? at hop
      split at hop
      case h_6 => cases hop
      all_goals decide
  · intro h
    simp only [delimiters, List.mem_cons, List.not_mem_nil, or_false] at h
    rcases h with rfl | rfl | rfl | rfl | rfl | rfl | rfl | rfl <;> decide

/-- One of the texts is empty, or a delimiter stands on one side of the place where they meet. -/
def Parted (a b : List Char) : Prop :=
  a = [] ∨ b = [] ∨ (∃ c ∈ a.getLast?, c ∈ delimiters) ∨ ∃ c ∈ b.head?, c ∈ delimiters

/-- The tokens of two texts that are parted are the tokens of each. -/
theorem scan_append_of_parted {a b : List Char} (h : Parted a b) (p : Nat) :
    scan p [] (a ++ b) = scan p [] a ++ scan (p + a.length) [] b := by
  rcases h with rfl | rfl | ⟨c, hc, hd⟩ | ⟨c, hc, hd⟩
  · rfl
  · simp [scan, runTokens]
  · obtain ⟨as, rfl⟩ := List.getLast?_eq_some_iff.mp hc
    rw [← isDelimiter_iff] at hd
    rw [List.append_assoc, List.singleton_append, scan_append_delimiter hd, scan_append_delimiter hd]
    simp [scan, runTokens, Nat.add_assoc]
  · obtain ⟨bs, rfl⟩ := List.head?_eq_some_iff.mp hc
    rw [← isDelimiter_iff] at hd
    rw [scan_append_delimiter hd, scan_cons_delimiter hd]
    simp [runTokens]

/-! ## The words at the ends of a text -/

theorem Unbroken.append {u v : List Char} (hu : Unbroken u) (hv : Unbroken v) : Unbroken (u ++ v) := by
  intro c hc
  exact (List.mem_append.mp hc).elim (hu c) (hv c)

/-- A text begins with a word, which may be empty, and goes on with a delimiter if it goes on. -/
theorem exists_first_word (cs : List Char) : ∃ u a, cs = u ++ a ∧ Unbroken u ∧ ∀ c ∈ a.head?, c ∈ delimiters := by
  induction cs with
  | nil => exact ⟨[], [], rfl, unbroken_nil, by simp⟩
  | cons c cs ih =>
    by_cases hc : isDelimiter c = true
    · exact ⟨[], c :: cs, rfl, unbroken_nil, by simpa using isDelimiter_iff.mp hc⟩
    · obtain ⟨u, a, rfl, hu, ha⟩ := ih
      exact ⟨c :: u, a, rfl, List.forall_mem_cons.mpr ⟨by simpa using hc, hu⟩, ha⟩

/-- A text ends with a word, which may be empty, and with a delimiter before it if there is more. -/
theorem exists_last_word (cs : List Char) : ∃ a u, cs = a ++ u ∧ Unbroken u ∧ ∀ c ∈ a.getLast?, c ∈ delimiters := by
  induction cs using List.reverseRecOn with
  | nil => exact ⟨[], [], rfl, unbroken_nil, by simp⟩
  | append_singleton cs c ih =>
    by_cases hc : isDelimiter c = true
    · exact ⟨cs ++ [c], [], by simp, unbroken_nil, by simpa using isDelimiter_iff.mp hc⟩
    · obtain ⟨a, u, rfl, hu, ha⟩ := ih
      have hword : Unbroken [c] := List.forall_mem_singleton.mpr (by simpa using hc)
      exact ⟨a, u ++ [c], List.append_assoc a u [c], hu.append hword, ha⟩

/-- A text that begins with a delimiter is parted from everything before it. -/
theorem parted_of_head {b : List Char} (h : ∀ c ∈ b.head?, c ∈ delimiters) (a : List Char) : Parted a b := by
  cases b with
  | nil => exact Or.inr (Or.inl rfl)
  | cons c cs => exact Or.inr (Or.inr (Or.inr ⟨c, rfl, h c rfl⟩))

/-- A text that ends with a delimiter is parted from everything behind it. -/
theorem parted_of_last {a : List Char} (h : ∀ c ∈ a.getLast?, c ∈ delimiters) (b : List Char) : Parted a b := by
  cases hl : a.getLast? with
  | none => exact Or.inl (List.getLast?_eq_none_iff.mp hl)
  | some c => exact Or.inr (Or.inr (Or.inl ⟨c, hl, h c hl⟩))

/-! ## Tokens that can be read back -/

/-- The tokens of a text are the same wherever it stands, positions apart. -/
theorem unplaced_scan (p q : Nat) (cs : List Char) :
    (scan p [] cs).map Token.unplaced = (scan q [] cs).map Token.unplaced := by
  have hempty : ([] : List Char).length ≤ 0 := Nat.le_refl 0
  have hp := scan_shift hempty p cs
  have hq := scan_shift hempty q cs
  rw [Nat.zero_add] at hp hq
  rw [hp, hq, List.map_map, List.map_map]
  rfl

theorem unplaced_delimiterTokens (p q : Nat) (c : Char) :
    (delimiterTokens p c).map Token.unplaced = (delimiterTokens q c).map Token.unplaced := by
  have hp := delimiterTokens_shift 0 p c
  have hq := delimiterTokens_shift 0 q c
  rw [Nat.zero_add] at hp hq
  rw [hp, hq, List.map_map, List.map_map]
  rfl

/-- The text of the token, scanned by itself, is the token again. -/
def Legible (t : Token) : Prop :=
  ∀ p, (scan p [] t.text.toList).map Token.unplaced = [t.unplaced]

theorem legible_classify {w : List Char} (hne : w ≠ []) (hw : Unbroken w) (q : Option Nat) :
    Legible (classify w q) := by
  intro p
  have htext : (classify w q).text.toList = w := String.toList_ofList
  rw [htext, scan_unbroken hw, if_neg hne]
  rfl

/-- A delimiter has at most one token, and that has the delimiter as its text. -/
theorem delimiterTokens_eq_singleton {c : Char} {p : Nat} {t : Token} (ht : t ∈ delimiterTokens p c) :
    delimiterTokens p c = [t] ∧ t.text = String.singleton c := by
  unfold delimiterTokens at *
  split at ht
  · cases ht
  · split at ht
    · rw [List.mem_singleton.mp ht]
      simp [*]
    · split at ht <;> rw [List.mem_singleton.mp ht] <;> simp [*]

theorem isOperand_delimiterTokens {c : Char} {p : Nat} {t : Token} (ht : t ∈ delimiterTokens p c) :
    t.isOperand = false := by
  unfold delimiterTokens at ht
  split at ht
  · cases ht
  · split at ht
    · rw [List.mem_singleton.mp ht]
      rfl
    · split at ht <;> rw [List.mem_singleton.mp ht] <;> rfl

theorem legible_delimiterTokens {c : Char} (hc : isDelimiter c = true) {q : Nat} {t : Token}
    (ht : t ∈ delimiterTokens q c) : Legible t := by
  intro p
  obtain ⟨hq, htext⟩ := delimiterTokens_eq_singleton ht
  have hscan : scan p [] [c] = delimiterTokens p c := by
    rw [scan_cons_delimiter hc]
    simp [scan, runTokens]
  rw [htext, String.toList_singleton, hscan, unplaced_delimiterTokens p q, hq]
  rfl

/-- All tokens of a text are legible. -/
theorem legible_of_mem_scan {cs : List Char} {p : Nat} {t : Token} (ht : t ∈ scan p [] cs) : Legible t := by
  induction cs using segments_induction generalizing p with
  | word w hw =>
    rw [scan_unbroken hw] at ht
    split at ht
    · cases ht
    · next hne =>
      rw [List.mem_singleton.mp ht]
      exact legible_classify hne hw _
  | cut w d cs hw hd ih =>
    rw [scan_append_delimiter hd, scan_unbroken hw, List.mem_append, List.mem_append] at ht
    rcases ht with (ht | ht) | ht
    · split at ht
      · cases ht
      · next hne =>
        rw [List.mem_singleton.mp ht]
        exact legible_classify hne hw _
    · exact legible_delimiterTokens hd ht
    · exact ih ht

/-- The texts of tokens with a space between any two. -/
def joined (ts : List Token) : String :=
  " ".intercalate (texts ts)

theorem joined_cons (t s : Token) (ts : List Token) :
    (joined (t :: s :: ts)).toList = t.text.toList ++ ' ' :: (joined (s :: ts)).toList := by
  have h : texts (s :: ts) ≠ [] := by simp [texts]
  show (" ".intercalate (t.text :: texts (s :: ts))).toList = _
  rw [String.intercalate_cons_of_ne_nil h]
  simp [joined]

/-- Legible tokens are read back from their texts with a space between any two. -/
theorem scan_joined {ts : List Token} (h : ∀ t ∈ ts, Legible t) (p : Nat) :
    (scan p [] (joined ts).toList).map Token.unplaced = ts.map Token.unplaced := by
  have hspace : isDelimiter ' ' = true := by decide
  induction ts generalizing p with
  | nil => rfl
  | cons t ts ih =>
    obtain ⟨ht, hts⟩ := List.forall_mem_cons.mp h
    cases ts with
    | nil =>
      have hone : joined [t] = t.text := String.intercalate_singleton
      rw [hone]
      exact ht p
    | cons s ts =>
      rw [joined_cons, scan_append_delimiter hspace, List.map_append, List.map_append, ht p, ih hts]
      rfl

/-- The tokens of a text are read back from their own texts with a space between any two. -/
theorem tokenize_joined (e : String) :
    (tokenize (joined (tokenize e))).map Token.unplaced = (tokenize e).map Token.unplaced := by
  refine scan_joined ?_ 0
  intro t ht
  exact legible_of_mem_scan ht

end InfixCalculator
