import InfixCalculator.Proofs.Literals
import InfixCalculator.Proofs.Output
import InfixCalculator.Proofs.Rewriting

/-!
# Blanks around an expression

Of the blank characters only the space parts words. Any other blank belongs to the word beside it, which stays what it
is if it is a number, or it is a word by itself.

- `eq_spaces_of_valued`: of the blank texts only the spaces have no words without values;
- `EndsWithNumber`, `BeginsWithNumber`: the word at the end is a number;
- `Calculation.ofExpression_blanks`: which blanks around an expression leave its result alone.
-/

namespace InfixCalculator

variable {a b u v cs : List Char} {p q : Nat}

/-! ## Words with more around them -/

/-- What is parted from a text is parted from it with more behind. -/
theorem Parted.append (h : Parted a u) (hu : u ≠ []) (v : List Char) : Parted a (u ++ v) := by
  rcases h with h | h | h | ⟨c, hc, hd⟩
  · exact Or.inl h
  · exact absurd h hu
  · exact Or.inr (Or.inr (Or.inl h))
  · exact Or.inr (Or.inr (Or.inr ⟨c, by simp [List.head?_append, Option.mem_def.mp hc], hd⟩))

/-- What is parted from a text is parted from it with more before. -/
theorem Parted.prepend (h : Parted u a) (hu : u ≠ []) (v : List Char) : Parted (v ++ u) a := by
  rcases h with h | h | ⟨c, hc, hd⟩ | h
  · exact absurd h hu
  · exact Or.inr (Or.inl h)
  · exact Or.inr (Or.inr (Or.inl ⟨c, by simp [List.getLast?_append, Option.mem_def.mp hc], hd⟩))
  · exact Or.inr (Or.inr (Or.inr h))

theorem scan_append_word (h : Parted a (u ++ v)) (h' : Parted u v) (p : Nat) : scan p [] (a ++ (u ++ v)) =
    scan p [] a ++ (scan (p + a.length) [] u ++ scan (p + a.length + u.length) [] v) := by
  rw [scan_append_of_parted h, scan_append_of_parted h']

/-! ## Blank texts -/

theorem eq_space_of_isBlank {c : Char} (hb : Text.isBlank c = true) (hd : isDelimiter c = true) : c = ' ' := by
  rw [isDelimiter_iff] at hd
  simp only [delimiters, List.mem_cons, List.not_mem_nil, or_false] at hd
  rcases hd with rfl | rfl | rfl | rfl | rfl | rfl | rfl | rfl
  · rfl
  all_goals exact absurd hb (by decide)

theorem unbroken_of_blank (hb : Text.isBlankText b = true) (hs : ' ' ∉ b) : Unbroken b := by
  intro c hc
  rw [Bool.eq_false_iff]
  intro hd
  exact hs (eq_space_of_isBlank (List.all_eq_true.mp hb c hc) hd ▸ hc)

theorem space_not_mem_of_unbroken (hu : Unbroken u) : ' ' ∉ u := by
  intro hs
  have := hu ' ' hs
  revert this
  decide

theorem isBlankText_append : Text.isBlankText (u ++ v) = true ↔ Text.isBlankText u = true ∧ Text.isBlankText v = true := by
  simp [Text.isBlankText]

theorem scan_replicate (p n : Nat) : scan p [] (List.replicate n ' ') = [] := by
  have h := scan_spaces p n []
  rwa [List.append_nil] at h

/-- A word with a blank in it has a value only as a number. -/
theorem isTerm_classify {c : Char} (hc : c ∈ u) (hb : Text.isBlank c = true) {q : Option Nat}
    (h : (classify u q).isTerm = false) : ∃ x, kindOf u = .number x := by
  have hk := kindOf_of_mem hc (Or.inr hb)
  cases hn : numeral? u with
  | some x => exact ⟨x, by rw [hk, hn]; rfl⟩
  | none =>
    rw [hn] at hk
    rw [Token.isTerm, classify, hk] at h
    cases h

/-- Blanks alone are no numeral. -/
theorem numeral?_of_blank (hb : Text.isBlankText u = true) : numeral? u = none := by
  rw [numeral?, (Text.trim_eq_nil_iff u).mpr hb]
  rfl

/-- Of the blank texts, only spaces have no words without values. -/
theorem eq_spaces_of_valued (hb : Text.isBlankText v = true) (h : ∀ t ∈ scan p [] v, t.isTerm = false) :
    ∃ n, v = List.replicate n ' ' := by
  have hword : ∀ {w : List Char} {q : Nat}, Unbroken w → Text.isBlankText w = true →
      (∀ t ∈ scan q [] w, t.isTerm = false) → w = [] := by
    intro w q hw hblank hv
    cases w with
    | nil => rfl
    | cons c rest =>
      rw [scan_unbroken hw, if_neg (by simp), List.forall_mem_singleton] at hv
      have hc : Text.isBlank c = true := List.all_eq_true.mp hblank c List.mem_cons_self
      obtain ⟨x, hx⟩ := isTerm_classify List.mem_cons_self hc hv
      rw [kindOf_eq_number_iff, numeral?_of_blank hblank] at hx
      cases hx
  induction v using segments_induction generalizing p with
  | word w hw => exact ⟨0, hword hw hb h⟩
  | cut w d cs hw hd ih =>
    rw [isBlankText_append] at hb
    have hd' : Text.isBlank d = true := List.all_eq_true.mp hb.2 d List.mem_cons_self
    rw [scan_append_delimiter hd, List.forall_mem_append, List.forall_mem_append] at h
    obtain ⟨n, rfl⟩ := ih (List.all_eq_true.mpr fun c hc => List.all_eq_true.mp hb.2 c (List.mem_cons_of_mem _ hc)) h.2
    rw [hword hw hb.1 h.1.1, eq_space_of_isBlank hd' hd]
    exact ⟨n + 1, rfl⟩

/-! ## Numbers at the ends of an expression -/

/-- The characters after the last delimiter are a number. -/
def EndsWithNumber (e : String) : Prop :=
  ∃ a u x, e.toList = a ++ u ∧ Parted a u ∧ Unbroken u ∧ kindOf u = .number x

/-- The characters before the first delimiter are a number. -/
def BeginsWithNumber (e : String) : Prop :=
  ∃ u a x, e.toList = u ++ a ∧ Parted u a ∧ Unbroken u ∧ kindOf u = .number x

theorem ne_nil_of_number {x : Float} (h : kindOf u = .number x) : u ≠ [] := by
  rintro rfl
  rw [kindOf_eq_number_iff, numeral?_of_blank rfl] at h
  cases h

/-- Blanks around a number are a part of it. -/
theorem kindOf_blanks {x : Float} (hb : Text.isBlankText a = true) (hb' : Text.isBlankText b = true) :
    kindOf (a ++ u ++ b) = .number x ↔ kindOf u = .number x := by
  rw [kindOf_eq_number_iff, kindOf_eq_number_iff, numeral?_blanks hb hb']

/-- Two ways to write a number have one token, positions and writing apart. -/
theorem bare_scan_number {x : Float} (hu : Unbroken u) (hv : Unbroken v) (hku : kindOf u = .number x)
    (hkv : kindOf v = .number x) (p q : Nat) : (scan p [] u).map Token.bare = (scan q [] v).map Token.bare := by
  have hbare : ∀ {w : List Char} {r : Nat}, Unbroken w → kindOf w = .number x →
      (scan r [] w).map Token.bare = [.ofNumber x none none] := by
    intro w r hw hk
    rw [scan_unbroken hw, if_neg (ne_nil_of_number hk), List.map_singleton, Token.bare,
      Token.rewritten_of_number (show (classify w (some r)).kind = .number x from hk)]
    rfl
  rw [hbare hu hku, hbare hv hkv]

variable {e w : String}

/-- Blanks behind an expression that leave all words their values are spaces, but for blanks that belong to a number
at its end. -/
theorem exists_of_valued_append (hw : Text.isBlankText w.toList = true)
    (h : ∀ t ∈ tokenize (e ++ w), t.isTerm = false) :
    ∃ b n, w.toList = b ++ List.replicate n ' ' ∧ ' ' ∉ b ∧ (b = [] ∨ EndsWithNumber e) := by
  obtain ⟨a, u, he, hu, ha⟩ := exists_last_word e.toList
  obtain ⟨b, v, hbv, hb, hv⟩ := exists_first_word w.toList
  have htext : (e ++ w).toList = a ++ (u ++ b ++ v) := by simp [String.toList_append, he, hbv]
  rw [tokenize, htext, scan_append_word (parted_of_last ha _) (parted_of_head hv _), List.forall_mem_append, List.forall_mem_append] at h
  rw [hbv, isBlankText_append] at hw
  obtain ⟨n, rfl⟩ := eq_spaces_of_valued hw.2 h.2.2
  refine ⟨b, n, hbv, space_not_mem_of_unbroken hb, ?_⟩
  cases b with
  | nil => exact Or.inl rfl
  | cons c rest =>
    have hword := h.2.1
    rw [scan_unbroken (hu.append hb), if_neg (by simp), List.forall_mem_singleton] at hword
    have hblank : Text.isBlank c = true := List.all_eq_true.mp hw.1 c List.mem_cons_self
    obtain ⟨x, hx⟩ := isTerm_classify (List.mem_append_right u List.mem_cons_self) hblank hword
    exact Or.inr ⟨a, u, x, he, parted_of_last ha u, hu, (kindOf_blanks (a := []) rfl hw.1).mp hx⟩

/-- Blanks before an expression that leave all words their values are spaces, but for blanks that belong to a number
at its front. -/
theorem exists_of_valued_prepend (hw : Text.isBlankText w.toList = true)
    (h : ∀ t ∈ tokenize (w ++ e), t.isTerm = false) :
    ∃ b n, w.toList = List.replicate n ' ' ++ b ∧ ' ' ∉ b ∧ (b = [] ∨ BeginsWithNumber e) := by
  obtain ⟨u, a, he, hu, ha⟩ := exists_first_word e.toList
  obtain ⟨v, b, hvb, hb, hv⟩ := exists_last_word w.toList
  have htext : (w ++ e).toList = v ++ (b ++ u ++ a) := by simp [String.toList_append, he, hvb]
  rw [tokenize, htext, scan_append_word (parted_of_last hv _) (parted_of_head ha _), List.forall_mem_append, List.forall_mem_append] at h
  rw [hvb, isBlankText_append] at hw
  obtain ⟨n, rfl⟩ := eq_spaces_of_valued hw.1 h.1
  refine ⟨b, n, hvb, space_not_mem_of_unbroken hb, ?_⟩
  cases b with
  | nil => exact Or.inl rfl
  | cons c rest =>
    have hword := h.2.1
    rw [scan_unbroken (hb.append hu), if_neg (by simp), List.forall_mem_singleton] at hword
    have hblank : Text.isBlank c = true := List.all_eq_true.mp hw.2 c List.mem_cons_self
    obtain ⟨x, hx⟩ := isTerm_classify (List.mem_append_left u List.mem_cons_self) hblank hword
    rw [← List.append_nil (c :: rest ++ u), kindOf_blanks hw.2 rfl] at hx
    exact Or.inr ⟨u, a, x, he, parted_of_head ha u, hu, hx⟩

theorem parted_spaces (u : List Char) (n : Nat) : Parted u (List.replicate n ' ') := by
  cases n with
  | zero => exact Or.inr (Or.inl rfl)
  | succ n => exact Or.inr (Or.inr (Or.inr ⟨' ', rfl, by decide⟩))

/-- Such blanks behind an expression change nothing but the writing of the number. -/
theorem bare_append {n : Nat} (hb : Text.isBlankText b = true) (hs : ' ' ∉ b) (h : b = [] ∨ EndsWithNumber e)
    (hw : w.toList = b ++ List.replicate n ' ') :
    (tokenize (e ++ w)).map Token.bare = (tokenize e).map Token.bare := by
  unfold tokenize
  rcases h with rfl | ⟨a, u, x, he, ha, hu, hx⟩
  · rw [String.toList_append, hw, List.nil_append, scan_append_of_parted (parted_spaces _ n), scan_replicate,
      List.append_nil]
  · have htext : (e ++ w).toList = a ++ (u ++ b ++ List.replicate n ' ') := by simp [String.toList_append, he, hw]
    have hparted : Parted a (u ++ b ++ List.replicate n ' ') := by
      rw [List.append_assoc]
      exact ha.append (ne_nil_of_number hx) _
    have hnumber := bare_scan_number (hu.append (unbroken_of_blank hb hs)) hu
      ((kindOf_blanks (a := []) rfl hb).mpr hx) hx (0 + a.length) (0 + a.length)
    rw [htext, he, scan_append_word hparted (parted_spaces _ n), scan_append_of_parted ha, scan_replicate,
      List.append_nil, List.map_append, List.map_append, hnumber]

/-- Such blanks before an expression change nothing but positions and the writing of the number. -/
theorem bare_prepend {n : Nat} (hb : Text.isBlankText b = true) (hs : ' ' ∉ b) (h : b = [] ∨ BeginsWithNumber e)
    (hw : w.toList = List.replicate n ' ' ++ b) :
    (tokenize (w ++ e)).map Token.bare = (tokenize e).map Token.bare := by
  unfold tokenize
  rw [String.toList_append, hw, List.append_assoc, scan_spaces]
  rcases h with rfl | ⟨u, a, x, he, ha, hu, hx⟩
  · exact bare_scan _ _ _
  · have hkind : kindOf (b ++ u) = .number x := by
      rw [← List.append_nil (b ++ u), kindOf_blanks hb rfl, hx]
    have hnumber := bare_scan_number ((unbroken_of_blank hb hs).append hu) hu hkind hx (0 + n) 0
    rw [he, ← List.append_assoc, scan_append_of_parted (ha.prepend (ne_nil_of_number hx) b), scan_append_of_parted ha,
      List.map_append, List.map_append, hnumber, bare_scan (0 + n + (b ++ u).length) (0 + u.length) a]

namespace Calculation

variable {options : Options} {c : Calculation}

/-- A calculation reports nothing when all words of the expression have values. -/
theorem diagnostics_eq_nil_iff (h : ofExpression options e = .ok c) :
    c.diagnostics = [] ↔ ∀ t ∈ tokenize e, t.isTerm = false := by
  rw [ofExpression_eq_ofTokens] at h
  obtain ⟨-, -, -, policy, -, hconv, -⟩ := ofTokens_eq_ok_iff.mp h
  rw [diagnostics, Conversion.convert_diagnostics (known_tokenize e) hconv, Conversion.flatMap_replaced_eq_nil_iff]

/-- Expressions with the same tokens, positions and the writing of numbers apart, have one result if one of them has a
result without a report. -/
theorem exists_ofExpression_of_bare {e' : String} (h : ofExpression options e = .ok c) (hd : c.diagnostics = [])
    (hbare : (tokenize e').map Token.bare = (tokenize e).map Token.bare) :
    ∃ c', ofExpression options e' = .ok c' ∧ c'.diagnostics = [] ∧ c'.result = c.result := by
  have hvalued := (diagnostics_eq_nil_iff h).mp hd
  rw [ofExpression_eq_ofTokens] at h
  obtain ⟨hvalued', c', hc', hx⟩ := exists_ofTokens_of_bare e' hbare hvalued h
  rw [← ofExpression_eq_ofTokens] at hc'
  exact ⟨c', hc', (diagnostics_eq_nil_iff hc').mpr hvalued', hx⟩

/-- Blanks behind or before an expression without reports leave its result as it is, and report nothing, just when they
are spaces, or other blanks next to a number at that end of the expression and then spaces. -/
theorem ofExpression_blanks (options : Options) (e w : String) (c : Calculation) (h : ofExpression options e = .ok c)
    (hd : c.diagnostics = []) (hw : Text.isBlankText w.toList = true) :
    ((∃ c', ofExpression options (e ++ w) = .ok c' ∧ c'.diagnostics = [] ∧ c'.result = c.result) ↔
        ∃ b n, w.toList = b ++ List.replicate n ' ' ∧ ' ' ∉ b ∧ (b = [] ∨ EndsWithNumber e)) ∧
      ((∃ c', ofExpression options (w ++ e) = .ok c' ∧ c'.diagnostics = [] ∧ c'.result = c.result) ↔
        ∃ b n, w.toList = List.replicate n ' ' ++ b ∧ ' ' ∉ b ∧ (b = [] ∨ BeginsWithNumber e)) := by
  refine ⟨⟨?_, ?_⟩, ⟨?_, ?_⟩⟩
  · rintro ⟨c', hc', hd', -⟩
    exact exists_of_valued_append hw ((diagnostics_eq_nil_iff hc').mp hd')
  · rintro ⟨b, n, hbw, hs, he⟩
    rw [hbw, isBlankText_append] at hw
    exact exists_ofExpression_of_bare h hd (bare_append hw.1 hs he hbw)
  · rintro ⟨c', hc', hd', -⟩
    exact exists_of_valued_prepend hw ((diagnostics_eq_nil_iff hc').mp hd')
  · rintro ⟨b, n, hbw, hs, he⟩
    rw [hbw, isBlankText_append] at hw
    exact exists_ofExpression_of_bare h hd (bare_prepend hw.2 hs he hbw)

/-- A line feed and spaces behind a number, and spaces before a constant. -/
theorem ofExpression_blanks_number :
    ∃ c, ofExpression (Settings.standard.options none none) "pi POWER 2" = .ok c ∧
      (∃ c', ofExpression (Settings.standard.options none none) ("pi POWER 2" ++ "\n  ") = .ok c' ∧
        c'.diagnostics = [] ∧ c'.result = c.result) ∧
      ∃ c', ofExpression (Settings.standard.options none none) ("  " ++ "pi POWER 2") = .ok c' ∧
        c'.diagnostics = [] ∧ c'.result = c.result := by
  obtain ⟨c, hc, hd⟩ : ∃ c, ofExpression (Settings.standard.options none none) "pi POWER 2" = .ok c ∧
      c.diagnostics = [] := by
    apply exists_ok_of_map
    decide +kernel
  have hends : EndsWithNumber "pi POWER 2" :=
    ⟨"pi POWER ".toList, ['2'], _, by decide, Or.inr (Or.inr (Or.inl ⟨' ', by decide, by decide⟩)),
      List.forall_mem_singleton.mpr (by decide), kindOf_text (.ofDigits ['2'] (by decide) (by decide))⟩
  refine ⟨c, hc, ?_, ?_⟩
  · exact (ofExpression_blanks _ _ _ c hc hd (by decide)).1.mpr ⟨['\n'], 2, by decide, by decide, Or.inr hends⟩
  · exact (ofExpression_blanks _ _ _ c hc hd (by decide)).2.mpr ⟨[], 2, by decide, by decide, Or.inl rfl⟩

/-- Behind a group, a line feed is a word by itself, and has no value. -/
theorem ofExpression_blanks_group :
    Text.isBlankText "\n".toList = true ∧
      (∃ c, ofExpression (Settings.standard.options none none) "(2 + 3)" = .ok c ∧ c.diagnostics = []) ∧
      ∃ c, ofExpression (Settings.standard.options none none) ("(2 + 3)" ++ "\n") = .ok c ∧
        c.diagnostics = [⟨"\n", some 7⟩] := by
  refine ⟨by decide, ?_, ?_⟩
  · apply exists_ok_of_map
    decide +kernel
  · apply exists_ok_of_map
    decide +kernel

end Calculation

end InfixCalculator
