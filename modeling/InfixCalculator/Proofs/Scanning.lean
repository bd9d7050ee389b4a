import InfixCalculator.Proofs.Tokens
import InfixCalculator.Token.Scan

/-!
# Tokens of an expression

- the scan of a text around a delimiter is the scan of its two sides with the delimiter's token between them
  (`scan_append_delimiter`), and a run before a delimiter is one token (`scan_word`);
- the parentheses among the tokens are those of the text (`lefts_scan`, `rights_scan`), and every operator among them
  is known (`known_scan`);
- positions grow (`scan_pairwise`) and point into the text (`position_of_mem_scan`).
-/

namespace InfixCalculator

/-! ## Delimiters and words -/

/-- A delimiter is a space, a parenthesis, or the symbol of an operator. -/
theorem isDelimiter_cases {c : Char} (h : isDelimiter c = true) :
    c = ' ' ∨ c = '(' ∨ c = ')' ∨ ∃ op, Operator.ofChar? c = some op := by
  simp only [isDelimiter, Bool.or_eq_true, Option.isSome_iff_exists] at h
  rcases h with h | h
  · simp only [separators, List.contains_cons, List.contains_nil, Bool.or_false, Bool.or_eq_true, beq_iff_eq] at h
    rcases h with rfl | rfl | rfl <;> simp
  · exact Or.inr (Or.inr (Or.inr h))

theorem delimiterTokens_leftParen (p : Nat) :
    delimiterTokens p '(' = [{ kind := .leftParen, text := "(", position := some p }] := rfl

theorem delimiterTokens_rightParen (p : Nat) :
    delimiterTokens p ')' = [{ kind := .rightParen, text := ")", position := some p }] := rfl

theorem delimiterTokens_operator {c : Char} {op : Operator} (h : Operator.ofChar? c = some op) (p : Nat) :
    delimiterTokens p c = [{ kind := .operator, text := op.symbol, position := some p }] := by
  have hs := Operator.ofChar?_eq_some_iff.mp h
  have h₁ : c ≠ ' ' := by rintro rfl; simp [Operator.ofChar?] at h
  have h₂ : c ≠ '(' := by rintro rfl; simp [Operator.ofChar?] at h
  have h₃ : c ≠ ')' := by rintro rfl; simp [Operator.ofChar?] at h
  simp [delimiterTokens, h₁, h₂, h₃, hs]

/-- A word is an operator that is known, or a value, or a term. -/
theorem kindOf_cases (word : List Char) :
    (∃ op, Operator.ofSymbol? (String.ofList word) = some op ∧ kindOf word = .operator) ∨
      (∃ x, kindOf word = .constant x) ∨ (∃ x, kindOf word = .number x) ∨ kindOf word = .term := by
  unfold kindOf
  cases h : Operator.ofSymbol? (String.ofList word) with
  | some op => exact Or.inl ⟨op, rfl, by simp⟩
  | none =>
    cases hc : constant? word with
    | some x => exact Or.inr (Or.inl ⟨x, by simp⟩)
    | none =>
      cases hn : numeral? word with
      | some x => exact Or.inr (Or.inr (Or.inl ⟨x, by simp⟩))
      | none => exact Or.inr (Or.inr (Or.inr (by simp)))

/-- A word is no parenthesis. -/
theorem classify_not_paren (word : List Char) (p : Option Nat) :
    (classify word p).isLeftParen = false ∧ (classify word p).isRightParen = false := by
  rcases kindOf_cases word with ⟨op, _, h⟩ | ⟨x, h⟩ | ⟨x, h⟩ | h <;>
    simp [classify, Token.isLeftParen, Token.isRightParen, h]

theorem classify_known (word : List Char) (p : Option Nat) (h : (classify word p).isOperator = true) :
    ∃ op, (classify word p).operator? = some op := by
  have hk : kindOf word = .operator := Token.isOperator_iff.mp h
  rcases kindOf_cases word with ⟨op, hop, _⟩ | ⟨x, h'⟩ | ⟨x, h'⟩ | h'
  · exact ⟨op, Token.operator?_eq_some_iff.mpr ⟨hk, (Operator.ofSymbol?_eq_some_iff.mp hop).symm⟩⟩
  all_goals rw [h'] at hk; cases hk

/-! ## Scans of parts -/

theorem scan_cons_delimiter {c : Char} (h : isDelimiter c = true) (p : Nat) (run cs : List Char) :
    scan p run (c :: cs) = runTokens p run ++ delimiterTokens p c ++ scan (p + 1) [] cs := by
  simp [scan, h]

theorem scan_cons_other {c : Char} (h : isDelimiter c = false) (p : Nat) (run cs : List Char) :
    scan p run (c :: cs) = scan (p + 1) (c :: run) cs := by
  simp [scan, h]

/-- A delimiter cuts the scan in two. -/
theorem scan_append_delimiter {c : Char} (h : isDelimiter c = true) (p : Nat) (run xs ys : List Char) :
    scan p run (xs ++ c :: ys) =
      scan p run xs ++ delimiterTokens (p + xs.length) c ++ scan (p + xs.length + 1) [] ys := by
  induction xs generalizing p run with
  | nil => simp [scan, h]
  | cons x xs ih =>
    have hlen : p + (x :: xs).length = p + 1 + xs.length := by rw [List.length_cons]; omega
    rw [List.cons_append, hlen]
    by_cases hx : isDelimiter x = true
    · rw [scan_cons_delimiter hx, scan_cons_delimiter hx, ih]
      simp only [List.append_assoc]
    · rw [scan_cons_other (by simpa using hx), scan_cons_other (by simpa using hx), ih]

/-- Characters that end no run make it longer. -/
theorem scan_append_run {word : List Char} (hw : ∀ c ∈ word, isDelimiter c = false) (p : Nat) (run cs : List Char) :
    scan p run (word ++ cs) = scan (p + word.length) (word.reverse ++ run) cs := by
  induction word generalizing p run with
  | nil => rfl
  | cons c word ih =>
    rw [List.cons_append, scan_cons_other (hw c List.mem_cons_self),
      ih fun x hx => hw x (List.mem_cons_of_mem _ hx)]
    have hlen : p + 1 + word.length = p + (c :: word).length := by rw [List.length_cons]; omega
    simp [hlen]

/-- A word up to a delimiter, or up to the end, is one token. -/
theorem scan_word {word : List Char} (hne : word ≠ []) (hw : ∀ c ∈ word, isDelimiter c = false) {cs : List Char}
    (hcs : ∀ c ∈ cs.head?, isDelimiter c = true) (p : Nat) :
    scan p [] (word ++ cs) = classify word (some p) :: scan (p + word.length) [] cs := by
  have hrun : runTokens (p + word.length) word.reverse = [classify word (some p)] := by
    cases hr : word.reverse with
    | nil => exact absurd (List.reverse_eq_nil_iff.mp hr) hne
    | cons c rest =>
      show [classify (c :: rest).reverse (some (p + word.length - (c :: rest).length))] = _
      rw [← hr, List.reverse_reverse, List.length_reverse, Nat.add_sub_cancel]
  rw [scan_append_run hw, List.append_nil]
  cases cs with
  | nil => simp only [scan, hrun]; rfl
  | cons c cs =>
    have hc : isDelimiter c = true := hcs c (by simp)
    rw [scan_cons_delimiter hc, scan_cons_delimiter hc, hrun]
    simp [runTokens]

theorem scan_spaces (p n : Nat) (cs : List Char) :
    scan p [] (List.replicate n ' ' ++ cs) = scan (p + n) [] cs := by
  induction n generalizing p with
  | zero => rfl
  | succ n ih =>
    have hd : isDelimiter ' ' = true := by decide
    rw [List.replicate_succ, List.cons_append, scan_cons_delimiter hd]
    have hp : p + 1 + n = p + (n + 1) := by omega
    simp [runTokens, delimiterTokens, ih, hp]

/-! ## Parentheses and operators -/

/-- What holds of every word and of every delimiter's token holds of all tokens. -/
theorem forall_scan {P : Token → Prop} (hword : ∀ word p, word ≠ [] → P (classify word (some p)))
    (hdelim : ∀ c p, isDelimiter c = true → ∀ t ∈ delimiterTokens p c, P t) (p : Nat) (run cs : List Char) :
    ∀ t ∈ scan p run cs, P t := by
  have hrun : ∀ p run, ∀ t ∈ runTokens p run, P t := by
    intro p run t ht
    cases run with
    | nil => simp [runTokens] at ht
    | cons c rest =>
      simp only [runTokens, List.mem_singleton] at ht
      exact ht ▸ hword _ _ (by simp)
  induction cs generalizing p run with
  | nil => exact hrun p run
  | cons c cs ih =>
    by_cases hc : isDelimiter c = true
    · rw [scan_cons_delimiter hc]
      simp only [List.mem_append]
      rintro t ((ht | ht) | ht)
      · exact hrun p run t ht
      · exact hdelim c p hc t ht
      · exact ih _ _ t ht
    · rw [scan_cons_other (by simpa using hc)]
      exact ih _ _

theorem known_scan (p : Nat) (run cs : List Char) : Known (scan p run cs) := by
  refine forall_scan (fun word p _ => classify_known word _) (fun c p hc t ht ho => ?_) p run cs
  rcases isDelimiter_cases hc with rfl | rfl | rfl | ⟨op, hop⟩
  · simp [delimiterTokens] at ht
  · rw [delimiterTokens_leftParen, List.mem_singleton] at ht
    simp [ht, Token.isOperator] at ho
  · rw [delimiterTokens_rightParen, List.mem_singleton] at ht
    simp [ht, Token.isOperator] at ho
  · rw [delimiterTokens_operator hop, List.mem_singleton] at ht
    exact ⟨op, Token.operator?_eq_some_iff.mpr (by simp [ht])⟩

theorem known_tokenize (e : String) : Known (tokenize e) :=
  known_scan 0 [] e.toList

theorem lefts_runTokens (p : Nat) (run : List Char) : lefts (runTokens p run) = 0 := by
  cases run with
  | nil => rfl
  | cons c rest => simp [runTokens, (classify_not_paren _ _).1]

theorem rights_runTokens (p : Nat) (run : List Char) : rights (runTokens p run) = 0 := by
  cases run with
  | nil => rfl
  | cons c rest => simp [runTokens, (classify_not_paren _ _).2]

theorem lefts_delimiterTokens (p : Nat) {c : Char} (h : isDelimiter c = true) :
    lefts (delimiterTokens p c) = [c].count '(' := by
  rcases isDelimiter_cases h with rfl | rfl | rfl | ⟨op, hop⟩
  · rfl
  · rfl
  · rfl
  · rw [delimiterTokens_operator hop]
    have hc : c ≠ '(' := by rintro rfl; simp [Operator.ofChar?] at hop
    simp [Token.isLeftParen, hc]

theorem rights_delimiterTokens (p : Nat) {c : Char} (h : isDelimiter c = true) :
    rights (delimiterTokens p c) = [c].count ')' := by
  rcases isDelimiter_cases h with rfl | rfl | rfl | ⟨op, hop⟩
  · rfl
  · rfl
  · rfl
  · rw [delimiterTokens_operator hop]
    have hc : c ≠ ')' := by rintro rfl; simp [Operator.ofChar?] at hop
    simp [Token.isRightParen, hc]

/-- The left parentheses among the tokens are those of the text. -/
theorem lefts_scan (p : Nat) (run cs : List Char) : lefts (scan p run cs) = cs.count '(' := by
  induction cs generalizing p run with
  | nil => simp [scan, lefts_runTokens]
  | cons c cs ih =>
    rw [← List.singleton_append, List.count_append]
    by_cases hc : isDelimiter c = true
    · rw [List.singleton_append, scan_cons_delimiter hc, lefts_append, lefts_append, lefts_runTokens,
        lefts_delimiterTokens p hc, ih, Nat.zero_add]
    · have hne : c ≠ '(' := by rintro rfl; exact hc (by decide)
      rw [List.singleton_append, scan_cons_other (by simpa using hc), ih]
      simp [hne]

/-- The right parentheses among the tokens are those of the text. -/
theorem rights_scan (p : Nat) (run cs : List Char) : rights (scan p run cs) = cs.count ')' := by
  induction cs generalizing p run with
  | nil => simp [scan, rights_runTokens]
  | cons c cs ih =>
    rw [← List.singleton_append, List.count_append]
    by_cases hc : isDelimiter c = true
    · rw [List.singleton_append, scan_cons_delimiter hc, rights_append, rights_append, rights_runTokens,
        rights_delimiterTokens p hc, ih, Nat.zero_add]
    · have hne : c ≠ ')' := by rintro rfl; exact hc (by decide)
      rw [List.singleton_append, scan_cons_other (by simpa using hc), ih]
      simp [hne]

/-! ## Positions -/

theorem position_of_mem_runTokens {p : Nat} {run : List Char} (h : run.length ≤ p) {t : Token}
    (ht : t ∈ runTokens p run) : t.position = some (p - run.length) ∧ p - run.length < p := by
  cases run with
  | nil => simp [runTokens] at ht
  | cons c rest =>
    simp only [runTokens, List.mem_singleton] at ht
    subst ht
    rw [List.length_cons] at *
    exact ⟨rfl, by omega⟩

theorem position_of_mem_delimiterTokens {p : Nat} {c : Char} {t : Token} (ht : t ∈ delimiterTokens p c) :
    t.position = some p := by
  unfold delimiterTokens at ht
  split at ht
  · cases ht
  · split at ht
    · rw [List.mem_singleton.mp ht]
    · split at ht <;> rw [List.mem_singleton.mp ht]

/-- A token begins within the text that was read for it. -/
theorem position_of_mem_scan {p : Nat} {run : List Char} (h : run.length ≤ p) {cs : List Char} {t : Token}
    (ht : t ∈ scan p run cs) : ∃ q, t.position = some q ∧ p - run.length ≤ q ∧ q < p + cs.length := by
  induction cs generalizing p run with
  | nil =>
    obtain ⟨hp, hlt⟩ := position_of_mem_runTokens h ht
    exact ⟨_, hp, Nat.le_refl _, by simpa using hlt⟩
  | cons c cs ih =>
    by_cases hc : isDelimiter c = true
    · rw [scan_cons_delimiter hc] at ht
      simp only [List.mem_append] at ht
      rcases ht with (ht | ht) | ht
      · obtain ⟨hp, hlt⟩ := position_of_mem_runTokens h ht
        exact ⟨_, hp, Nat.le_refl _, by omega⟩
      · exact ⟨p, position_of_mem_delimiterTokens ht, by omega, by simp⟩
      · obtain ⟨q, hq, h₁, h₂⟩ := ih (Nat.zero_le _) ht
        exact ⟨q, hq, by simp at h₁; omega, by simp; omega⟩
    · rw [scan_cons_other (by simpa using hc)] at ht
      obtain ⟨q, hq, h₁, h₂⟩ := ih (by simpa using h) ht
      exact ⟨q, hq, by simp at h₁; omega, by simp; omega⟩

/-- Tokens come in the order of their positions. -/
theorem scan_pairwise {p : Nat} {run : List Char} (h : run.length ≤ p) (cs : List Char) :
    (scan p run cs).Pairwise fun s t => s.position < t.position := by
  induction cs generalizing p run with
  | nil => cases run <;> simp [scan, runTokens]
  | cons c cs ih =>
    by_cases hc : isDelimiter c = true
    · have hrun : (runTokens p run).Pairwise fun s t => s.position < t.position := by
        cases run <;> simp [runTokens]
      have hdel : (delimiterTokens p c).Pairwise fun s t => s.position < t.position := by
        unfold delimiterTokens
        split
        · exact List.Pairwise.nil
        · split
          · exact List.pairwise_singleton _ _
          · split <;> exact List.pairwise_singleton _ _
      rw [scan_cons_delimiter hc, List.pairwise_append, List.pairwise_append]
      refine ⟨⟨hrun, hdel, fun s hs t ht => ?_⟩, ih (Nat.zero_le _), fun s hs t ht => ?_⟩
      · obtain ⟨hp, hlt⟩ := position_of_mem_runTokens h hs
        rw [hp, position_of_mem_delimiterTokens ht]
        exact hlt
      · obtain ⟨q, hq, hle, -⟩ := position_of_mem_scan (Nat.zero_le _) ht
        rw [hq]
        simp only [List.length_nil, Nat.sub_zero] at hle
        rcases List.mem_append.mp hs with hs | hs
        · obtain ⟨hp, hlt⟩ := position_of_mem_runTokens h hs
          rw [hp]
          exact Nat.lt_of_lt_of_le hlt (by omega)
        · rw [position_of_mem_delimiterTokens hs]
          exact hle
    · rw [scan_cons_other (by simpa using hc)]
      exact ih (by simpa using h)

/-- Of two tokens of an expression the earlier one begins further to the left. -/
theorem position_lt_of_tokenize_eq {e : String} {xs ys : List Token} {s t : Token} (h : tokenize e = xs ++ s :: ys)
    (ht : t ∈ ys) : s.position < t.position := by
  have hpw : (tokenize e).Pairwise fun s t => s.position < t.position := scan_pairwise (Nat.le_refl 0) e.toList
  rw [h] at hpw
  exact (List.pairwise_cons.mp (List.pairwise_append.mp hpw).2.1).1 t ht

/-- Of two places in a list, they are the same, or one comes before the other. -/
theorem append_cons_cases {xs ys xs' ys' : List Token} {t t' : Token} (h : xs ++ t :: ys = xs' ++ t' :: ys') :
    (xs = xs' ∧ t = t' ∧ ys = ys') ∨ (∃ zs, xs' = xs ++ t :: zs ∧ ys = zs ++ t' :: ys') ∨
      ∃ zs, xs = xs' ++ t' :: zs ∧ ys' = zs ++ t :: ys := by
  rcases List.append_eq_append_iff.mp h with ⟨zs, rfl, hz⟩ | ⟨zs, rfl, hz⟩ <;> cases zs with
  | nil => simp_all
  | cons z zs =>
    obtain ⟨rfl, rfl⟩ := List.cons.inj hz
    simp

/-- Where positions grow, a token is found at one place only. -/
theorem eq_of_append_cons_eq {ts xs ys xs' ys' : List Token} {t t' : Token}
    (hp : ts.Pairwise fun s t => s.position < t.position) (h : ts = xs ++ t :: ys) (h' : ts = xs' ++ t' :: ys')
    (ht : t.position = t'.position) : xs = xs' ∧ t = t' ∧ ys = ys' := by
  have hirr : ∀ {us vs : List Token} {s s' : Token}, (s :: us ++ s' :: vs).Pairwise
      (fun s t => s.position < t.position) → s.position ≠ s'.position := by
    intro us vs s s' hpw he
    have hlt : s.position < s'.position := (List.pairwise_append.mp hpw).2.2 s (by simp) s' (by simp)
    rw [he] at hlt
    cases hs : s'.position <;> simp [hs] at hlt
  rcases append_cons_cases (h.symm.trans h') with he | ⟨zs, -, rfl⟩ | ⟨zs, -, rfl⟩
  · exact he
  · rw [h] at hp
    exact absurd ht (hirr (List.pairwise_append.mp hp).2.1)
  · rw [h'] at hp
    exact absurd ht.symm (hirr (List.pairwise_append.mp hp).2.1)

/-- A right parenthesis among the tokens is one of the text. -/
theorem exists_of_mem_scan_rightParen {p : Nat} {run cs : List Char} {t : Token} (h : t ∈ scan p run cs)
    (ht : t.isRightParen = true) : ∃ a b, cs = a ++ ')' :: b ∧ t.position = some (p + a.length) := by
  have hword : ∀ q r, t ∉ runTokens q r := by
    intro q r hm
    cases r with
    | nil => simp [runTokens] at hm
    | cons c rest =>
      simp only [runTokens, List.mem_singleton] at hm
      rw [hm, (classify_not_paren _ _).2] at ht
      cases ht
  induction cs generalizing p run with
  | nil => exact absurd h (hword p run)
  | cons c cs ih =>
    have hrest : ∀ {run'}, t ∈ scan (p + 1) run' cs →
        ∃ a b, c :: cs = a ++ ')' :: b ∧ t.position = some (p + a.length) := by
      intro run' hm
      obtain ⟨a, b, rfl, hp⟩ := ih hm
      exact ⟨c :: a, b, rfl, by rw [hp, List.length_cons]; congr 1; omega⟩
    by_cases hc : isDelimiter c = true
    · rw [scan_cons_delimiter hc, List.mem_append, List.mem_append] at h
      rcases h with (h | h) | h
      · exact absurd h (hword p run)
      · have hr : rights (delimiterTokens p c) ≠ 0 := by
          have := List.countP_pos_iff.mpr ⟨t, h, ht⟩
          exact Nat.ne_of_gt this
        rw [rights_delimiterTokens p hc] at hr
        have hcp : c = ')' :=
          (List.mem_singleton.mp (List.count_pos_iff.mp (Nat.pos_of_ne_zero hr))).symm
        exact ⟨[], cs, by rw [hcp]; rfl, position_of_mem_delimiterTokens h⟩
      · exact hrest h
    · rw [scan_cons_other (by simpa using hc)] at h
      exact hrest h

/-- The tokens before a right parenthesis are those of the text before it. -/
theorem tokenize_eq_append_rightParen {e : String} {xs ys : List Token} {t : Token}
    (h : tokenize e = xs ++ t :: ys) (ht : t.isRightParen = true) :
    ∃ a b, e.toList = a ++ ')' :: b ∧ xs = scan 0 [] a ∧ t.position = some a.length := by
  have hm : t ∈ scan 0 [] e.toList := by rw [← tokenize, h]; simp
  obtain ⟨a, b, he, hp⟩ := exists_of_mem_scan_rightParen hm ht
  rw [Nat.zero_add] at hp
  refine ⟨a, b, he, ?_, hp⟩
  have hs := scan_append_delimiter (c := ')') (by decide) 0 [] a b
  rw [← he, delimiterTokens_rightParen, List.append_assoc, List.singleton_append, Nat.zero_add] at hs
  have hpw : (tokenize e).Pairwise fun s t => s.position < t.position := scan_pairwise (Nat.le_refl 0) e.toList
  exact (eq_of_append_cons_eq hpw h hs hp).1

end InfixCalculator
