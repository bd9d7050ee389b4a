import InfixCalculator.Proofs.Accounts

/-!
# What a conversion puts out

- `step_diagnostics`, `run_diagnostics`: a run reports the words without a value that it has read, in order, so that a
  conversion without a report has read none (`convert_diagnostics`);
- `step_source`, `run_source`: everything put out or waiting was there before, or is posted for a token that was read;
  `convert_source` says so of whole conversions;
- `step_policy`, `run_policy`: the policy decides about words without a value and about nothing else;
- `convert_verdict`: with as many left as right parentheses, a conversion keeps all operands and operators, or the
  first token that stops it decides how it fails.
-/

namespace InfixCalculator.Conversion

variable {policy policy' : Policy} {w w' ts : List Token} {t : Token} {out : Postfix}

/-! ## Reports -/

theorem step_diagnostics (hw : Stacked w) (ht : t.isOperator = true → ∃ op, t.operator? = some op)
    (h : step policy w t = .ok (out, w')) : out.diagnostics = t.replaced := by
  have hm := step_moves policy hw ht
  rw [h] at hm
  have hterm : t.isOperand = false → t.replaced = [] := by
    intro ho
    apply Token.replaced_of_isTerm_eq_false
    cases hk : t.kind <;> simp_all [Token.isOperand, Token.isTerm]
  cases hm with
  | opens hp => exact (hterm (Token.of_isLeftParen hp).1).symm
  | closes hp _ _ _ => exact (hterm (Token.of_isRightParen hp).1).symm
  | operator hop => exact (hterm (Token.of_isOperator (Token.isOperator_of_operator? hop)).1).symm
  | operand _ _ => rfl

/-- A run reports the words without a value that it has read. -/
theorem run_diagnostics (hk : Known ts) (hw : Stacked w) (h : run policy w ts = ⟨out, .ok w'⟩) :
    out.diagnostics = ts.flatMap Token.replaced := by
  induction ts generalizing w out with
  | nil =>
    simp only [run, Run.mk.injEq] at h
    rw [← h.1]
    rfl
  | cons t ts ih =>
    have ht := hk t List.mem_cons_self
    cases hs : step policy w t with
    | error e => simp [run_cons_error hs] at h
    | ok r =>
      obtain ⟨out₁, w₁⟩ := r
      rw [run_cons hs, Run.mk.injEq] at h
      obtain ⟨rfl, he⟩ := h
      rw [Postfix.diagnostics_append, step_diagnostics hw ht hs,
        ih hk.tail (step_stacked hw ht hs) (by rw [← he]), List.flatMap_cons]

theorem stacked_nil : Stacked [] := by
  intro t ht
  cases ht

/-- What a conversion puts out is the output of its run, and then what waits. -/
theorem exists_run_of_convert (h : convert policy ts = .ok out) :
    ∃ before w, run policy [] ts = ⟨before, .ok w⟩ ∧ out = before ++ ⟨w, []⟩ := by
  obtain ⟨before, w, hr, -, hout⟩ := convertFrom_eq_ok_iff.mp h
  exact ⟨before, w, hr, hout⟩

/-- A conversion reports the words without a value that are among the tokens. -/
theorem convert_diagnostics (hk : Known ts) (h : convert policy ts = .ok out) :
    out.diagnostics = ts.flatMap Token.replaced := by
  obtain ⟨before, w, hr, rfl⟩ := exists_run_of_convert h
  rw [Postfix.diagnostics_append, run_diagnostics hk stacked_nil hr, List.append_nil]

theorem flatMap_replaced_eq_nil_iff : ts.flatMap Token.replaced = [] ↔ ∀ t ∈ ts, t.isTerm = false := by
  rw [List.flatMap_eq_nil_iff]
  refine forall₂_congr fun t _ => ?_
  cases hk : t.kind <;> simp [Token.replaced, Token.isTerm, hk]

/-! ## Where the output comes from -/

/-- What a step puts out, and what waits after it, waited before or is posted for the token. -/
theorem step_source (hw : Stacked w) (ht : t.isOperator = true → ∃ op, t.operator? = some op)
    (h : step policy w t = .ok (out, w')) : ∀ s ∈ out.tokens ++ w', s = t.posted ∨ s ∈ w := by
  have hm := step_moves policy hw ht
  rw [h] at hm
  intro s hs
  cases hm with
  | opens hp =>
    have hposted : t.posted = t := by simp [Token.posted, Token.isLeftParen_iff.mp hp]
    rw [hposted]
    simpa using hs
  | closes _ he _ _ =>
    subst he
    right
    simp only [List.mem_append, List.mem_cons] at hs ⊢
    exact hs.imp_right Or.inr
  | @operator op hop =>
    rw [Token.posted_of_operator (Token.isOperator_of_operator? hop)]
    rcases List.mem_append.mp hs with hs | hs
    · exact Or.inr ((List.takeWhile_sublist _).subset hs)
    · exact (List.mem_cons.mp hs).imp_right fun hs => (List.dropWhile_sublist _).subset hs
  | operand _ _ => simpa using hs

theorem run_source (hk : Known ts) (hw : Stacked w) (h : run policy w ts = ⟨out, .ok w'⟩) :
    ∀ s ∈ out.tokens ++ w', (∃ t ∈ ts, s = t.posted) ∨ s ∈ w := by
  induction ts generalizing w out with
  | nil =>
    simp only [run, Run.mk.injEq, Except.ok.injEq] at h
    obtain ⟨rfl, rfl⟩ := h
    intro s hs
    exact Or.inr hs
  | cons t ts ih =>
    have ht := hk t List.mem_cons_self
    cases hs : step policy w t with
    | error e => simp [run_cons_error hs] at h
    | ok r =>
      obtain ⟨out₁, w₁⟩ := r
      rw [run_cons hs, Run.mk.injEq] at h
      obtain ⟨rfl, he⟩ := h
      have hstep := step_source hw ht hs
      have hrun := ih hk.tail (step_stacked hw ht hs) (show run policy w₁ ts = ⟨_, .ok w'⟩ by rw [← he])
      -- what waits after the first step may be put out by a later one
      have hfrom : ∀ s ∈ out₁.tokens ++ w₁, (∃ t' ∈ t :: ts, s = t'.posted) ∨ s ∈ w := by
        intro s hm
        exact (hstep s hm).imp_left fun hp => ⟨t, List.mem_cons_self, hp⟩
      intro s hm
      rw [Postfix.tokens_append, List.append_assoc, List.mem_append] at hm
      rcases hm with hm | hm
      · exact hfrom s (List.mem_append_left _ hm)
      · rcases hrun s hm with ⟨t', ht', hp⟩ | hm
        · exact Or.inl ⟨t', List.mem_cons_of_mem _ ht', hp⟩
        · exact hfrom s (List.mem_append_right _ hm)

/-- Everything that a conversion puts out is posted for one of the tokens. -/
theorem convert_source (hk : Known ts) (h : convert policy ts = .ok out) :
    ∀ s ∈ out.tokens, ∃ t ∈ ts, s = t.posted := by
  obtain ⟨before, w, hr, rfl⟩ := exists_run_of_convert h
  intro s hs
  rcases run_source hk stacked_nil hr s hs with hp | hm
  · exact hp
  · cases hm

/-! ## What the policy decides -/

theorem step_policy (policy policy' : Policy) (w : List Token) (h : t.isTerm = false) :
    step policy w t = step policy' w t := by
  cases hk : t.kind with
  | term => simp [Token.isTerm, hk] at h
  | number x | constant x | operator | leftParen | rightParen => simp only [step, hk]

theorem run_policy (policy policy' : Policy) (w : List Token) (h : ∀ t ∈ ts, t.isTerm = false) :
    run policy w ts = run policy' w ts := by
  induction ts generalizing w with
  | nil => rfl
  | cons t ts ih =>
    obtain ⟨ht, hts⟩ := List.forall_mem_cons.mp h
    have hstep := step_policy policy policy' w ht
    cases hs : step policy w t with
    | error e => rw [run_cons_error hs, run_cons_error (hstep ▸ hs)]
    | ok r =>
      obtain ⟨out, w₁⟩ := r
      rw [run_cons hs, run_cons (hstep ▸ hs), ih w₁ hts]

/-- Where all words have values, the policy has no part in a conversion. -/
theorem convert_policy (policy policy' : Policy) (h : ∀ t ∈ ts, t.isTerm = false) :
    convert policy ts = convert policy' ts := by
  unfold convert
  rw [run_policy policy policy' [] h]

/-! ## How a conversion ends -/

/-- With as many left as right parentheses, a conversion is done and keeps all operands and operators, or the first
token that stops it decides how it fails. -/
theorem convert_verdict (policy : Policy) (hk : Known ts) (hb : lefts ts = rights ts) :
    (Unblocked policy ts ∧ ∃ out, convert policy ts = .ok out ∧ (∀ t ∈ out.tokens, Plain t) ∧
        operands out.tokens = operands ts ∧ operators out.tokens = operators ts) ∨
      ∃ xs t ys f, ts = xs ++ t :: ys ∧ Unblocked policy xs ∧ Blocks policy xs t f ∧
        convert policy ts = .error (.failure f) := by
  rcases nowhere_or_first (fun xs t => ∃ f, Blocks policy xs t f) ts with hu | ⟨xs, t, ys, rfl, hu, f, hf⟩
  · exact Or.inl ⟨hu, convert_unblocked hk hu hb⟩
  · exact Or.inr ⟨xs, t, ys, f, rfl, hu, hf, convert_blocked (known_append.mp hk).1 hu hf ys⟩

/-- With as many left as right parentheses, a conversion that is done keeps all operands and operators. -/
theorem convert_keeps (hk : Known ts) (hb : lefts ts = rights ts) (h : convert policy ts = .ok out) :
    (∀ t ∈ out.tokens, Plain t) ∧ operands out.tokens = operands ts ∧ operators out.tokens = operators ts := by
  rcases convert_verdict policy hk hb with ⟨-, out', hout, hkeeps⟩ | ⟨xs, t, ys, f, -, -, -, hf⟩
  · obtain rfl := Except.ok.inj (hout.symm.trans h)
    exact hkeeps
  · rw [hf] at h
    cases h

/-- Where nothing stops the conversion under the policy to refuse words, all words have values. -/
theorem isTerm_of_unblocked (h : Unblocked .raise ts) : ∀ t ∈ ts, t.isTerm = false := by
  intro t ht
  obtain ⟨xs, ys, rfl⟩ := List.append_of_mem ht
  rw [Bool.eq_false_iff]
  intro hterm
  exact h xs t ys rfl ⟨_, .unparseable hterm rfl⟩

end InfixCalculator.Conversion
