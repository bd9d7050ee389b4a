import InfixCalculator.Batch.Evaluate
import InfixCalculator.Proofs.Literals
import InfixCalculator.Proofs.Output
import InfixCalculator.Proofs.Respelling

/-!
# The text columns of a row

- `Literal.legible`: a number written as a literal is read back from its text, and each constant is written as a literal
  (`exists_literal`);
- `legible_posted`: whatever a conversion puts out for a token of a text can be read back;
- `columns_read_back`: the tokens column of a row gives the calculation again, and the other one its value.
-/

namespace InfixCalculator

/-! ## What is put out can be read back -/

theorem Literal.legible (l : Literal) (p : Option Nat) :
    Legible (Token.ofNumber l.value (some (String.ofList l.text)) p) := by
  have hne : l.text ≠ [] := by
    obtain ⟨c, cs, htext, -⟩ := l.exists_text_eq_cons
    simp [htext]
  have hw : Unbroken l.text := by
    intro c hc
    exact l.isDelimiter_of_mem_text hc
  have h := legible_classify hne hw p
  rwa [classify, kindOf_text] at h

/-- Each constant is written as a literal with its value. -/
theorem exists_literal {name : String} {x : Float} (h : (name, x) ∈ constants) :
    ∃ l : Literal, l.value = x ∧ Number.written x = String.ofList l.text := by
  obtain ⟨-, rfl⟩ := Prod.mk.inj (List.mem_singleton.mp h)
  refine ⟨.ofDecimal ['3'] "141592653589793".toList (by decide) (by decide) (by decide +kernel), ?_, ?_⟩
  · decide +kernel
  · decide +kernel

/-- Every constant among the tokens of a text is one of the table. -/
theorem exists_constant_of_mem_tokenize {e : String} {t : Token} (ht : t ∈ tokenize e) {x : Float}
    (hk : t.kind = .constant x) : ∃ name, (name, x) ∈ constants := by
  have hword : ∀ word p, word ≠ [] → ∀ y, (classify word (some p)).kind = .constant y →
      ∃ name, (name, y) ∈ constants := by
    intro word p _ y hy
    have hconst : constant? word = some y := by
      simp only [classify, kindOf] at hy
      split at hy
      · cases hy
      · split at hy <;> simp_all
    obtain ⟨before, after, htable, -⟩ := List.lookup_eq_some_iff.mp hconst
    exact ⟨_, htable ▸ List.mem_append_right _ List.mem_cons_self⟩
  have hdelim : ∀ c p, isDelimiter c = true → ∀ s ∈ delimiterTokens p c, ∀ y, s.kind = .constant y →
      ∃ name, (name, y) ∈ constants := by
    intro c p _ s hs y hy
    have ho := isOperand_delimiterTokens hs
    simp [Token.isOperand, hy] at ho
  exact forall_scan hword hdelim 0 [] e.toList t ht x hk

/-- What a conversion puts out for a token of a text can be read back. -/
theorem legible_posted {e : String} {t : Token} (ht : t ∈ tokenize e) : Legible t.posted := by
  cases hk : t.kind with
  | constant x =>
    obtain ⟨name, hx⟩ := exists_constant_of_mem_tokenize ht hk
    obtain ⟨l, rfl, hwritten⟩ := exists_literal hx
    have h := l.legible t.position
    rw [← hwritten] at h
    simp only [Token.posted, hk]
    exact h
  | term =>
    have h := Literal.zero.legible t.position
    rw [Literal.value_zero] at h
    simp only [Token.posted, hk]
    exact h
  | number x | operator | leftParen | rightParen =>
    simpa only [Token.posted, hk] using legible_of_mem_scan ht

/-- The output of a conversion is read back from its texts with a space between any two. -/
theorem tokenize_joined_output {policy : Policy} {e : String} {out : Postfix}
    (h : Conversion.convert policy (tokenize e) = .ok out) :
    (tokenize (joined out.tokens)).map Token.unplaced = out.tokens.map Token.unplaced := by
  refine scan_joined ?_ 0
  intro s hs
  obtain ⟨t, ht, rfl⟩ := Conversion.convert_source (known_tokenize e) h s hs
  exact legible_posted ht

/-! ## Rows -/

namespace Batch

/-- A row with tokens is the row of a calculation. -/
theorem exists_calculation_of_evaluate {options : Options} {e : String} {row : Row}
    (h : evaluate options [e] = .ok [row]) (hs : row.tokens.isSome = true) :
    ∃ c, Calculation.ofExpression options e = .ok c ∧ row = Row.ofCalculation c := by
  cases hr : Calculation.ofExpression options e with
  | ok c =>
    simp only [evaluate, Row.ofExpression, hr] at h
    cases h
    exact ⟨c, rfl, rfl⟩
  | error fault =>
    cases fault with
    | failure f =>
      simp only [evaluate, Row.ofExpression, hr] at h
      cases h
      cases hs
    | unknownOperator u | unknownPolicy given =>
      simp only [evaluate, Row.ofExpression, hr] at h
      cases h

/-- The text columns of the row of a calculation can be read back: the tokens column has the tokens of the expression,
and the same calculation, and the sequence in the other one has the result of the row. -/
theorem columns_read_back {options : Options} {e : String} {row : Row} (h : evaluate options [e] = .ok [row])
    (hs : row.tokens.isSome = true) :
    ∃ toks rpn, row.tokens = some toks ∧ row.rpn = some rpn ∧
      (tokenize toks).map Token.unplaced = (tokenize e).map Token.unplaced ∧
      (∃ c, Calculation.ofExpression options toks = .ok c ∧ " ".intercalate c.rpnTexts = rpn ∧
        c.result = row.result) ∧
      Evaluation.evaluate options.allowPartial (tokenize rpn) = .ok row.result := by
  obtain ⟨c, hc, rfl⟩ := exists_calculation_of_evaluate h hs
  rw [Calculation.ofExpression_eq_ofTokens] at hc
  obtain ⟨-, -, htokens, policy, hp, hconv, heval⟩ := Calculation.ofTokens_eq_ok_iff.mp hc
  obtain ⟨given, allowPartial⟩ := options
  obtain rfl : given = .ok policy := hp
  have hback := tokenize_joined e
  refine ⟨joined c.tokens, joined c.rpn.tokens, rfl, rfl, by rwa [htokens], ?_, ?_⟩
  · have hanswer : Calculation.answer (Calculation.ofExpression ⟨.ok policy, allowPartial⟩ (joined (tokenize e))) =
        Calculation.answer (.ok c) := by
      rw [Calculation.ofExpression_eq_ofTokens, ← hc]
      exact Calculation.answer_ofTokens_congr hback policy allowPartial
    obtain ⟨c', hc', hresult, htexts⟩ := Calculation.answer_eq_ok_iff.mp hanswer
    rw [htokens]
    exact ⟨c', hc', congrArg _ htexts, hresult⟩
  · rw [Evaluation.evaluate_congr (tokenize_joined_output hconv)]
    exact heval

/-- A row with a constant, a word replaced by zero, and a tab at its end. -/
theorem columns_read_back_recovered :
    ∃ row, evaluate {} ["2*pI + x\t"] = .ok [row] ∧ row.tokens = some "2 * pI + x\t" ∧
      row.rpn = some "2 3.141592653589793 * 0 +" ∧
      (tokenize "2 * pI + x\t").map Token.unplaced = (tokenize "2*pI + x\t").map Token.unplaced ∧
      Evaluation.evaluate true (tokenize "2 3.141592653589793 * 0 +") = .ok row.result := by
  have hcells : (evaluate {} ["2*pI + x\t"]).map (List.map fun row => (row.tokens, row.rpn)) =
      .ok [(some "2 * pI + x\t", some "2 3.141592653589793 * 0 +")] := by
    decide +kernel
  cases hr : evaluate {} ["2*pI + x\t"] with
  | error fault =>
    rw [hr] at hcells
    cases hcells
  | ok rows =>
    rw [hr] at hcells
    obtain ⟨row, rfl, hrow⟩ := List.map_eq_singleton_iff.mp (Except.ok.inj hcells)
    obtain ⟨htokens, hrpn⟩ := Prod.mk.inj hrow
    obtain ⟨toks, rpn, ht, hp, hback, -, heval⟩ := columns_read_back hr (by rw [htokens]; rfl)
    obtain rfl := Option.some.inj (ht.symm.trans htokens)
    obtain rfl := Option.some.inj (hp.symm.trans hrpn)
    exact ⟨row, rfl, htokens, hrpn, hback, heval⟩

end Batch

end InfixCalculator
