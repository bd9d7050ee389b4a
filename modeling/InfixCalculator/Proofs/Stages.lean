import InfixCalculator.Calculation
import InfixCalculator.Proofs.Scanning

/-!
# The stages of a calculation

The parentheses are checked first; then the policy has to be one, the tokens are converted, and the result is evaluated.

- `ofExpression_imbalanced`, `ofExpression_balanced`: the calculation of an expression, stage by stage;
- `Calculation.ofTokens` is the calculation from the tokens on, and `ofExpression_eq_ofTokens` says so;
- `ofTokens_eq_ok_iff`, `ofTokens_eq_error_iff`: when it has a result, and at which stage it fails.
-/

namespace InfixCalculator

/-- An expression has as many left as right parentheses when its tokens do. -/
theorem isBalanced_iff {e : String} : isBalanced e = true ↔ lefts (tokenize e) = rights (tokenize e) := by
  rw [isBalanced, tokenize, lefts_scan, rights_scan, beq_iff_eq]

/-- What fails once a result is read off has failed before. -/
theorem eq_error_of_map {α β : Type} (f : α → β) {r : Except Fault α} {fault : Fault} (h : r.map f = .error fault) :
    r = .error fault := by
  cases r with
  | error g => exact congrArg Except.error (Except.error.inj h)
  | ok a => cases h

/-- Where something is read off a result, there is a result. -/
theorem exists_ok_of_map {α β : Type} (f : α → β) {r : Except Fault α} {b : β} (h : r.map f = .ok b) :
    ∃ a, r = .ok a ∧ f a = b := by
  cases r with
  | error g => cases h
  | ok a => exact ⟨a, rfl, Except.ok.inj h⟩

namespace Calculation

variable {options : Options} {e : String}

theorem ofExpression_imbalanced (h : isBalanced e = false) :
    ofExpression options e = .error (.failure .imbalanced) := by
  simp only [ofExpression, h]
  rfl

theorem ofExpression_unknownPolicy (h : isBalanced e = true) {fault : Fault} (hp : options.policy = .error fault) :
    ofExpression options e = .error fault := by
  simp only [ofExpression, h, hp]
  rfl

/-- What comes of a balanced expression is what comes of the conversion of its tokens and then of the evaluation. -/
theorem ofExpression_balanced (h : isBalanced e = true) {policy : Policy} (hp : options.policy = .ok policy) :
    ofExpression options e = (Conversion.convert policy (tokenize e)).bind fun out =>
      (Evaluation.evaluate options.allowPartial out.tokens).map fun x => ⟨e, tokenize e, out, x⟩ := by
  simp only [ofExpression, h, hp, bind, Except.bind, pure, Except.pure, Bool.not_true, Bool.false_eq_true, if_false]
  cases Conversion.convert policy (tokenize e) with
  | error fault => rfl
  | ok out => cases Evaluation.evaluate options.allowPartial out.tokens <;> rfl

/-! ## From the tokens on -/

/-- The calculation of an expression from its tokens on, or what stops it. -/
def ofTokens (options : Options) (e : String) (ts : List Token) : Except Fault Calculation :=
  if lefts ts = rights ts then
    options.policy.bind fun policy => (Conversion.convert policy ts).bind fun out =>
      (Evaluation.evaluate options.allowPartial out.tokens).map fun x => ⟨e, ts, out, x⟩
  else .error (.failure .imbalanced)

theorem ofExpression_eq_ofTokens (options : Options) (e : String) :
    ofExpression options e = ofTokens options e (tokenize e) := by
  unfold ofTokens
  split
  · next h =>
    have hb : isBalanced e = true := isBalanced_iff.mpr h
    cases hp : options.policy with
    | error fault => exact ofExpression_unknownPolicy hb hp
    | ok policy => exact ofExpression_balanced hb hp
  · next h =>
    apply ofExpression_imbalanced
    rw [Bool.eq_false_iff]
    exact fun hb => h (isBalanced_iff.mp hb)

variable {policy : Policy} {allowPartial : Bool} {ts : List Token}

theorem ofTokens_imbalanced (h : lefts ts ≠ rights ts) : ofTokens options e ts = .error (.failure .imbalanced) :=
  if_neg h

theorem ofTokens_stopped (hb : lefts ts = rights ts) (hp : options.policy = .ok policy) {fault : Fault}
    (hc : Conversion.convert policy ts = .error fault) : ofTokens options e ts = .error fault := by
  simp only [ofTokens, if_pos hb, hp, Except.bind, hc]

theorem ofTokens_converted (hb : lefts ts = rights ts) (hp : options.policy = .ok policy) {out : Postfix}
    (hc : Conversion.convert policy ts = .ok out) :
    ofTokens options e ts = (Evaluation.evaluate options.allowPartial out.tokens).map fun x => ⟨e, ts, out, x⟩ := by
  simp only [ofTokens, if_pos hb, hp, Except.bind, hc]

/-- A calculation has a result when there are as many left as right parentheses, and the conversion and the evaluation
are done. -/
theorem ofTokens_eq_ok_iff {c : Calculation} :
    ofTokens options e ts = .ok c ↔
      lefts ts = rights ts ∧ c.expression = e ∧ c.tokens = ts ∧ ∃ policy, options.policy = .ok policy ∧
        Conversion.convert policy ts = .ok c.rpn ∧
        Evaluation.evaluate options.allowPartial c.rpn.tokens = .ok c.result := by
  constructor
  · intro h
    by_cases hb : lefts ts = rights ts
    · cases hp : options.policy with
      | error fault => simp [ofTokens, hb, hp, Except.bind] at h
      | ok policy =>
        cases hc : Conversion.convert policy ts with
        | error fault => simp [ofTokens_stopped hb hp hc] at h
        | ok out =>
          rw [ofTokens_converted hb hp hc] at h
          cases hx : Evaluation.evaluate options.allowPartial out.tokens with
          | error fault => simp [hx, Except.map] at h
          | ok x =>
            rw [hx] at h
            obtain rfl := Except.ok.inj h
            exact ⟨hb, rfl, rfl, policy, rfl, hc, hx⟩
    · simp [ofTokens_imbalanced hb] at h
  · rintro ⟨hb, rfl, rfl, policy, hp, hc, hx⟩
    rw [ofTokens_converted hb hp hc, hx]
    rfl

/-- A calculation fails at the first stage that fails. -/
theorem ofTokens_eq_error_iff (hp : options.policy = .ok policy) {fault : Fault} :
    ofTokens options e ts = .error fault ↔
      (lefts ts ≠ rights ts ∧ fault = .failure .imbalanced) ∨
      (lefts ts = rights ts ∧ Conversion.convert policy ts = .error fault) ∨
      (lefts ts = rights ts ∧ ∃ out, Conversion.convert policy ts = .ok out ∧
        Evaluation.evaluate options.allowPartial out.tokens = .error fault) := by
  by_cases hb : lefts ts = rights ts
  · cases hc : Conversion.convert policy ts with
    | error g => simp [ofTokens_stopped hb hp hc, hb]
    | ok out =>
      rw [ofTokens_converted hb hp hc]
      cases hx : Evaluation.evaluate options.allowPartial out.tokens <;> simp [hb, hx, Except.map]
  · rw [ofTokens_imbalanced hb]
    simp [hb, eq_comm]

end Calculation

end InfixCalculator
