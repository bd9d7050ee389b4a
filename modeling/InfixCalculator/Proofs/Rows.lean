import InfixCalculator.Proofs.Columns
import InfixCalculator.Proofs.Endings
import Mathlib.Data.List.Forall2

/-!
# The rows of a batch

- `Policy.ofJson_name`, `Policy.ofJson_eq_error`: the names of the policies are all that names one;
- `Calculation.rpn_ne_nil`, `Calculation.tokens_ne_nil`: a calculation has tokens, and has some in reverse Polish order,
  so that their texts are no empty text (`joined_ne_empty`);
- `Row.Tells options e row`: what a row says about the calculation of its expression, and `Row.tells`: it is so for the
  row of every expression;
- `evaluate_eq_ok_iff`, `evaluate_unknownPolicy`: the rows of a batch are the rows of its expressions, and a policy that
  does not exist stops it at the first expression with as many left as right parentheses;
- `evaluate_rows`: both for the policy that is given, or else that of the settings.
-/

namespace InfixCalculator

/-! ## Policies by their names -/

theorem Policy.ofJson_name (policy : Policy) : Policy.ofJson (.text policy.name) = .ok policy := by
  cases policy <;> rfl

theorem Policy.ofJson_eq_error {j : Json} (h : ∀ policy : Policy, j ≠ .text policy.name) :
    Policy.ofJson j = .error (.unknownPolicy j.shown) := by
  have hnone : j.text?.bind Policy.ofName? = none := by
    cases j with
    | text s =>
      apply List.find?_eq_none.mpr
      intro policy _ hs
      exact h policy (congrArg Json.text (beq_iff_eq.mp hs).symm)
    | null | bool b | integer n | real x | array items | object members => rfl
  simp only [Policy.ofJson, hnone]

/-! ## Texts of a calculation -/

theorem Legible.text_ne_empty {t : Token} (h : Legible t) : t.text ≠ "" := by
  intro he
  have hscan := h 0
  rw [he] at hscan
  cases hscan

theorem joined_ne_empty {ts : List Token} (hne : ts ≠ []) (h : ∀ t ∈ ts, Legible t) : joined ts ≠ "" := by
  match ts, hne with
  | [t], _ =>
    have hone : joined [t] = t.text := String.intercalate_singleton
    rw [hone]
    exact (h t List.mem_cons_self).text_ne_empty
  | t :: s :: rest, _ =>
    intro he
    have hcons := joined_cons t s rest
    rw [he] at hcons
    simp at hcons

namespace Calculation

variable {options : Options} {e : String} {c : Calculation}

/-- A calculation has some tokens in reverse Polish order. -/
theorem rpn_ne_nil (h : ofExpression options e = .ok c) : c.rpn.tokens ≠ [] := by
  rw [ofExpression_eq_ofTokens] at h
  obtain ⟨-, -, -, policy, -, -, heval⟩ := ofTokens_eq_ok_iff.mp h
  intro hnil
  rw [hnil] at heval
  cases heval

/-- What a calculation knows comes from the tokens of its expression. -/
theorem source (h : ofExpression options e = .ok c) :
    c.expression = e ∧ c.tokens = tokenize e ∧
      c.diagnostics = ((tokenize e).filter Token.isTerm).map Token.diagnostic ∧
      ∀ s ∈ c.rpn.tokens, ∃ t ∈ tokenize e, s = t.posted := by
  rw [ofExpression_eq_ofTokens] at h
  obtain ⟨-, he, hts, policy, -, hconv, -⟩ := ofTokens_eq_ok_iff.mp h
  refine ⟨he, hts, ?_, Conversion.convert_source (known_tokenize e) hconv⟩
  rw [← flatMap_replaced]
  exact Conversion.convert_diagnostics (known_tokenize e) hconv

theorem tokens_ne_nil (h : ofExpression options e = .ok c) : c.tokens ≠ [] := by
  obtain ⟨-, hts, -, hsource⟩ := source h
  obtain ⟨s, hs⟩ := List.exists_mem_of_ne_nil _ (rpn_ne_nil h)
  obtain ⟨t, ht, -⟩ := hsource s hs
  rw [hts]
  exact List.ne_nil_of_mem ht

theorem tokenTexts_ne_empty (h : ofExpression options e = .ok c) : " ".intercalate c.tokenTexts ≠ "" := by
  apply joined_ne_empty (tokens_ne_nil h)
  intro t ht
  rw [(source h).2.1] at ht
  exact legible_of_mem_scan ht

theorem rpnTexts_ne_empty (h : ofExpression options e = .ok c) : " ".intercalate c.rpnTexts ≠ "" := by
  apply joined_ne_empty (rpn_ne_nil h)
  intro s hs
  obtain ⟨t, ht, rfl⟩ := (source h).2.2.2 s hs
  exact legible_posted ht

end Calculation

namespace Batch

/-! ## One row -/

theorem isNaN_notANumber : Number.notANumber.isNaN = true := by
  decide

/-- What a row says about the calculation of its expression. -/
structure Row.Tells (options : Options) (e : String) (row : Row) : Prop where
  expression : row.expression = e
  /-- The tokens are missing just when the calculation fails. -/
  tokens_eq_none_iff : row.tokens = none ↔ ∃ fault, Calculation.ofExpression options e = .error fault
  /-- So is their reverse Polish order. -/
  rpn_eq_none_iff : row.rpn = none ↔ ∃ fault, Calculation.ofExpression options e = .error fault
  /-- A failure is told by its message, and leaves no number as the result. -/
  failed : ∀ fault, Calculation.ofExpression options e = .error fault →
    ∃ f, fault = .failure f ∧ row.result.isNaN = true ∧ row.error = some f.message
  /-- Otherwise both are texts with something in them. -/
  texts : ∀ c, Calculation.ofExpression options e = .ok c →
    (∃ s, row.tokens = some s ∧ s ≠ "") ∧ ∃ s, row.rpn = some s ∧ s ≠ ""
  /-- There is nothing to remark just when the calculation is done and no word was replaced. -/
  error_eq_none_iff : row.error = none ↔
    (∃ c, Calculation.ofExpression options e = .ok c) ∧ ∀ t ∈ tokenize e, t.isTerm = false
  /-- The remarks on a calculation in which words were replaced are those on each of them, in order. -/
  replaced : ∀ c, Calculation.ofExpression options e = .ok c → (∃ t ∈ tokenize e, t.isTerm = true) →
    row.error = some ("; ".intercalate (((tokenize e).filter Token.isTerm).map fun t => t.diagnostic.message))

variable {options : Options} {e : String} {es : List String}

theorem Row.tells_failure {f : Failure} (h : Calculation.ofExpression options e = .error (.failure f)) :
    (Row.ofFailure e f).Tells options e where
  expression := rfl
  tokens_eq_none_iff := ⟨fun _ => ⟨_, h⟩, fun _ => rfl⟩
  rpn_eq_none_iff := ⟨fun _ => ⟨_, h⟩, fun _ => rfl⟩
  failed := by
    intro fault hfault
    rw [h] at hfault
    exact ⟨f, (Except.error.inj hfault).symm, isNaN_notANumber, rfl⟩
  texts := by simp [h]
  error_eq_none_iff := by simp [h, ofFailure]
  replaced := by simp [h]

theorem Row.tells_calculation {c : Calculation} (h : Calculation.ofExpression options e = .ok c) :
    (Row.ofCalculation c).Tells options e := by
  obtain ⟨he, -, hd, -⟩ := Calculation.source h
  refine ⟨he, by simp [h, ofCalculation], by simp [h, ofCalculation], by simp [h], fun _ _ => ?_, ?_, fun _ _ ht => ?_⟩
  · exact ⟨⟨_, rfl, Calculation.tokenTexts_ne_empty h⟩, ⟨_, rfl, Calculation.rpnTexts_ne_empty h⟩⟩
  · simp [h, ofCalculation, remarks, hd]
  · obtain ⟨t, ht, hterm⟩ := ht
    have hsome : ¬c.diagnostics.isEmpty = true := by simpa [hd] using ⟨t, ht, hterm⟩
    show remarks c.diagnostics = _
    rw [remarks, if_neg hsome, hd, List.map_map]
    rfl

/-- The row of an expression under a policy, and what it says. -/
theorem Row.tells (policy : Policy) (allowPartial : Bool) (e : String) :
    ∃ row, Row.ofExpression ⟨.ok policy, allowPartial⟩ e = .ok row ∧ row.Tells ⟨.ok policy, allowPartial⟩ e := by
  cases h : Calculation.ofExpression ⟨.ok policy, allowPartial⟩ e with
  | ok c => exact ⟨_, by rw [Row.ofExpression, h], tells_calculation h⟩
  | error fault =>
    obtain ⟨f, rfl⟩ := exists_failure h
    exact ⟨_, by rw [Row.ofExpression, h], tells_failure h⟩

/-! ## All rows -/

/-- The rows of a batch are the rows of its expressions. -/
theorem evaluate_eq_ok_iff {rows : List Row} :
    evaluate options es = .ok rows ↔ List.Forall₂ (fun e row => Row.ofExpression options e = .ok row) es rows := by
  induction es generalizing rows with
  | nil =>
    rw [List.forall₂_nil_left_iff]
    exact ⟨fun h => (Except.ok.inj h).symm, fun h => congrArg Except.ok h.symm⟩
  | cons e es ih =>
    rw [evaluate, List.forall₂_cons_left_iff]
    cases hr : Row.ofExpression options e with
    | error fault => simp
    | ok row =>
      simp only [← ih]
      cases evaluate options es with
      | error fault => simp [Except.map]
      | ok rest => simp [Except.map, eq_comm]

theorem evaluate_singleton {row : Row} : evaluate options [e] = .ok [row] ↔ Row.ofExpression options e = .ok row := by
  simp [evaluate_eq_ok_iff]

/-- Under a policy a batch has a row for each of its expressions, the same as in a batch of the expression alone. -/
theorem evaluate_policy (policy : Policy) (allowPartial : Bool) (es : List String) :
    ∃ rows, evaluate ⟨.ok policy, allowPartial⟩ es = .ok rows ∧
      List.Forall₂ (fun e row => evaluate ⟨.ok policy, allowPartial⟩ [e] = .ok [row] ∧
        row.Tells ⟨.ok policy, allowPartial⟩ e) es rows := by
  simp only [evaluate_singleton]
  simp only [evaluate_eq_ok_iff]
  induction es with
  | nil => exact ⟨[], .nil, .nil⟩
  | cons e es ih =>
    obtain ⟨rows, hrows, htell⟩ := ih
    obtain ⟨row, hrow, ht⟩ := Row.tells policy allowPartial e
    exact ⟨row :: rows, .cons hrow hrows, .cons ⟨hrow, ht⟩ htell⟩

/-- A policy that does not exist stops a batch at the first expression with as many left as right parentheses; without
one all expressions fail. -/
theorem evaluate_unknownPolicy {given : String} (h : options.policy = .error (.unknownPolicy given)) (es : List String) :
    evaluate options es =
      if es.any isBalanced then .error (.unknownPolicy given) else .ok (es.map (Row.ofFailure · .imbalanced)) := by
  induction es with
  | nil => rfl
  | cons e es ih =>
    rw [evaluate, Row.ofExpression, List.any_cons]
    cases hb : isBalanced e with
    | true => rw [Calculation.ofExpression_unknownPolicy hb h]; rfl
    | false =>
      rw [Calculation.ofExpression_imbalanced hb, ih, Bool.false_or]
      cases es.any isBalanced <;> rfl

/-- The rows of a batch, by the policy that is given, or else that of the settings.

- If it is one, there is a row for each expression, in order, the same as in a batch of the expression alone, and it
  tells how the calculation of the expression ends.
- If there is no such policy, the batch is stopped just when one of the expressions has as many left as right
  parentheses. -/
theorem evaluate_rows (settings : Settings) (given : Option Json) (allowPartial : Option Bool) (es : List String) :
    (∀ policy : Policy, given.getD settings.onParseError = .text policy.name →
        ∃ rows, evaluate (settings.options given allowPartial) es = .ok rows ∧
          List.Forall₂ (fun e row => evaluate (settings.options given allowPartial) [e] = .ok [row] ∧
            row.Tells (settings.options given allowPartial) e) es rows) ∧
      ((∀ policy : Policy, given.getD settings.onParseError ≠ .text policy.name) →
        (evaluate (settings.options given allowPartial) es =
            .error (.unknownPolicy (given.getD settings.onParseError).shown) ↔
          ∃ e ∈ es, e.toList.count '(' = e.toList.count ')') ∧
        ((∃ rows, evaluate (settings.options given allowPartial) es = .ok rows) ↔
          ∀ e ∈ es, e.toList.count '(' ≠ e.toList.count ')')) := by
  constructor
  · intro policy h
    have hoptions : settings.options given allowPartial =
        ⟨.ok policy, allowPartial.getD settings.allowPartial.truthy⟩ := by
      rw [Settings.options, h, Policy.ofJson_name]
    rw [hoptions]
    exact evaluate_policy policy _ es
  · intro h
    have hpolicy : (settings.options given allowPartial).policy =
        .error (.unknownPolicy (given.getD settings.onParseError).shown) := Policy.ofJson_eq_error h
    have hany : es.any isBalanced = true ↔ ∃ e ∈ es, e.toList.count '(' = e.toList.count ')' := by
      simp only [List.any_eq_true, isBalanced_iff_count]
    have hall : es.any isBalanced = false ↔ ∀ e ∈ es, e.toList.count '(' ≠ e.toList.count ')' := by
      simp only [List.any_eq_false, isBalanced_iff_count, ne_eq]
    rw [evaluate_unknownPolicy hpolicy, ← hall, ← hany]
    cases es.any isBalanced <;> simp

/-- Under the standard settings a batch with a replaced word, a parenthesis without a partner and no number has all its
rows; a policy that does not exist stops a batch at its second expression, and a batch without the latter never. -/
theorem evaluate_rows_standard :
    (∃ rows, evaluate (Settings.standard.options none none) ["x + 1", ")(", "0 / 0"] = .ok rows ∧ rows.length = 3) ∧
      evaluate (Settings.standard.options (some (.text "ignore")) none) ["(", "1"] =
        .error (.unknownPolicy "'ignore'") ∧
      ∃ rows, evaluate (Settings.standard.options (some (.text "ignore")) none) ["("] = .ok rows := by
  have hrecover : Settings.standard.onParseError = .text Policy.recover.name := rfl
  have hnone : ∀ policy : Policy, Json.text "ignore" ≠ .text policy.name := by
    intro policy
    cases policy <;> simp [Policy.name]
  have hshown : (Json.text "ignore").shown = "'ignore'" := by decide +kernel
  obtain ⟨rows, hrows, htell⟩ :=
    (evaluate_rows Settings.standard none none ["x + 1", ")(", "0 / 0"]).1 .recover hrecover
  have hstopped := ((evaluate_rows Settings.standard (some (.text "ignore")) none ["(", "1"]).2 hnone).1
  have hdone := ((evaluate_rows Settings.standard (some (.text "ignore")) none ["("]).2 hnone).2
  refine ⟨⟨rows, hrows, htell.length_eq.symm⟩, ?_, hdone.mpr (by decide)⟩
  rw [← hshown]
  exact hstopped.mpr ⟨"1", by simp, by decide⟩

end Batch

end InfixCalculator
