import InfixCalculator.Proofs.Accounts

/-!
# How many values a reverse Polish sequence leaves

Each operand adds a value, and each operator takes one away, if there are two.

- `Lacking xs t`: after the tokens `xs` the operator `t` finds fewer than two values, and `Supplied ts`: no operator of
  `ts` does;
- `length_of_step`, `length_of_run`: the stack grows by one value with each operand and gets shorter by one with each
  operator;
- `run_supplied`: what is supplied leaves as many values as it has operands beyond its operators;
- `run_lacking`: the first operator that finds fewer than two values fails with their number;
- `operators_lt_operands`: once there is a value, there is always one.
-/

namespace InfixCalculator

namespace Evaluation

/-- After the tokens, a token is an operator for which fewer than two values are there. -/
def Lacking (xs : List Token) (t : Token) : Prop :=
  t.isOperator = true ∧ operands xs < operators xs + 2

/-- Every operator finds its two values. -/
def Supplied (ts : List Token) : Prop :=
  Nowhere Lacking ts

theorem supplied_append_singleton {ts : List Token} {t : Token} :
    Supplied (ts ++ [t]) ↔ Supplied ts ∧ ¬Lacking ts t :=
  nowhere_append_singleton

/-- What is supplied, and is not empty, has more operands than operators. -/
theorem operators_lt_operands {ts : List Token} (hp : ∀ t ∈ ts, Conversion.Plain t) (h : Supplied ts)
    (hne : ts ≠ []) : operators ts < operands ts := by
  induction ts using List.reverseRecOn with
  | nil => exact absurd rfl hne
  | append_singleton ts t ih =>
    obtain ⟨hts, ht⟩ := supplied_append_singleton.mp h
    rw [List.forall_mem_append] at hp
    rcases hp.2 t List.mem_cons_self with hn | ⟨op, hop⟩
    · have ho := Token.isOperand_of_isNumber hn
      have hle : operators ts ≤ operands ts := by
        by_cases hnil : ts = []
        · simp [hnil]
        · exact Nat.le_of_lt (ih hp.1 hts hnil)
      simp [ho, Token.of_isOperand ho]
      omega
    · have ho := Token.isOperator_of_operator? hop
      have hle : operators ts + 2 ≤ operands ts := by simpa [Lacking, ho] using ht
      simp [ho, Token.of_isOperator ho]
      omega

/-- A step adds a value for an operand, and takes one away for an operator. -/
theorem length_of_step {stack stack' : List Float} {t : Token} (hp : Conversion.Plain t)
    (h : step stack t = .ok stack') : operators [t] + stack'.length = operands [t] + stack.length := by
  rcases hp with hn | ⟨op, hop⟩
  · have ho := Token.isOperand_of_isNumber hn
    obtain ⟨x, hx⟩ := step_number hn stack
    obtain rfl := Except.ok.inj (hx.symm.trans h)
    simp [ho, Token.of_isOperand ho]
    omega
  · have ho := Token.isOperator_of_operator? hop
    match stack, h with
    | [], h | [_], h =>
      rw [step_operator_short ho (by simp)] at h
      cases h
    | y :: x :: rest, h =>
      obtain rfl := Except.ok.inj ((step_operator hop x y rest).symm.trans h)
      simp [ho, Token.of_isOperator ho]
      omega

/-- Every run leaves as many values more as it has operands beyond its operators. -/
theorem length_of_run {stack stack' : List Float} {ts : List Token} (hp : ∀ t ∈ ts, Conversion.Plain t)
    (h : run stack ts = .ok stack') : operators ts + stack'.length = operands ts + stack.length := by
  induction ts generalizing stack with
  | nil =>
    obtain rfl := Except.ok.inj h
    rfl
  | cons t ts ih =>
    obtain ⟨ht, hts⟩ := List.forall_mem_cons.mp hp
    cases hs : step stack t with
    | error e => simp [run, hs] at h
    | ok stack₁ =>
      rw [run_cons hs] at h
      have hstep := length_of_step ht hs
      have hrun := ih hts h
      simp only [operators_cons, operands_cons, operators_nil, operands_nil] at hstep ⊢
      omega

/-- What is supplied leaves as many values as it has operands beyond its operators. -/
theorem run_supplied {ts : List Token} (hp : ∀ t ∈ ts, Conversion.Plain t) (h : Supplied ts) :
    ∃ stack, run [] ts = .ok stack ∧ operators ts + stack.length = operands ts := by
  suffices hrun : ∃ stack, run [] ts = .ok stack by
    obtain ⟨stack, hrun⟩ := hrun
    exact ⟨stack, hrun, length_of_run hp hrun⟩
  induction ts using List.reverseRecOn with
  | nil => exact ⟨[], rfl⟩
  | append_singleton ts t ih =>
    obtain ⟨hts, ht⟩ := supplied_append_singleton.mp h
    rw [List.forall_mem_append] at hp
    obtain ⟨stack, hrun⟩ := ih hp.1 hts
    have hnext : run [] (ts ++ [t]) = run stack [t] := by rw [run_append, hrun]; rfl
    rcases hp.2 t List.mem_cons_self with hn | ⟨op, hop⟩
    · obtain ⟨x, hx⟩ := step_number hn stack
      exact ⟨x :: stack, by rw [hnext, run_cons hx]; rfl⟩
    · have ho := Token.isOperator_of_operator? hop
      have hle : operators ts + 2 ≤ operands ts := by simpa [Lacking, ho] using ht
      have hlen := length_of_run hp.1 hrun
      match stack, hlen with
      | [], hlen | [_], hlen => simp at hlen; omega
      | y :: x :: rest, _ =>
        exact ⟨op.apply x y :: rest, by rw [hnext, run_cons (step_operator hop x y rest)]; rfl⟩

/-- Where every operator finds its values and some token is there, the value on top is the result, unless values are
left below it that are not allowed. -/
theorem evaluate_supplied {ts : List Token} (hp : ∀ t ∈ ts, Conversion.Plain t) (h : Supplied ts)
    (hne : ts ≠ []) :
    ∃ n x, operands ts = operators ts + (n + 1) ∧ ∀ allowPartial, evaluate allowPartial ts =
        if n = 0 ∨ allowPartial = true then .ok x else .error (.failure (.malformed (n + 1))) := by
  obtain ⟨stack, hrun, hlen⟩ := run_supplied hp h
  have hlt := operators_lt_operands hp h hne
  match stack, hrun, hlen with
  | [], _, hlen => simp at hlen; omega
  | [x], hrun, hlen =>
    refine ⟨0, x, by simp at hlen; omega, fun allowPartial => ?_⟩
    simp [evaluate, hrun, top]
  | x :: y :: rest, hrun, hlen =>
    refine ⟨rest.length + 1, x, by simp at hlen; omega, fun allowPartial => ?_⟩
    simp [evaluate, hrun, top]

/-- The first operator that finds fewer than two values fails with their number. -/
theorem run_lacking {xs : List Token} {t : Token} (hp : ∀ s ∈ xs, Conversion.Plain s) (h : Supplied xs)
    (ht : Lacking xs t) (ys : List Token) :
    run [] (xs ++ t :: ys) = .error (.failure (.underflow t.text (operands xs - operators xs))) := by
  obtain ⟨stack, hrun, hlen⟩ := run_supplied hp h
  obtain ⟨ho, hlt⟩ := ht
  have hstep := step_operator_short ho (show stack.length < 2 by omega)
  have hnum : operands xs - operators xs = stack.length := by omega
  rw [run_append, hrun, hnum]
  simp [Except.bind, run, hstep]

end Evaluation

end InfixCalculator
