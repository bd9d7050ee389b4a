import InfixCalculator.Proofs.Steps
import Mathlib.Data.List.Induction
import Mathlib.Data.List.TakeWhile

/-!
# What stops a conversion, and what it has put out until then

- `Nowhere B ts`: at no token of `ts` does `B` hold of the tokens before it and of itself; `nowhere_or_first`: it does,
  or there is a first such token;
- `Blocks policy xs t f`: after the tokens `xs` the token `t` stops a conversion with the failure `f`;
- `Accounts ts out w`: every parenthesis, operand and operator of `ts` is accounted for by the output and by what waits;
  `Accounts.step` keeps it in a step, and `run_unblocked` in every run that nothing stops;
- `convert_blocked`, `convert_unblocked`: a conversion ends with the failure of the first token that stops it, or it
  keeps all operands and operators.
-/

namespace InfixCalculator

/-! ## The first place where something holds -/

/-- At no token does the property hold of the tokens before it and of itself. -/
def Nowhere (B : List Token → Token → Prop) (ts : List Token) : Prop :=
  ∀ xs t ys, ts = xs ++ t :: ys → ¬B xs t

theorem nowhere_nil (B : List Token → Token → Prop) : Nowhere B [] := by
  intro xs t ys h
  simp at h

theorem nowhere_append_singleton {B : List Token → Token → Prop} {ts : List Token} {t : Token} :
    Nowhere B (ts ++ [t]) ↔ Nowhere B ts ∧ ¬B ts t := by
  constructor
  · intro h
    exact ⟨fun xs s ys he => h xs s (ys ++ [t]) (by simp [he]), h ts t [] rfl⟩
  · rintro ⟨h, ht⟩ xs s ys he
    rcases List.eq_nil_or_concat ys with rfl | ⟨zs, z, rfl⟩
    · obtain ⟨rfl, hs⟩ := List.append_inj' he rfl
      obtain rfl := (List.cons.inj hs).1
      exact ht
    · rw [List.concat_eq_append, ← List.cons_append, ← List.append_assoc] at he
      exact h xs s zs (List.append_inj' he rfl).1

/-- The property holds nowhere, or there is a first token at which it does. -/
theorem nowhere_or_first (B : List Token → Token → Prop) (ts : List Token) :
    Nowhere B ts ∨ ∃ xs t ys, ts = xs ++ t :: ys ∧ Nowhere B xs ∧ B xs t := by
  induction ts using List.reverseRecOn with
  | nil => exact Or.inl (nowhere_nil B)
  | append_singleton ts t ih =>
    rcases ih with h | ⟨xs, s, ys, rfl, h, hs⟩
    · by_cases ht : B ts t
      · exact Or.inr ⟨ts, t, [], rfl, h, ht⟩
      · exact Or.inl (nowhere_append_singleton.mpr ⟨h, ht⟩)
    · exact Or.inr ⟨xs, s, ys ++ [t], by simp, h, hs⟩

namespace Conversion

/-! ## What stops a conversion -/

/-- After the tokens, a token stops a conversion with a failure: a right parenthesis that has no partner, or a word
without a value under the policy to refuse it. -/
inductive Blocks (policy : Policy) (xs : List Token) (t : Token) : Failure → Prop
  | unmatched (h : t.isRightParen = true) (hx : lefts xs ≤ rights xs) :
      Blocks policy xs t (.unmatched .right t.position)
  | unparseable (h : t.isTerm = true) (hp : policy = .raise) :
      Blocks policy xs t (.unparseable t.text t.position)

/-- No token stops a conversion. -/
def Unblocked (policy : Policy) (ts : List Token) : Prop :=
  Nowhere (fun xs t => ∃ f, Blocks policy xs t f) ts

/-- The token can stand in a reverse Polish sequence: a number, or a known operator. -/
def Plain (t : Token) : Prop :=
  t.isNumber = true ∨ ∃ op, t.operator? = some op

/-- A sequence of numbers and operators is empty if it has neither. -/
theorem eq_nil_of_plain {ts : List Token} (h : ∀ t ∈ ts, Plain t) (ho : operands ts = 0)
    (hr : operators ts = 0) : ts = [] := by
  cases ts with
  | nil => rfl
  | cons t ts =>
    rcases h t List.mem_cons_self with hn | ⟨op, hop⟩
    · simp [Token.isOperand_of_isNumber hn] at ho
    · simp [Token.isOperator_of_operator? hop] at hr

/-- What has been put out and what waits account for all tokens that were read. -/
structure Accounts (ts : List Token) (out : List Token) (w : List Token) : Prop where
  stacked : Stacked w
  plain : ∀ t ∈ out, Plain t
  lefts : lefts w + rights ts = lefts ts
  operands : operands out = operands ts
  operators : operators out + operators w = operators ts

theorem operands_eq_zero {w : List Token} (h : Stacked w) : operands w = 0 := by
  rw [InfixCalculator.operands, List.countP_eq_zero]
  intro t ht
  rcases h t ht with hl | ⟨op, hop⟩
  · simp [Token.of_isLeftParen hl]
  · simp [Token.of_isOperator (Token.isOperator_of_operator? hop)]

theorem Stacked.plain {w : List Token} (h : Stacked w) (hl : ∀ s ∈ w, s.isLeftParen = false) :
    ∀ t ∈ w, Plain t := by
  intro t ht
  rcases h t ht with hp | hop
  · rw [hl t ht] at hp
    cases hp
  · exact Or.inr hop

/-- One more token keeps the accounts. -/
theorem Accounts.step {policy : Policy} {ts out w : List Token} (h : Accounts ts out w) {t : Token}
    (ht : t.isOperator = true → ∃ op, t.operator? = some op) {out' : Postfix} {w' : List Token}
    (hs : Conversion.step policy w t = .ok (out', w')) : Accounts (ts ++ [t]) (out ++ out'.tokens) w' := by
  have hm := step_moves policy h.stacked ht
  have hstacked := step_stacked h.stacked ht hs
  obtain ⟨hstack, hplain, hl, ho, hr⟩ := h
  rw [hs] at hm
  cases hm with
  | opens hp =>
    exact ⟨hstacked, by simpa using hplain, by simp [hp, Token.of_isLeftParen hp]; omega,
      by simpa [Token.of_isLeftParen hp] using ho, by simpa [Token.of_isLeftParen hp] using hr⟩
  | @closes gone kept l hp he hg hk =>
    subst he
    have hgone := hstack.of_append.1
    have hnone := operands_eq_zero hgone
    simp only [lefts_append, lefts_cons, hk, lefts_eq_zero_iff.mpr hg, operators_append, operators_cons,
      Token.of_isLeftParen hk, if_true, if_false, Bool.false_eq_true] at hl hr
    refine ⟨hstacked, List.forall_mem_append.mpr ⟨hplain, hgone.plain hg⟩, ?_, ?_, ?_⟩
    · simp [hp, Token.of_isRightParen hp]; omega
    · simp [Token.of_isRightParen hp, hnone, ho]
    · simp [Token.of_isRightParen hp]; omega
  | @operator op hop =>
    have hsplit := List.takeWhile_append_dropWhile (p := leaves op) (l := w)
    have hgone : ∀ s ∈ w.takeWhile (leaves op), s.isLeftParen = false := fun s hs' =>
      isLeftParen_of_leaves (List.mem_takeWhile_imp hs')
    have hflags := Token.of_isOperator (Token.isOperator_of_operator? hop)
    have hstack' := (hsplit ▸ hstack).of_append.1
    rw [← hsplit, lefts_append, lefts_eq_zero_iff.mpr hgone] at hl
    rw [← hsplit, operators_append] at hr
    refine ⟨hstacked, List.forall_mem_append.mpr ⟨hplain, hstack'.plain hgone⟩, ?_, ?_, ?_⟩
    · simp [hflags]; omega
    · simp [hflags, operands_eq_zero hstack', ho]
    · simp [Token.isOperator_of_operator? hop]; omega
  | operand hop _ =>
    have hflags := Token.of_isOperand hop
    have hposted := Token.isNumber_posted hop
    have hflags' := Token.of_isOperand (Token.isOperand_of_isNumber hposted)
    refine ⟨hstacked, List.forall_mem_append.mpr ⟨hplain, ?_⟩, ?_, ?_, ?_⟩
    · exact List.forall_mem_singleton.mpr (Or.inl hposted)
    · simp [hflags]; omega
    · simp [hop, Token.isOperand_of_isNumber hposted, ho]
    · simp [hflags, hflags']; omega

/-! ## Runs up to what stops them -/

theorem accounts_nil : Accounts [] [] [] :=
  ⟨fun _ h => absurd h (List.not_mem_nil), fun _ h => absurd h (List.not_mem_nil), rfl, rfl, rfl⟩

/-- A token that stops a conversion ends a step with its failure. -/
theorem Accounts.step_blocked {policy : Policy} {xs out w : List Token} (h : Accounts xs out w) {t : Token}
    {f : Failure} (hb : Blocks policy xs t f) : Conversion.step policy w t = .error (.failure f) := by
  cases hb with
  | unmatched ht hx =>
    have hnone := lefts_eq_zero_iff.mp (show InfixCalculator.lefts w = 0 by have := h.lefts; omega)
    simp only [Conversion.step, Token.isRightParen_iff.mp ht, closed?_eq_none hnone]
  | unparseable ht hp => simp only [Conversion.step, Token.isTerm_iff.mp ht, hp]

/-- A token that does not stop a conversion lets a step be done. -/
theorem Accounts.step_unblocked {policy : Policy} {xs out w : List Token} (h : Accounts xs out w) {t : Token}
    (ht : t.isOperator = true → ∃ op, t.operator? = some op) (hb : ¬∃ f, Blocks policy xs t f) :
    ∃ out' w', Conversion.step policy w t = .ok (out', w') := by
  have hm := step_moves policy h.stacked ht
  generalize hr : Conversion.step policy w t = r at hm
  cases hm with
  | opens _ | closes _ _ _ _ | operator _ | operand _ _ => exact ⟨_, _, rfl⟩
  | unmatched hp hw =>
    have hzero := lefts_eq_zero_iff.mpr hw
    have hle := h.lefts
    exact absurd ⟨_, .unmatched hp (by omega)⟩ hb
  | refused hp hpol => exact absurd ⟨_, .unparseable hp hpol⟩ hb

/-- A conversion that nothing stops accounts for all tokens. -/
theorem run_unblocked {policy : Policy} {ts : List Token} (hk : Known ts) (h : Unblocked policy ts) :
    ∃ out w, run policy [] ts = ⟨out, .ok w⟩ ∧ Accounts ts out.tokens w := by
  induction ts using List.reverseRecOn with
  | nil => exact ⟨{}, [], rfl, accounts_nil⟩
  | append_singleton ts t ih =>
    obtain ⟨hts, ht⟩ := nowhere_append_singleton.mp h
    obtain ⟨hkts, hkt⟩ := known_append.mp hk
    obtain ⟨out, w, hrun, hacc⟩ := ih hkts hts
    have hkt' := hkt t List.mem_cons_self
    obtain ⟨out', w', hs⟩ := hacc.step_unblocked hkt' ht
    refine ⟨out ++ out', w', ?_, hacc.step hkt' hs⟩
    rw [run_append hrun, run_singleton hs]

/-- The first token that stops a conversion ends it with its failure. -/
theorem convert_blocked {policy : Policy} {xs : List Token} {t : Token} {f : Failure} (hk : Known xs)
    (h : Unblocked policy xs) (hb : Blocks policy xs t f) (ys : List Token) :
    convert policy (xs ++ t :: ys) = .error (.failure f) := by
  obtain ⟨out, w, hrun, hacc⟩ := run_unblocked hk h
  rw [convert_eq_convertFrom, convertFrom_append hrun, convertFrom, run_cons_error (hacc.step_blocked hb)]
  rfl

/-- What nothing stops is converted if as many left as right parentheses are there; the operands and the operators of
the output are as many as those of the tokens. -/
theorem convert_unblocked {policy : Policy} {ts : List Token} (hk : Known ts) (h : Unblocked policy ts)
    (hb : lefts ts = rights ts) :
    ∃ rpn, convert policy ts = .ok rpn ∧ (∀ t ∈ rpn.tokens, Plain t) ∧ operands rpn.tokens = operands ts ∧
      operators rpn.tokens = operators ts := by
  obtain ⟨out, w, hrun, hacc⟩ := run_unblocked hk h
  have hnone := lefts_eq_zero_iff.mp (show InfixCalculator.lefts w = 0 by have := hacc.lefts; omega)
  refine ⟨out ++ ⟨w, []⟩, convert_of_run hrun hnone, ?_, ?_, ?_⟩
  · rw [Postfix.tokens_append]
    exact List.forall_mem_append.mpr ⟨hacc.plain, hacc.stacked.plain hnone⟩
  · rw [Postfix.tokens_append, operands_append, operands_eq_zero hacc.stacked, hacc.operands, Nat.add_zero]
  · rw [Postfix.tokens_append, operators_append, hacc.operators]

end Conversion

end InfixCalculator
