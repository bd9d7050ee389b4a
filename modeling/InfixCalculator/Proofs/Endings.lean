import InfixCalculator.Proofs.Depth
import InfixCalculator.Proofs.Stages

/-!
# How a calculation ends

- `Obstacle policy e p f`: what stands at `p` in the expression can stop a calculation with the failure `f`, and
  `FirstObstacle` is the one furthest to the left;
- `Vacant e`: the expression has neither operands nor operators;
- `FirstUnderflow rpn operator available`: an operator is the first of the sequence that finds fewer than two values;
- `Ends policy allowPartial e r`: these decide, one after the other, how the calculation of `e` ends, and
  `calculation_ends` says that it ends so.
-/

namespace InfixCalculator

/-! ## Obstacles in the text -/

/-- At the position stands a right parenthesis up to which there are more right than left ones. -/
def UnmatchedAt (e : String) (p : Nat) : Prop :=
  e.toList[p]? = some ')' ∧ (e.toList.take (p + 1)).count '(' < (e.toList.take (p + 1)).count ')'

/-- What stands at a position can stop a calculation: a right parenthesis without a partner, or a word without a value
under the policy to refuse it. -/
inductive Obstacle (policy : Policy) (e : String) : Nat → Failure → Prop
  | unmatched {p : Nat} (h : UnmatchedAt e p) : Obstacle policy e p (.unmatched .right (some p))
  | unparseable {p : Nat} {t : Token} (hp : policy = .raise) (ht : t ∈ tokenize e) (h : t.isTerm = true)
      (hpos : t.position = some p) : Obstacle policy e p (.unparseable t.text (some p))

/-- The failure of the obstacle that comes first. -/
def FirstObstacle (policy : Policy) (e : String) (f : Failure) : Prop :=
  ∃ p, Obstacle policy e p f ∧ ∀ q g, Obstacle policy e q g → p ≤ q

theorem unmatchedAt_append {e : String} {a b : List Char} (he : e.toList = a ++ ')' :: b) :
    UnmatchedAt e a.length ↔ a.count '(' ≤ a.count ')' := by
  have htake : (a ++ ')' :: b).take (a.length + 1) = a ++ [')'] := by
    rw [List.take_append, List.take_of_length_le (Nat.le_succ _)]
    simp
  have hleft : (a ++ [')']).count '(' = a.count '(' := by simp
  have hright : (a ++ [')']).count ')' = a.count ')' + 1 := by simp
  rw [UnmatchedAt, he, htake, hleft, hright, Nat.lt_succ_iff]
  exact and_iff_right (by simp)

/-- What stops a conversion of the tokens is an obstacle in the text. -/
theorem obstacle_iff {policy : Policy} {e : String} {p : Nat} {f : Failure} :
    Obstacle policy e p f ↔
      ∃ xs t ys, tokenize e = xs ++ t :: ys ∧ Conversion.Blocks policy xs t f ∧ t.position = some p := by
  constructor
  · intro h
    cases h with
    | unmatched h =>
      obtain ⟨hp, hlt⟩ := List.getElem?_eq_some_iff.mp h.1
      obtain ⟨a, b, he, rfl⟩ : ∃ a b, e.toList = a ++ ')' :: b ∧ a.length = p :=
        ⟨e.toList.take p, e.toList.drop (p + 1), by rw [← hlt, List.getElem_cons_drop, List.take_append_drop],
          by simp; omega⟩
      have hscan := scan_append_delimiter (c := ')') (by decide) 0 [] a b
      rw [← he, delimiterTokens_rightParen, List.append_assoc, List.singleton_append, Nat.zero_add] at hscan
      refine ⟨_, _, _, hscan, ?_, rfl⟩
      refine .unmatched rfl ?_
      rw [lefts_scan, rights_scan]
      exact (unmatchedAt_append he).mp h
    | @unparseable t hp ht h hpos =>
      obtain ⟨xs, ys, hsplit⟩ := List.append_of_mem ht
      exact ⟨xs, t, ys, hsplit, hpos ▸ .unparseable h hp, hpos⟩
  · rintro ⟨xs, t, ys, hsplit, hb, hpos⟩
    cases hb with
    | unmatched ht hle =>
      obtain ⟨a, b, he, rfl, hp⟩ := tokenize_eq_append_rightParen hsplit ht
      obtain rfl := Option.some.inj (hpos.symm.trans hp)
      rw [lefts_scan, rights_scan] at hle
      exact hpos ▸ .unmatched ((unmatchedAt_append he).mpr hle)
    | unparseable ht hp => exact hpos ▸ .unparseable hp (by simp [hsplit]) ht hpos

/-- The first obstacle is what stops a conversion that nothing has stopped before. -/
theorem firstObstacle_iff {policy : Policy} {e : String} {f : Failure} :
    FirstObstacle policy e f ↔
      ∃ xs t ys, tokenize e = xs ++ t :: ys ∧ Conversion.Unblocked policy xs ∧ Conversion.Blocks policy xs t f := by
  constructor
  · rintro ⟨p, hp, hfirst⟩
    obtain ⟨xs, t, ys, hsplit, hb, hpos⟩ := obstacle_iff.mp hp
    refine ⟨xs, t, ys, hsplit, ?_, hb⟩
    rintro xs' t' zs rfl ⟨g, hg⟩
    rw [List.append_assoc, List.cons_append] at hsplit
    obtain ⟨q, hq, -⟩ := position_of_mem_scan (Nat.le_refl 0) (show t' ∈ tokenize e by simp [hsplit])
    have hle := hfirst q g (obstacle_iff.mpr ⟨xs', t', _, hsplit, hg, hq⟩)
    have hlt : t'.position < t.position := position_lt_of_tokenize_eq hsplit (by simp)
    rw [hq, hpos] at hlt
    exact absurd hle (Nat.not_le.mpr hlt)
  · rintro ⟨xs, t, ys, hsplit, hx, hb⟩
    obtain ⟨p, hp, -⟩ := position_of_mem_scan (Nat.le_refl 0) (show t ∈ tokenize e by simp [hsplit])
    refine ⟨p, obstacle_iff.mpr ⟨xs, t, ys, hsplit, hb, hp⟩, fun q g hq => ?_⟩
    obtain ⟨xs', t', ys', hsplit', hb', hp'⟩ := obstacle_iff.mp hq
    rcases append_cons_cases (hsplit.symm.trans hsplit') with ⟨-, rfl, -⟩ | ⟨zs, -, rfl⟩ | ⟨zs, rfl, -⟩
    · exact Nat.le_of_eq (Option.some.inj (hp.symm.trans hp'))
    · have hlt : t.position < t'.position := position_lt_of_tokenize_eq hsplit (by simp)
      rw [hp, hp'] at hlt
      exact Nat.le_of_lt hlt
    · exact absurd ⟨g, hb'⟩ (hx xs' t' zs rfl)

/-! ## Nothing to evaluate -/

/-- The expression consists of spaces and parentheses. -/
def Vacant (e : String) : Prop :=
  ∀ c ∈ e.toList, c = ' ' ∨ c = '(' ∨ c = ')'

theorem isParen_runTokens {p : Nat} {run : List Char} :
    (∀ t ∈ runTokens p run, t.isParen = true) ↔ run = [] := by
  cases run with
  | nil => simp [runTokens]
  | cons c rest =>
    have hnot : ∀ word q, (classify word q).isParen = false := fun word q => by
      simp [Token.isParen, classify_not_paren word q]
    simp [runTokens, hnot]

/-- A delimiter that is neither a space nor a parenthesis is an operator. -/
theorem isParen_delimiterTokens {c : Char} {p : Nat} :
    (∀ t ∈ delimiterTokens p c, t.isParen = true) ↔ c = ' ' ∨ c = '(' ∨ c = ')' := by
  unfold delimiterTokens
  split
  · simp_all
  · split
    · simp_all [Token.isParen, Token.isLeftParen]
    · split <;> simp_all [Token.isParen, Token.isLeftParen, Token.isRightParen]

theorem isParen_scan {p : Nat} {run cs : List Char} :
    (∀ t ∈ scan p run cs, t.isParen = true) ↔ run = [] ∧ ∀ c ∈ cs, c = ' ' ∨ c = '(' ∨ c = ')' := by
  induction cs generalizing p run with
  | nil => simpa [scan] using isParen_runTokens
  | cons c cs ih =>
    by_cases hc : isDelimiter c = true
    · rw [scan_cons_delimiter hc, List.forall_mem_append, List.forall_mem_append, isParen_runTokens,
        isParen_delimiterTokens, ih, List.forall_mem_cons, and_assoc, and_iff_right rfl]
    · rw [scan_cons_other (by simpa using hc), ih]
      constructor
      · rintro ⟨h, -⟩
        cases h
      · rintro ⟨-, h⟩
        rcases h c List.mem_cons_self with rfl | rfl | rfl <;> exact absurd (by decide) hc

/-- An expression is vacant when there is neither an operand nor an operator among its tokens. -/
theorem vacant_iff {e : String} : Vacant e ↔ operands (tokenize e) = 0 ∧ operators (tokenize e) = 0 := by
  have hscan : (∀ t ∈ tokenize e, t.isParen = true) ↔ _ := isParen_scan
  rw [and_iff_right rfl] at hscan
  rw [Vacant, ← hscan, operands, operators, List.countP_eq_zero, List.countP_eq_zero, ← forall_and]
  refine forall_congr' fun t => ?_
  rw [← imp_and, Token.isParen_iff]

/-! ## The ways to end -/

/-- As many left as right parentheses are there, and nothing stops the conversion. -/
def Unobstructed (policy : Policy) (e : String) : Prop :=
  e.toList.count '(' = e.toList.count ')' ∧ ∀ f, ¬FirstObstacle policy e f

/-- In the reverse Polish sequence of the expression, an operator is the first that finds fewer than two values. The
values are the operands before it, less one for each operator before it. -/
def FirstUnderflow (policy : Policy) (e : String) (operator : String) (available : Nat) : Prop :=
  ∃ rpn xs t ys, Conversion.convert policy (tokenize e) = .ok rpn ∧ rpn.tokens = xs ++ t :: ys ∧
    Evaluation.Supplied xs ∧ Evaluation.Lacking xs t ∧ t.text = operator ∧ operands xs = operators xs + available

/-- How a calculation ends; each way is for the expressions that are left over by those before it. -/
inductive Ends (policy : Policy) (allowPartial : Bool) (e : String) : Except Fault Unit → Prop
  | imbalanced (h : e.toList.count '(' ≠ e.toList.count ')') :
      Ends policy allowPartial e (.error (.failure .imbalanced))
  | stopped {f : Failure} (hb : e.toList.count '(' = e.toList.count ')') (h : FirstObstacle policy e f) :
      Ends policy allowPartial e (.error (.failure f))
  | empty (hu : Unobstructed policy e) (h : Vacant e) :
      Ends policy allowPartial e (.error (.failure .empty))
  | underflow {operator : String} {available : Nat} (hu : Unobstructed policy e) (hv : ¬Vacant e)
      (h : FirstUnderflow policy e operator available) :
      Ends policy allowPartial e (.error (.failure (.underflow operator available)))
  | malformed {n : Nat} (hu : Unobstructed policy e) (hv : ¬Vacant e)
      (hs : ∀ operator available, ¬FirstUnderflow policy e operator available) (ha : allowPartial = false)
      (hn : operands (tokenize e) = operators (tokenize e) + n) (h : 2 ≤ n) :
      Ends policy allowPartial e (.error (.failure (.malformed n)))
  | value (hu : Unobstructed policy e) (hv : ¬Vacant e)
      (hs : ∀ operator available, ¬FirstUnderflow policy e operator available)
      (h : allowPartial = true ∨ operands (tokenize e) < operators (tokenize e) + 2) :
      Ends policy allowPartial e (.ok ())

section

variable {policy : Policy} {allowPartial : Bool} {e : String}

/-- How the calculation ends. -/
def Calculation.ending (policy : Policy) (allowPartial : Bool) (e : String) : Except Fault Unit :=
  (ofExpression ⟨.ok policy, allowPartial⟩ e).map fun _ => ()

theorem isBalanced_iff_count : isBalanced e = true ↔ e.toList.count '(' = e.toList.count ')' := by
  rw [isBalanced, beq_iff_eq]

/-- The first obstacle ends the calculation of a balanced expression. -/
theorem ending_of_firstObstacle {f : Failure} (hb : e.toList.count '(' = e.toList.count ')')
    (h : FirstObstacle policy e f) : Calculation.ending policy allowPartial e = .error (.failure f) := by
  obtain ⟨xs, t, ys, hsplit, hx, hblocks⟩ := firstObstacle_iff.mp h
  have hk : Known xs := (known_append.mp (hsplit ▸ known_tokenize e)).1
  have hconv := Conversion.convert_blocked hk hx hblocks ys
  rw [Calculation.ending, Calculation.ofExpression_balanced (isBalanced_iff_count.mpr hb) rfl, hsplit, hconv]
  rfl

/-- Without an obstacle the conversion keeps all operands and operators, and the evaluation decides. -/
theorem ending_of_unobstructed (h : Unobstructed policy e) :
    ∃ rpn, Conversion.convert policy (tokenize e) = .ok rpn ∧ (∀ t ∈ rpn.tokens, Conversion.Plain t) ∧
      operands rpn.tokens = operands (tokenize e) ∧ operators rpn.tokens = operators (tokenize e) ∧
      ∀ allowPartial, Calculation.ending policy allowPartial e =
        (Evaluation.evaluate allowPartial rpn.tokens).map fun _ => () := by
  have hb := isBalanced_iff_count.mpr h.1
  have hx : Conversion.Unblocked policy (tokenize e) := by
    rcases nowhere_or_first (fun xs t => ∃ f, Conversion.Blocks policy xs t f) (tokenize e) with
      hx | ⟨xs, t, ys, hsplit, hx, f, hf⟩
    · exact hx
    · exact absurd (firstObstacle_iff.mpr ⟨xs, t, ys, hsplit, hx, hf⟩) (h.2 f)
  obtain ⟨rpn, hconv, hrest⟩ := Conversion.convert_unblocked (known_tokenize e) hx (isBalanced_iff.mp hb)
  refine ⟨rpn, hconv, hrest.1, hrest.2.1, hrest.2.2, fun allowPartial => ?_⟩
  rw [Calculation.ending, Calculation.ofExpression_balanced hb rfl, hconv]
  show ((Evaluation.evaluate _ _).map _).map _ = _
  cases Evaluation.evaluate allowPartial rpn.tokens <;> rfl

/-- No operator is the first that finds too few values when all find theirs. -/
theorem forall_not_firstUnderflow_iff {rpn : Postfix} (hc : Conversion.convert policy (tokenize e) = .ok rpn)
    (hp : ∀ t ∈ rpn.tokens, Conversion.Plain t) :
    (∀ operator available, ¬FirstUnderflow policy e operator available) ↔ Evaluation.Supplied rpn.tokens := by
  constructor
  · intro h
    rcases nowhere_or_first Evaluation.Lacking rpn.tokens with hs | ⟨xs, t, ys, hsplit, hx, ht⟩
    · exact hs
    · rw [hsplit, List.forall_mem_append] at hp
      obtain ⟨stack, -, hlen⟩ := Evaluation.run_supplied hp.1 hx
      exact absurd ⟨rpn, xs, t, ys, hc, hsplit, hx, ht, rfl, hlen.symm⟩ (h t.text stack.length)
  · rintro h operator available ⟨rpn', xs, t, ys, hc', hsplit, -, ht, -⟩
    obtain rfl := Except.ok.inj (hc.symm.trans hc')
    exact h xs t ys hsplit ht

/-- Without an obstacle, and with its values for every operator, all operands beyond the operators but one are left
over. -/
theorem ending_of_supplied (hu : Unobstructed policy e) (hv : ¬Vacant e)
    (hs : ∀ operator available, ¬FirstUnderflow policy e operator available) :
    ∃ n, operands (tokenize e) = operators (tokenize e) + (n + 1) ∧
      ∀ allowPartial, Calculation.ending policy allowPartial e =
        if n = 0 ∨ allowPartial = true then .ok () else .error (.failure (.malformed (n + 1))) := by
  obtain ⟨rpn, hc, hp, ho, hr, hend⟩ := ending_of_unobstructed hu
  have hne : rpn.tokens ≠ [] := fun hnil => hv (vacant_iff.mpr (by rw [← ho, ← hr, hnil]; exact ⟨rfl, rfl⟩))
  obtain ⟨n, x, hn, heval⟩ := Evaluation.evaluate_supplied hp ((forall_not_firstUnderflow_iff hc hp).mp hs) hne
  refine ⟨n, by rw [← ho, ← hr, hn], fun allowPartial => ?_⟩
  rw [hend, heval]
  split <;> rfl

/-- A calculation ends as it is decided. -/
theorem Ends.eq_ending {r : Except Fault Unit} (h : Ends policy allowPartial e r) :
    r = Calculation.ending policy allowPartial e := by
  cases h with
  | imbalanced h =>
    have hb : isBalanced e = false := by simpa [isBalanced] using h
    rw [Calculation.ending, Calculation.ofExpression_imbalanced hb]
    rfl
  | stopped hb h => exact (ending_of_firstObstacle hb h).symm
  | empty hu h =>
    obtain ⟨rpn, -, hp, ho, hr, hend⟩ := ending_of_unobstructed hu
    obtain ⟨ho', hr'⟩ := vacant_iff.mp h
    rw [hend, Conversion.eq_nil_of_plain hp (ho.trans ho') (hr.trans hr')]
    rfl
  | underflow hu hv h =>
    obtain ⟨rpn, hc, hp, -, -, hend⟩ := ending_of_unobstructed hu
    obtain ⟨rpn', xs, t, ys, hc', hsplit, hx, ht, rfl, hn⟩ := h
    obtain rfl := Except.ok.inj (hc.symm.trans hc')
    rw [hsplit, List.forall_mem_append] at hp
    have hrun := Evaluation.run_lacking hp.1 hx ht ys
    rw [hn, Nat.add_sub_cancel_left] at hrun
    rw [hend, hsplit, Evaluation.evaluate, hrun]
    rfl
  | @malformed n hu hv hs ha hn h2 =>
    obtain ⟨m, hm, hend⟩ := ending_of_supplied hu hv hs
    obtain rfl : n = m + 1 := by omega
    rw [hend, if_neg (by rintro (rfl | h') <;> simp_all)]
  | value hu hv hs h =>
    obtain ⟨m, hm, hend⟩ := ending_of_supplied hu hv hs
    rw [hend, if_pos (h.symm.imp (fun h' => by omega) id)]

/-- Every calculation ends in one of the ways. -/
theorem exists_ends (policy : Policy) (allowPartial : Bool) (e : String) : ∃ r, Ends policy allowPartial e r := by
  by_cases hb : e.toList.count '(' = e.toList.count ')'
  · by_cases hf : ∃ f, FirstObstacle policy e f
    · obtain ⟨f, hf⟩ := hf
      exact ⟨_, .stopped hb hf⟩
    · have hu : Unobstructed policy e := ⟨hb, not_exists.mp hf⟩
      by_cases hv : Vacant e
      · exact ⟨_, .empty hu hv⟩
      · by_cases hs : ∃ operator available, FirstUnderflow policy e operator available
        · obtain ⟨operator, available, hs⟩ := hs
          exact ⟨_, .underflow hu hv hs⟩
        · have hs' : ∀ operator available, ¬FirstUnderflow policy e operator available :=
            fun operator available h => hs ⟨operator, available, h⟩
          by_cases h : allowPartial = true ∨ operands (tokenize e) < operators (tokenize e) + 2
          · exact ⟨_, .value hu hv hs' h⟩
          · have ha : allowPartial = false := by simpa using fun ha => h (Or.inl ha)
            have hle : operators (tokenize e) + 2 ≤ operands (tokenize e) := Nat.not_lt.mp fun hlt => h (Or.inr hlt)
            exact ⟨_, .malformed hu hv hs' ha (Nat.add_sub_cancel' (by omega)).symm (by omega)⟩
  · exact ⟨_, .imbalanced hb⟩

/-- Under a policy a calculation fails for its expression only. -/
theorem exists_failure {fault : Fault} (h : Calculation.ofExpression ⟨.ok policy, allowPartial⟩ e = .error fault) :
    ∃ f, fault = .failure f := by
  obtain ⟨r, hr⟩ := exists_ends policy allowPartial e
  have hend := hr.eq_ending
  rw [Calculation.ending, h] at hend
  subst hend
  cases hr <;> exact ⟨_, rfl⟩

/-- An expression with a result has more operands than operators. -/
theorem operators_lt_operands_of_value (h : Ends policy allowPartial e (.ok ())) :
    operators (tokenize e) < operands (tokenize e) := by
  cases h with
  | value hu hv hs h =>
    obtain ⟨n, hn, -⟩ := ending_of_supplied hu hv hs
    omega

end

/-- A calculation ends in exactly one of the ways, and as the first that applies says. With a result the expression has
more operands than operators, and the message of a right parenthesis without a partner gives its position. -/
theorem calculation_ends (policy : Policy) (allowPartial : Bool) (e : String) :
    (∀ r, Ends policy allowPartial e r ↔
        (Calculation.ofExpression ⟨.ok policy, allowPartial⟩ e).map (fun _ => ()) = r) ∧
      (∀ c, Calculation.ofExpression ⟨.ok policy, allowPartial⟩ e = .ok c →
        operators (tokenize e) < operands (tokenize e)) ∧
      ∀ p, (Failure.unmatched .right (some p)).message = "Unmatched ')' at position " ++ Number.wholeText p := by
  have hends : ∀ r, Ends policy allowPartial e r ↔ Calculation.ending policy allowPartial e = r := by
    intro r
    constructor
    · intro h
      exact h.eq_ending.symm
    · rintro rfl
      obtain ⟨r, hr⟩ := exists_ends policy allowPartial e
      exact hr.eq_ending ▸ hr
  refine ⟨hends, fun c hc => ?_, fun p => ?_⟩
  · refine operators_lt_operands_of_value ((hends _).mpr ?_)
    rw [Calculation.ending, hc]
    rfl
  · have hprefix : "Unmatched '" ++ Paren.right.symbol ++ "' at position " = "Unmatched ')' at position " := by
      simp [Paren.symbol]
    exact congrArg (· ++ Number.wholeText p) hprefix

end InfixCalculator
