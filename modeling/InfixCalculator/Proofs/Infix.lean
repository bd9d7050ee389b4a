import InfixCalculator.Proofs.Refusals
import InfixCalculator.Proofs.Grammar
import InfixCalculator.Proofs.Strictness

/-!
# Which tokens are infix expressions

- `Infix ts`: the tokens are a value, a group, or two infix expressions around an operator; `infix_iff_derives`: the
  levels of the operators leave no such tokens out;
- `clashes`, `gaps`: the places where a value or a group follows another one directly, and those where one is missing;
- `infix_iff`: well-nested tokens without clashes and gaps are an infix expression;
- `balance`: the operands are one more than the operators when there are as many clashes as gaps;
- `Calculation.ofExpression_strict_infix`: the calculation of an expression that may leave one value only does not
  reject clashes and gaps as such, but it does where they are not equally many.
-/

namespace InfixCalculator

/-- The tokens are a value, a group in parentheses, or an operator between two expressions. -/
inductive Infix : List Token → Prop
  | operand {t : Token} (h : t.isOperand = true) (hv : t.isTerm = false) : Infix [t]
  | group {l r : Token} {ts : List Token} (hl : l.isLeftParen = true) (hr : r.isRightParen = true) (h : Infix ts) :
      Infix (l :: ts ++ [r])
  | operation {op : Operator} {mark : Token} {ls rs : List Token} (hm : mark.operator? = some op) (hl : Infix ls)
      (hr : Infix rs) : Infix (ls ++ mark :: rs)

variable {ts xs ys : List Token} {t : Token} {b : Bool} {k n : Nat}

/-! ## The levels of the operators -/

/-- An operand or a group is an expression of every level. -/
theorem Derives.at_level {e : Tree} (h : Derives 0 ts e) (k : Nat) : Derives k ts e := by
  induction k with
  | zero => exact h
  | succ k ih => exact .lift ih

/-- One more operation on the right of an expression goes in where its level belongs. -/
theorem Derives.extend {e p : Tree} {op : Operator} {mark : Token} (h : Derives k xs e)
    (hm : mark.operator? = some op) (hop : op.level ≤ k) (hp : Derives 0 ys p) :
    ∃ e', Derives k (xs ++ mark :: ys) e' := by
  have hpos : 0 < op.level := by cases op <;> decide
  induction h with
  | operand _ | group _ _ _ _ => omega
  | @lift k ts e h ih =>
    by_cases hlevel : op.level = k + 1
    · exact ⟨_, .node hm (mem_operatorsAt_iff.mpr hlevel) (.lift h) (hp.at_level k)⟩
    · obtain ⟨e', he'⟩ := ih (by omega)
      exact ⟨e', .lift he'⟩
  | @node k op' mark' ls rs l r hm' hop' hl hr _ ihr =>
    by_cases hlevel : op.level = k + 1
    · exact ⟨_, .node hm (mem_operatorsAt_iff.mpr hlevel) (.node hm' hop' hl hr) (hp.at_level k)⟩
    · obtain ⟨e', he'⟩ := ihr (by omega)
      rw [List.append_assoc, List.cons_append]
      exact ⟨_, .node hm' hop' hl he'⟩

theorem level_le (op : Operator) : op.level ≤ 4 := by
  cases op <;> decide

/-- What may follow an operator extends whatever stands before it. -/
theorem Infix.exists_derives (h : Infix ts) : ∃ e, Derives 4 ts e := by
  -- the induction needs to know that expressions of the lowest level can be extended by the tokens
  suffices hext : (∃ e, Derives 4 ts e) ∧ ∀ {xs mark op e}, mark.operator? = some op → Derives 4 xs e →
      ∃ e', Derives 4 (xs ++ mark :: ts) e' from hext.1
  have hprimary : ∀ {ts e}, Derives 0 ts e → (∃ e, Derives 4 ts e) ∧ ∀ {xs mark op e},
      mark.operator? = some op → Derives 4 xs e → ∃ e', Derives 4 (xs ++ mark :: ts) e' := fun h =>
    ⟨⟨_, h.at_level 4⟩, fun hm hx => hx.extend hm (level_le _) h⟩
  induction h with
  | operand h _ => exact hprimary (.operand h)
  | group hl hr _ ih =>
    obtain ⟨e, he⟩ := ih.1
    exact hprimary (.group hl hr he)
  | @operation op mark ls rs hm _ _ ihl ihr =>
    obtain ⟨e, he⟩ := ihl.1
    refine ⟨ihr.2 hm he, fun {xs mark' op' e'} hm' hx => ?_⟩
    obtain ⟨e₁, he₁⟩ := ihl.2 hm' hx
    obtain ⟨e₂, he₂⟩ := ihr.2 hm he₁
    rw [List.append_assoc, List.cons_append] at he₂
    exact ⟨e₂, he₂⟩

theorem Derives.infix {e : Tree} (h : Derives k ts e) (hv : ∀ t ∈ ts, t.isTerm = false) : Infix ts := by
  induction h with
  | operand h => exact .operand h (hv _ (by simp))
  | group hl hr _ ih => exact .group hl hr (ih fun t ht => hv t (by simp [ht]))
  | lift _ ih => exact ih hv
  | node hm _ _ _ ihl ihr =>
    exact .operation hm (ihl fun t ht => hv t (by simp [ht])) (ihr fun t ht => hv t (by simp [ht]))

theorem Infix.isTerm (h : Infix ts) : ∀ t ∈ ts, t.isTerm = false := by
  have hother : ∀ {t : Token}, t.isOperand = false → t.isTerm = false := by
    intro t h
    cases hk : t.kind <;> simp_all [Token.isOperand, Token.isTerm]
  induction h with
  | operand _ hv => exact List.forall_mem_singleton.mpr hv
  | group hl hr _ ih =>
    simp only [List.forall_mem_append, List.forall_mem_cons, List.not_mem_nil, false_implies, implies_true, and_true]
    exact ⟨⟨hother (Token.of_isLeftParen hl).1, ih⟩, hother (Token.of_isRightParen hr).1⟩
  | operation hm _ _ ihl ihr =>
    have ho := Token.of_isOperator (Token.isOperator_of_operator? hm)
    exact List.forall_mem_append.mpr ⟨ihl, List.forall_mem_cons.mpr ⟨hother ho.1, ihr⟩⟩

/-- The grammar without levels derives the same tokens as that with levels, of those that have values. -/
theorem infix_iff_derives : Infix ts ↔ (∀ t ∈ ts, t.isTerm = false) ∧ ∃ e, Derives 4 ts e :=
  ⟨fun h => ⟨h.isTerm, h.exists_derives⟩, fun ⟨hv, _, h⟩ => h.infix hv⟩

/-! ## Clashes and gaps -/

/-- A value or a group begins with the token. -/
def Token.begins (t : Token) : Bool :=
  t.isOperand || t.isLeftParen

/-- A value or a group ends with the token. -/
def Token.completes (t : Token) : Bool :=
  t.isOperand || t.isRightParen

namespace Token

theorem begins_operand {t : Token} (h : t.isOperand = true) : t.begins = true ∧ t.completes = true := by
  simp [begins, completes, h]

theorem begins_operator {t : Token} (h : t.isOperator = true) : t.begins = false ∧ t.completes = false := by
  simp [begins, completes, of_isOperator h]

theorem begins_leftParen {t : Token} (h : t.isLeftParen = true) : t.begins = true ∧ t.completes = false := by
  simp [begins, completes, of_isLeftParen h, h]

theorem begins_rightParen {t : Token} (h : t.isRightParen = true) : t.begins = false ∧ t.completes = true := by
  simp [begins, completes, of_isRightParen h, h]

end Token

/-- The number of places where a value or a group begins just after another one has ended. -/
def clashes (filled : Bool) : List Token → Nat
  | [] => 0
  | t :: ts => (if filled && t.begins then 1 else 0) + clashes t.completes ts

/-- The number of places where a value or a group is wanted and none begins. -/
def gaps (filled : Bool) : List Token → Nat
  | [] => if filled then 0 else 1
  | t :: ts => (if !filled && !t.begins then 1 else 0) + gaps t.completes ts

/-- The operands and the gaps are one more than the operators and the clashes. -/
theorem balance (filled : Bool) (ts : List Token) :
    operands ts + gaps filled ts + (if filled then 1 else 0) = operators ts + clashes filled ts + 1 := by
  induction ts generalizing filled with
  | nil => cases filled <;> rfl
  | cons t ts ih =>
    have hrest := ih t.completes
    rcases t.sort_cases with hs | hs | hs | hs <;> cases filled <;>
      simp [gaps, clashes, Token.begins, Token.completes, hs] at hrest ⊢ <;> omega

/-- An operator or a right parenthesis parts the clashes. -/
theorem clashes_append_cons (ht : t.begins = false) :
    clashes b (xs ++ t :: ys) = clashes b xs + clashes t.completes ys := by
  induction xs generalizing b with
  | nil => simp [clashes, ht]
  | cons x xs ih => rw [List.cons_append, clashes, clashes, ih, Nat.add_assoc]

theorem gaps_append_cons (ht : t.begins = false) : gaps b (xs ++ t :: ys) = gaps b xs + gaps t.completes ys := by
  induction xs generalizing b with
  | nil => cases b <;> simp [gaps, ht]
  | cons x xs ih => rw [List.cons_append, gaps, gaps, ih, Nat.add_assoc]

/-- In an infix expression nothing clashes, and nothing is missing. -/
theorem Infix.clashes_gaps (h : Infix ts) : clashes false ts = 0 ∧ gaps false ts = 0 := by
  induction h with
  | operand h _ => simp [clashes, gaps, Token.begins_operand h]
  | @group l r ts hl hr _ ih =>
    have hr' := Token.begins_rightParen hr
    rw [List.cons_append, clashes, gaps, (Token.begins_leftParen hl).2, clashes_append_cons hr'.1,
      gaps_append_cons hr'.1, ih.1, ih.2, hr'.2]
    simp [clashes, gaps, Token.begins_leftParen hl]
  | operation hm _ _ ihl ihr =>
    have hm' := Token.begins_operator (Token.isOperator_of_operator? hm)
    rw [clashes_append_cons hm'.1, gaps_append_cons hm'.1, hm'.2, ihl.1, ihl.2, ihr.1, ihr.2]
    exact ⟨rfl, rfl⟩

/-! ## Groups that are closed -/

/-- The tokens close as many groups as are open before them, and all that they open. -/
inductive Closes : Nat → List Token → Prop
  | nil : Closes 0 []
  | opens {l : Token} {ts : List Token} {n : Nat} (hl : l.isLeftParen = true) (h : Closes (n + 1) ts) :
      Closes n (l :: ts)
  | closes {r : Token} {ts : List Token} {n : Nat} (hr : r.isRightParen = true) (h : Closes n ts) :
      Closes (n + 1) (r :: ts)
  | other {t : Token} {ts : List Token} {n : Nat} (ht : t.isParen = false) (h : Closes n ts) : Closes n (t :: ts)

/-- The right parenthesis that closes the group open behind `k` others parts the tokens. -/
theorem Closes.split (h : Closes (k + 1 + n) ts) :
    ∃ xs r ys, ts = xs ++ r :: ys ∧ r.isRightParen = true ∧ Closes k xs ∧ Closes n ys := by
  generalize hm : k + 1 + n = m at h
  induction h generalizing k with
  | nil => omega
  | @opens l ts m hl _ ih =>
    obtain ⟨xs, r, ys, rfl, hr, hx, hy⟩ := ih (show k + 1 + 1 + n = m + 1 by omega)
    exact ⟨l :: xs, r, ys, rfl, hr, .opens hl hx, hy⟩
  | @closes r ts m hr h ih =>
    cases k with
    | zero =>
      obtain rfl : n = m := by omega
      exact ⟨[], r, ts, rfl, hr, .nil, h⟩
    | succ k =>
      obtain ⟨xs, r', ys, rfl, hr', hx, hy⟩ := ih (show k + 1 + n = m by omega)
      exact ⟨r :: xs, r', ys, rfl, hr', .closes hr hx, hy⟩
  | @other t ts m ht _ ih =>
    obtain ⟨xs, r, ys, rfl, hr, hx, hy⟩ := ih hm
    exact ⟨t :: xs, r, ys, rfl, hr, .other ht hx, hy⟩

theorem Closes.append (hx : Closes k xs) (hy : Closes n ys) : Closes (k + n) (xs ++ ys) := by
  induction hx with
  | nil => rwa [Nat.zero_add]
  | opens hl _ ih => exact .opens hl (by rwa [Nat.add_right_comm] at ih)
  | closes hr _ ih =>
    rw [Nat.add_right_comm]
    exact .closes hr ih
  | other ht _ ih => exact .other ht ih

theorem Infix.closes (h : Infix ts) : Closes 0 ts := by
  induction h with
  | operand h _ => exact .other (by simp [Token.isParen, Token.of_isOperand h]) .nil
  | group hl hr _ ih => exact .opens hl (ih.append (.closes hr .nil))
  | operation hm _ _ ihl ihr =>
    have ho := Token.of_isOperator (Token.isOperator_of_operator? hm)
    exact ihl.append (.other (by simp [Token.isParen, ho]) ihr)

/-- What the first token says about the groups that are closed. -/
theorem closes_cons_iff : Closes k (t :: ts) ↔
    (t.isLeftParen = true ∧ Closes (k + 1) ts) ∨ (t.isRightParen = true ∧ ∃ j, k = j + 1 ∧ Closes j ts) ∨
      (t.isParen = false ∧ Closes k ts) := by
  constructor
  · rintro (_ | ⟨hl, h⟩ | ⟨hr, h⟩ | ⟨ht, h⟩)
    · exact Or.inl ⟨hl, h⟩
    · exact Or.inr (Or.inl ⟨hr, _, rfl, h⟩)
    · exact Or.inr (Or.inr ⟨ht, h⟩)
  · rintro (⟨hl, h⟩ | ⟨hr, j, rfl, h⟩ | ⟨ht, h⟩)
    · exact .opens hl h
    · exact .closes hr h
    · exact .other ht h

theorem depth_cons_succ (t : Token) (ts : List Token) (n : Nat) : depth (t :: ts) (n + 1) =
    depth ts n + (if t.isLeftParen = true then 1 else 0) - (if t.isRightParen = true then 1 else 0) := by
  simp only [depth, List.take_succ_cons, lefts_cons, rights_cons]
  split <;> split <;> omega

/-- What holds of the depths is what holds at first and after the first token. -/
theorem forall_depth_cons_iff {P : Int → Prop} :
    (∀ n, n ≤ (t :: ts).length → P (depth (t :: ts) n)) ↔
      P 0 ∧ ∀ n, n ≤ ts.length → P (depth (t :: ts) (n + 1)) := by
  constructor
  · intro h
    have hzero : P (depth (t :: ts) 0) := h 0 (Nat.zero_le _)
    rw [depth_zero] at hzero
    exact ⟨hzero, fun n hn => h (n + 1) (Nat.succ_le_succ hn)⟩
  · rintro ⟨hzero, hsucc⟩ n hn
    cases n with
    | zero => rwa [depth_zero]
    | succ n => exact hsucc n (Nat.le_of_succ_le_succ hn)

/-- The depths behind the first token are counted on from the groups that are open after it. -/
theorem depths_cons_iff {j : Nat} (hj : (j : Int) =
    k + (if t.isLeftParen = true then 1 else 0) - (if t.isRightParen = true then 1 else 0)) :
    ((∀ n, n ≤ (t :: ts).length → 0 ≤ (k : Int) + depth (t :: ts) n) ∧
        (k : Int) + depth (t :: ts) (t :: ts).length = 0) ↔
      (∀ n, n ≤ ts.length → 0 ≤ (j : Int) + depth ts n) ∧ (j : Int) + depth ts ts.length = 0 := by
  have hsucc : ∀ n, (k : Int) + depth (t :: ts) (n + 1) = j + depth ts n := by
    intro n
    rw [depth_cons_succ]
    omega
  rw [forall_depth_cons_iff (P := fun d => 0 ≤ (k : Int) + d), List.length_cons]
  simp only [hsucc]
  exact ⟨fun h => ⟨h.1.2, h.2⟩, fun h => ⟨⟨by omega, h.1⟩, h.2⟩⟩

/-- Tokens close the groups that are open when the depth below them is never negative, and zero in the end. -/
theorem closes_iff_depth :
    Closes k ts ↔ (∀ n, n ≤ ts.length → 0 ≤ k + depth ts n) ∧ k + depth ts ts.length = 0 := by
  induction ts generalizing k with
  | nil =>
    rw [List.length_nil, depth_zero]
    constructor
    · intro h
      cases h
      exact ⟨fun n hn => by rw [Nat.le_zero.mp hn, depth_zero]; omega, rfl⟩
    · intro h
      obtain rfl : k = 0 := by omega
      exact .nil
  | cons t ts ih =>
    rw [closes_cons_iff]
    by_cases hr : t.isRightParen = true
    · simp only [Token.of_isRightParen hr, Token.isParen, hr, Bool.or_true, Bool.false_eq_true, reduceCtorEq, true_and,
        false_and, false_or, or_false, ih]
      cases k with
      | zero =>
        -- the token would bring the depth below zero at once
        constructor
        · rintro ⟨j, hj, -⟩
          omega
        · intro h
          have hfirst := h.1 1 (by simp)
          rw [depth_cons_succ, depth_zero] at hfirst
          simp [Token.of_isRightParen hr, hr] at hfirst
      | succ j =>
        rw [depths_cons_iff (j := j) (by simp [Token.of_isRightParen hr, hr])]
        constructor
        · rintro ⟨i, hi, h⟩
          obtain rfl : j = i := by omega
          exact h
        · exact fun h => ⟨j, rfl, h⟩
    · by_cases hl : t.isLeftParen = true
      · simp only [hl, hr, Token.isParen, Bool.true_or, Bool.false_eq_true, reduceCtorEq, true_and, false_and,
          or_false, ih]
        exact (depths_cons_iff (by simp [hl, hr])).symm
      · simp only [hl, hr, Token.isParen, Bool.or_self, Bool.false_eq_true, true_and, false_and, false_or, ih]
        exact (depths_cons_iff (by simp [hl, hr])).symm

theorem wellNested_iff_closes : WellNested ts ↔ Closes 0 ts := by
  simp [closes_iff_depth, WellNested]

/-! ## Infix expressions by their places -/

/-- Known operators and values, all groups closed, and nothing that clashes or is missing; `filled` says that a value
or a group has ended just before. -/
structure Seamless (filled : Bool) (ts : List Token) : Prop where
  known : Known ts
  valued : ∀ t ∈ ts, t.isTerm = false
  closes : Closes 0 ts
  clashes : clashes filled ts = 0
  gaps : gaps filled ts = 0

/-- Behind an operand, tokens go on without a seam. -/
theorem Seamless.operand (h : Seamless false (t :: ts)) (ht : t.isOperand = true) : Seamless true ts := by
  obtain ⟨hk, hv, hc, hclash, hgap⟩ := h
  rw [closes_cons_iff] at hc
  simp only [Token.of_isOperand ht, Bool.false_eq_true, false_and, false_or] at hc
  rw [InfixCalculator.clashes, (Token.begins_operand ht).2, Nat.add_eq_zero_iff] at hclash
  rw [InfixCalculator.gaps, (Token.begins_operand ht).2, Nat.add_eq_zero_iff] at hgap
  exact ⟨hk.tail, fun s hs => hv s (List.mem_cons_of_mem _ hs), hc.2, hclash.2, hgap.2⟩

/-- A group holds tokens without a seam, and others go on behind it. -/
theorem Seamless.group (h : Seamless false (t :: ts)) (ht : t.isLeftParen = true) :
    ∃ mid r post, ts = mid ++ r :: post ∧ r.isRightParen = true ∧ Seamless false mid ∧ Seamless true post := by
  obtain ⟨hk, hv, hc, hclash, hgap⟩ := h
  rw [closes_cons_iff] at hc
  simp only [ht, Token.of_isLeftParen ht, Token.isParen, Bool.true_or, Bool.false_eq_true, reduceCtorEq, true_and,
    false_and, or_false] at hc
  obtain ⟨mid, r, post, rfl, hr, hmid, hpost⟩ := Closes.split (k := 0) (n := 0) hc
  have hr' := Token.begins_rightParen hr
  rw [InfixCalculator.clashes, (Token.begins_leftParen ht).2, clashes_append_cons hr'.1, hr'.2, Nat.add_eq_zero_iff,
    Nat.add_eq_zero_iff] at hclash
  rw [InfixCalculator.gaps, (Token.begins_leftParen ht).2, gaps_append_cons hr'.1, hr'.2, Nat.add_eq_zero_iff,
    Nat.add_eq_zero_iff] at hgap
  obtain ⟨hkmid, hkpost⟩ := known_append.mp hk.tail
  exact ⟨mid, r, post, rfl, hr, ⟨hkmid, fun s hs => hv s (by simp [hs]), hmid, hclash.2.1, hgap.2.1⟩,
    ⟨hkpost.tail, fun s hs => hv s (by simp [hs]), hpost, hclash.2.2, hgap.2.2⟩⟩

/-- Behind a value or a group only an operator can follow. -/
theorem Seamless.operator (h : Seamless true (t :: ts)) : (∃ op, t.operator? = some op) ∧ Seamless false ts := by
  obtain ⟨hk, hv, hc, hclash, hgap⟩ := h
  rw [closes_cons_iff] at hc
  rw [InfixCalculator.clashes, Nat.add_eq_zero_iff] at hclash
  rw [InfixCalculator.gaps, Nat.add_eq_zero_iff] at hgap
  rcases t.sort_cases with hs | hs | hs | hs
  · simp [Token.begins_operand hs.1] at hclash
  · simp only [hs, Token.isParen, Bool.or_self, Bool.false_eq_true, false_and, false_or, true_and] at hc
    rw [(Token.begins_operator hs.2.1).2] at hclash hgap
    exact ⟨hk t List.mem_cons_self hs.2.1, hk.tail, fun s hs => hv s (List.mem_cons_of_mem _ hs), hc, hclash.2, hgap.2⟩
  · simp [Token.begins_leftParen hs.2.2.1] at hclash
  · simp [hs, Token.isParen] at hc

theorem Seamless.infix (h : Seamless false ts) : Infix ts := by
  induction hn : ts.length using Nat.strongRecOn generalizing ts with
  | ind n ih =>
    -- what goes on behind a value or a group joins an expression to it
    have hjoin : ∀ {xs ys}, Infix xs → Seamless true ys → ys.length < n → Infix (xs ++ ys) := by
      intro xs ys hx hy hlen
      cases ys with
      | nil => rwa [List.append_nil]
      | cons mark ys =>
        obtain ⟨⟨op, hm⟩, hrest⟩ := hy.operator
        rw [List.length_cons] at hlen
        exact .operation hm hx (ih ys.length (by omega) hrest rfl)
    cases ts with
    | nil => exact absurd h.gaps (by simp [InfixCalculator.gaps])
    | cons t ts =>
      rw [List.length_cons] at hn
      rcases t.sort_cases with hs | hs | hs | hs
      · exact hjoin (.operand hs.1 (h.valued t List.mem_cons_self)) (h.operand hs.1) (by omega)
      · exact absurd h.gaps (by simp [InfixCalculator.gaps, Token.begins, hs])
      · obtain ⟨mid, r, post, rfl, hr, hmid, hpost⟩ := h.group hs.2.2.1
        rw [List.length_append, List.length_cons] at hn
        have hgroup := Infix.group hs.2.2.1 hr (ih mid.length (by omega) hmid rfl)
        have hwhole := hjoin hgroup hpost (by omega)
        rwa [List.append_assoc, List.singleton_append, List.cons_append] at hwhole
      · exact absurd h.gaps (by simp [InfixCalculator.gaps, Token.begins, hs])

/-- Tokens are an infix expression when they are well nested, all words have values, and nothing clashes or is
missing. -/
theorem infix_iff (hk : Known ts) : Infix ts ↔
    WellNested ts ∧ (∀ t ∈ ts, t.isTerm = false) ∧ clashes false ts = 0 ∧ gaps false ts = 0 := by
  rw [wellNested_iff_closes]
  exact ⟨fun h => ⟨h.closes, h.isTerm, h.clashes_gaps⟩, fun ⟨hc, hv, hclash, hgap⟩ =>
    Seamless.infix ⟨hk, hv, hc, hclash, hgap⟩⟩

namespace Calculation

/-- Where no word may be replaced and one value has to be left, an expression that has a result has well-nested
parentheses and as many clashes as gaps. It is an infix expression just when there is no clash, and then the result is
the value of its tree. -/
theorem ofExpression_strict_infix (e : String) (c : Calculation) (h : ofExpression ⟨.ok .raise, false⟩ e = .ok c) :
    WellNested (tokenize e) ∧ (∀ t ∈ tokenize e, t.isTerm = false) ∧
      clashes false (tokenize e) = gaps false (tokenize e) ∧
      (Infix (tokenize e) ↔ clashes false (tokenize e) = 0) ∧
      (Infix (tokenize e) → ∃ tree, Derives 4 (tokenize e) tree ∧ c.result = tree.value) := by
  have hk := known_tokenize e
  have hcount := ((ofExpression_strict_iff (.ok .raise) e c).mp h).2
  rw [ofExpression_eq_ofTokens, ofTokens_eq_ok_iff] at h
  obtain ⟨hb, -, -, policy, hp, hconv, heval⟩ := h
  obtain rfl := Except.ok.inj hp
  have hu : Conversion.Unblocked .raise (tokenize e) := by
    rcases Conversion.convert_verdict .raise hk hb with ⟨hu, -⟩ | ⟨xs, t, ys, f, -, -, -, hf⟩
    · exact hu
    · cases hf.symm.trans hconv
  have hv := Conversion.isTerm_of_unblocked hu
  have hw : WellNested (tokenize e) := ⟨backed_of_unblocked hu, by simp [depth, hb]⟩
  have heq : clashes false (tokenize e) = gaps false (tokenize e) := by
    have := balance false (tokenize e)
    simp only [Bool.false_eq_true, if_false] at this
    omega
  refine ⟨hw, hv, heq, ?_, fun hinfix => ?_⟩
  · rw [infix_iff hk]
    exact ⟨fun hi => hi.2.2.1, fun hzero => ⟨hw, hv, hzero, heq ▸ hzero⟩⟩
  · obtain ⟨tree, htree⟩ := hinfix.exists_derives
    have hpost := Conversion.convert_derives htree fun t ht => (Or.inr (hv t ht) : Policy.raise.Accepts t)
    obtain hrpn := Except.ok.inj (hpost.symm.trans hconv)
    rw [← hrpn, Evaluation.evaluate_postorder htree] at heval
    exact ⟨tree, htree, (Except.ok.inj heval).symm⟩

/-- A group clashes with the operand behind it, and in another expression all stands where it should. -/
theorem ofExpression_strict_infix_twice :
    (∃ c, ofExpression ⟨.ok .raise, false⟩ "(1 + 2) 3 *" = .ok c ∧ WellNested (tokenize "(1 + 2) 3 *") ∧
        gaps false (tokenize "(1 + 2) 3 *") = 1) ∧
      ∃ c tree, ofExpression ⟨.ok .raise, false⟩ "2 * (3 - pi)" = .ok c ∧
        Derives 4 (tokenize "2 * (3 - pi)") tree ∧ c.result = tree.value := by
  have hresult : ∀ e, (ofExpression ⟨.ok .raise, false⟩ e).map diagnostics = .ok [] →
      ∃ c, ofExpression ⟨.ok .raise, false⟩ e = .ok c := fun e h =>
    (exists_ok_of_map diagnostics h).imp fun _ hc => hc.1
  constructor
  · obtain ⟨c, hc⟩ := hresult "(1 + 2) 3 *" (by decide +kernel)
    obtain ⟨hw, -, heq, -⟩ := ofExpression_strict_infix _ c hc
    have hone : clashes false (tokenize "(1 + 2) 3 *") = 1 := by decide +kernel
    exact ⟨c, hc, hw, heq ▸ hone⟩
  · obtain ⟨c, hc⟩ := hresult "2 * (3 - pi)" (by decide +kernel)
    obtain ⟨-, -, -, hiff, htree⟩ := ofExpression_strict_infix _ c hc
    obtain ⟨tree, hd, hv⟩ := htree (hiff.mpr (by decide +kernel))
    exact ⟨c, tree, hc, hd, hv⟩

/-- The operator of `1 2 +` stands behind both its operands: one place is a clash, one is a gap. -/
theorem ofExpression_strict_postfix :
    (∃ c, ofExpression ⟨.ok .raise, false⟩ "1 2 +" = .ok c) ∧ ¬Infix (tokenize "1 2 +") := by
  constructor
  · obtain ⟨c, hc, -⟩ : ∃ c, ofExpression ⟨.ok .raise, false⟩ "1 2 +" = .ok c ∧ c.diagnostics = [] := by
      apply exists_ok_of_map
      decide +kernel
    exact ⟨c, hc⟩
  · intro h
    have hone : clashes false (tokenize "1 2 +") = 1 := by decide +kernel
    rw [h.clashes_gaps.1] at hone
    cases hone

end Calculation

end InfixCalculator
