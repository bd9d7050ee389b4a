import InfixCalculator.Evaluation
import InfixCalculator.Proofs.Steps

/-!
# The infix grammar

Four levels of binary operators, each grouping to the left: the operators of level `k + 1` join an expression of that
level with one of level `k`. Level `0` is that of operands and groups, level `4` that of whole expressions.

- `operatorsAt k` are the operators of the grammar at a level; `mem_operatorsAt_iff`: the levels that a conversion
  compares are those of the grammar;
- `Derives k ts e`: the tokens `ts` are an expression of level `k` with the tree `e`;
- `run_derives`: whatever waits, a run over an expression puts out the postorder of its tree, apart from operators of
  its level that go on waiting; `run_primary`: for an operand or a group nothing goes on waiting, so that it is put out
  in one block;
- `run_postorder`: on any stack of values, the postorder of a tree pushes the value of the tree.
-/

namespace InfixCalculator

/-- The value that the token stands for as an operand: a word without a value stands for zero. -/
def Token.amount (t : Token) : Float :=
  match t.kind with
  | .number x => x
  | .constant x => x
  | _ => 0

/-- The tree of an expression. -/
inductive Tree where
  | leaf (t : Token)
  /-- An operator at its token, with the expressions on its left and on its right. -/
  | node (op : Operator) (mark : Token) (left right : Tree)

namespace Tree

/-- The tokens put out for a tree: both sides, and then their operator. -/
def postorder : Tree → List Token
  | leaf t => [t.posted]
  | node _ mark l r => l.postorder ++ r.postorder ++ [mark]

/-- The words without a value, from left to right. -/
def replaced : Tree → List Diagnostic
  | leaf t => t.replaced
  | node _ _ l r => l.replaced ++ r.replaced

/-- The value of a tree. -/
def value : Tree → Float
  | leaf t => t.amount
  | node op _ l r => op.apply l.value r.value

end Tree

/-- The operators that join the expressions of a level. -/
def operatorsAt : Nat → List Operator
  | 1 => [.sqrt]
  | 2 => [.power]
  | 3 => [.times, .divide, .modulo]
  | 4 => [.plus, .minus]
  | _ => []

/-- The level of an operator is the one at which the grammar has it. -/
theorem mem_operatorsAt_iff {op : Operator} {k : Nat} : op ∈ operatorsAt k ↔ op.level = k := by
  constructor
  · intro h
    unfold operatorsAt at h
    split at h <;> cases op <;> first | rfl | exact absurd h (by decide)
  · rintro rfl
    cases op <;> decide

/-- The tokens are an expression of the level with the tree. -/
inductive Derives : Nat → List Token → Tree → Prop
  | operand {t : Token} (h : t.isOperand = true) : Derives 0 [t] (.leaf t)
  | group {l r : Token} {ts : List Token} {e : Tree} (hl : l.isLeftParen = true) (hr : r.isRightParen = true)
      (h : Derives 4 ts e) : Derives 0 (l :: ts ++ [r]) e
  | lift {k : Nat} {ts : List Token} {e : Tree} (h : Derives k ts e) : Derives (k + 1) ts e
  | node {k : Nat} {op : Operator} {mark : Token} {ls rs : List Token} {l r : Tree} (hm : mark.operator? = some op)
      (hop : op ∈ operatorsAt (k + 1)) (hl : Derives (k + 1) ls l) (hr : Derives k rs r) :
      Derives (k + 1) (ls ++ mark :: rs) (.node op mark l r)

namespace Derives

variable {k : Nat} {ts : List Token} {e : Tree}

/-- An expression has as many left as right parentheses. -/
theorem lefts_eq_rights (h : Derives k ts e) : lefts ts = rights ts := by
  induction h with
  | operand h => simp [Token.of_isOperand h]
  | group hl hr _ ih => simp [hl, hr, Token.of_isLeftParen hl, Token.of_isRightParen hr, ih]
  | lift _ ih => exact ih
  | node hm _ _ _ ihl ihr => simp [Token.of_isOperator (Token.isOperator_of_operator? hm), ihl, ihr]

/-- Without words that have no value, none is reported. -/
theorem replaced_eq_nil (h : Derives k ts e) (ht : ∀ t ∈ ts, t.isTerm = false) : e.replaced = [] := by
  induction h with
  | operand _ => exact Token.replaced_of_isTerm_eq_false (ht _ (by simp))
  | group _ _ _ ih => exact ih fun t hm => ht t (by simp [hm])
  | lift _ ih => exact ih ht
  | node _ _ _ _ ihl ihr =>
    rw [Tree.replaced, ihl fun t hm => ht t (by simp [hm]), ihr fun t hm => ht t (by simp [hm])]
    rfl

end Derives

/-! ## Conversion -/

namespace Conversion

/-- No operator on top of the waiting tokens binds as tightly as the level: an expression of the level releases
nothing of them. -/
def Admits (k : Nat) (w : List Token) : Prop :=
  ∀ t ∈ w.head?, ∀ op, t.operator? = some op → k < op.level

/-- Operators of at most the level, waiting. -/
def Pending (k : Nat) (w : List Token) : Prop :=
  ∀ t ∈ w, ∃ op, t.operator? = some op ∧ op.level ≤ k

theorem Admits.mono {k k' : Nat} {w : List Token} (h : Admits k' w) (hk : k ≤ k') : Admits k w :=
  fun t ht op hop => Nat.lt_of_le_of_lt hk (h t ht op hop)

theorem admits_leftParen (k : Nat) {l : Token} (hl : l.isLeftParen = true) (w : List Token) : Admits k (l :: w) := by
  intro t ht op hop
  obtain rfl : l = t := by simpa using ht
  rw [Token.isLeftParen_of_operator? hop] at hl
  cases hl

theorem admits_zero (w : List Token) : Admits 0 w := by
  intro t _ op _
  cases op <;> decide

theorem Pending.mono {k k' : Nat} {w : List Token} (h : Pending k w) (hk : k ≤ k') : Pending k' w :=
  fun t ht => (h t ht).imp fun _ hop => ⟨hop.1, Nat.le_trans hop.2 hk⟩

theorem Pending.stacked {k : Nat} {pend w : List Token} (h : Pending k pend) (hw : Stacked w) :
    Stacked (pend ++ w) := by
  intro t ht
  rcases List.mem_append.mp ht with ht | ht
  · exact Or.inr ((h t ht).imp fun _ hop => hop.1)
  · exact hw t ht

theorem pending_zero {w : List Token} (h : Pending 0 w) : w = [] := by
  cases w with
  | nil => rfl
  | cons t rest =>
    obtain ⟨op, -, hle⟩ := h t List.mem_cons_self
    cases op <;> simp [Operator.level] at hle

/-- An incoming operator releases the operators of its own level, and nothing below them. -/
theorem takeWhile_pending {op : Operator} {pend w : List Token} (hp : Pending op.level pend)
    (hw : Admits op.level w) :
    (pend ++ w).takeWhile (leaves op) = pend ∧ (pend ++ w).dropWhile (leaves op) = w := by
  have hall : ∀ t ∈ pend, leaves op t = true := by
    intro t ht
    obtain ⟨waiting, hwt, hle⟩ := hp t ht
    simpa [leaves_of_operator? hwt] using hle
  rw [List.takeWhile_append_of_pos hall, List.dropWhile_append_of_pos hall]
  cases w with
  | nil => simp
  | cons t rest =>
    have hstay : leaves op t = false := by
      cases ht : t.operator? with
      | none => simp [leaves, ht]
      | some waiting =>
        have := hw t (by simp) waiting ht
        simpa [leaves_of_operator? ht] using this
    simp [hstay]

/-- A run over an expression puts out the postorder of its tree, but for operators that go on waiting on top. -/
theorem run_derives {policy : Policy} {k : Nat} {ts : List Token} {e : Tree} (h : Derives k ts e)
    (ha : ∀ t ∈ ts, policy.Accepts t) {w : List Token} (hw : Stacked w) (hk : Admits k w) :
    ∃ out pend, run policy w ts = ⟨⟨out, e.replaced⟩, .ok (pend ++ w)⟩ ∧ out ++ pend = e.postorder ∧
      Pending k pend := by
  induction h generalizing w with
  | @operand t h =>
    refine ⟨[t.posted], [], ?_, by simp [Tree.postorder], by simp [Pending]⟩
    rw [run_singleton (step_operand h (ha t (by simp)) w)]
    rfl
  | @group l r ts e hl hr _ ih =>
    have hlw : Stacked (l :: w) := List.forall_mem_cons.mpr ⟨Or.inl hl, hw⟩
    obtain ⟨out, pend, hrun, hpost, hpend⟩ := ih (fun t ht => ha t (by simp [ht])) hlw (admits_leftParen 4 hl w)
    have hgone : ∀ s ∈ pend, s.isLeftParen = false := by
      intro s hs
      obtain ⟨op, hop, -⟩ := hpend s hs
      exact Token.isLeftParen_of_operator? hop
    have hclose : run policy (pend ++ l :: w) [r] = ⟨⟨pend, []⟩, .ok w⟩ :=
      run_singleton (step_rightParen hr policy hgone hl)
    refine ⟨out ++ pend, [], ?_, by simpa using hpost, by simp [Pending]⟩
    rw [List.cons_append, run_cons (step_leftParen hl policy w), run_append hrun, hclose]
    simp
  | lift _ ih =>
    obtain ⟨out, pend, hrun, hpost, hpend⟩ := ih ha hw (hk.mono (Nat.le_succ _))
    exact ⟨out, pend, hrun, hpost, hpend.mono (Nat.le_succ _)⟩
  | @node k op mark ls rs l r hm hop _ _ ihl ihr =>
    obtain ⟨out₁, pend₁, hrun₁, hpost₁, hpend₁⟩ := ihl (fun t ht => ha t (by simp [ht])) hw hk
    have hlevel : op.level = k + 1 := mem_operatorsAt_iff.mp hop
    have hpend : Pending op.level pend₁ := hlevel ▸ hpend₁
    have hadm : Admits op.level w := hlevel ▸ hk
    obtain ⟨htake, hdrop⟩ := takeWhile_pending hpend hadm
    have hstep := step_operator hm policy (hpend₁.stacked hw)
    rw [htake, hdrop] at hstep
    have hmw : Stacked (mark :: w) := List.forall_mem_cons.mpr ⟨Or.inr ⟨op, hm⟩, hw⟩
    have hmk : Admits k (mark :: w) := by
      intro t ht op' hop'
      obtain rfl : mark = t := by simpa using ht
      rw [hm, Option.some.injEq] at hop'
      rw [← hop', hlevel]
      exact Nat.lt_succ_self k
    obtain ⟨out₂, pend₂, hrun₂, hpost₂, hpend₂⟩ := ihr (fun t ht => ha t (by simp [ht])) hmw hmk
    refine ⟨out₁ ++ pend₁ ++ out₂, pend₂ ++ [mark], ?_, ?_, ?_⟩
    · rw [run_append hrun₁, run_cons hstep, hrun₂]
      simp [Tree.replaced]
    · rw [Tree.postorder, ← hpost₁, ← hpost₂]
      simp
    · intro t ht
      rcases List.mem_append.mp ht with ht | ht
      · exact hpend₂.mono (Nat.le_succ k) t ht
      · rw [List.mem_singleton.mp ht]
        exact ⟨op, hm, Nat.le_of_eq hlevel⟩

/-- An operand or a group is put out in one block, and leaves waiting what waited. -/
theorem run_primary {policy : Policy} {ts : List Token} {e : Tree} (h : Derives 0 ts e)
    (ha : ∀ t ∈ ts, policy.Accepts t) {w : List Token} (hw : Stacked w) :
    run policy w ts = ⟨⟨e.postorder, e.replaced⟩, .ok w⟩ := by
  obtain ⟨out, pend, hrun, hpost, hpend⟩ := run_derives h ha hw (admits_zero w)
  rw [pending_zero hpend, List.append_nil] at hpost
  rw [hrun, hpost, pending_zero hpend]
  rfl

/-- An expression is converted to the postorder of its tree. -/
theorem convert_derives {policy : Policy} {k : Nat} {ts : List Token} {e : Tree} (h : Derives k ts e)
    (ha : ∀ t ∈ ts, policy.Accepts t) : convert policy ts = .ok ⟨e.postorder, e.replaced⟩ := by
  have hw : Stacked [] := by simp [Stacked]
  obtain ⟨out, pend, hrun, hpost, hpend⟩ := run_derives h ha hw (by simp [Admits])
  have hnone : ∀ t ∈ pend, t.isLeftParen = false := by
    intro t ht
    obtain ⟨op, hop, -⟩ := hpend t ht
    exact Token.isLeftParen_of_operator? hop
  rw [List.append_nil] at hrun
  rw [convert_of_run hrun hnone, ← hpost, Postfix.mk_append, List.append_nil]

end Conversion

/-! ## Evaluation -/

namespace Evaluation

theorem step_posted {t : Token} (h : t.isOperand = true) (stack : List Float) :
    step stack t.posted = .ok (t.amount :: stack) := by
  cases hk : t.kind <;> simp_all [Token.isOperand, step, Token.posted, Token.amount, Token.ofNumber]

/-- The postorder of an expression's tree pushes the value of the tree. -/
theorem run_postorder {k : Nat} {ts : List Token} {e : Tree} (h : Derives k ts e) (stack : List Float)
    (rest : List Token) : run stack (e.postorder ++ rest) = run (e.value :: stack) rest := by
  induction h generalizing stack rest with
  | operand h => exact run_cons (step_posted h stack) rest
  | group _ _ _ ih => exact ih stack rest
  | lift _ ih => exact ih stack rest
  | @node k op mark ls rs l r hm _ _ _ ihl ihr =>
    rw [Tree.postorder, List.append_assoc, List.append_assoc, ihl, ihr, List.singleton_append,
      run_cons (step_operator hm l.value r.value stack)]
    rfl

/-- The postorder of an expression's tree is evaluated to the value of the tree. -/
theorem evaluate_postorder {k : Nat} {ts : List Token} {e : Tree} (h : Derives k ts e) (allowPartial : Bool) :
    evaluate allowPartial e.postorder = .ok e.value := by
  have hrun := run_postorder h [] []
  rw [List.append_nil] at hrun
  simp [evaluate, hrun, run, top]

end Evaluation

end InfixCalculator
