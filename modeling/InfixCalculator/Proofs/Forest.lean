import InfixCalculator.Proofs.Accounts
import InfixCalculator.Proofs.Grammar

/-!
# The trees of a reverse Polish sequence

A sequence of numbers and operators lists trees in postorder, one after the other, as long as every operator finds two
trees before it.

- `Lists trees ts`: the tokens are the postorders of the trees, whose leaves are numbers (`Tree.Sound`);
- `grow` takes one token to the trees built so far, and `build` a whole sequence. `build_eq_some_iff`: it builds just the
  trees that the sequence lists, so that a sequence lists its trees in one way only (`Lists.unique`). What is kept by
  one token is kept by all (`build_induction`);
- `step_grow`, `run_build`: the values on the stack of an evaluation are the values of the trees built so far;
- `Stops xs t f`: after the tokens `xs` the token `t` stops an evaluation with the failure `f`, and `build_unstopped`: a
  sequence without such a token has its trees;
- `evaluate_forest`: the first token that stops an evaluation says how it fails, and else its trees say how it ends.
-/

namespace InfixCalculator

namespace Tree

/-- All leaves are numbers, and every operator is that of its token. -/
def Sound : Tree → Prop
  | leaf t => t.isNumber = true
  | node op mark l r => mark.operator? = some op ∧ l.Sound ∧ r.Sound

/-- The tokens list the trees: they are the postorders of sound trees, one after the other. -/
structure Lists (trees : List Tree) (ts : List Token) : Prop where
  sound : ∀ e ∈ trees, e.Sound
  postorders : trees.flatMap postorder = ts

/-! ## Building trees -/

/-- The trees after one more token, the latest first: a number is a tree of its own, and an operator joins the latest
two. -/
def grow (stack : List Tree) (t : Token) : Option (List Tree) :=
  if t.isNumber then some (leaf t :: stack)
  else
    match t.operator?, stack with
    | some op, r :: l :: rest => some (node op t l r :: rest)
    | _, _ => none

/-- The trees after further tokens. -/
def build (stack : List Tree) (ts : List Token) : Option (List Tree) :=
  ts.foldlM grow stack

variable {stack stack' : List Tree} {ts : List Token} {t : Token}

theorem grow_number (h : t.isNumber = true) (stack : List Tree) : grow stack t = some (leaf t :: stack) := by
  simp [grow, h]

theorem isNumber_of_operator? {op : Operator} (h : t.operator? = some op) : t.isNumber = false := by
  simp [Token.isNumber, (Token.operator?_eq_some_iff.mp h).1]

theorem grow_operator {op : Operator} (h : t.operator? = some op) (l r : Tree) (rest : List Tree) :
    grow (r :: l :: rest) t = some (node op t l r :: rest) := by
  simp [grow, h, isNumber_of_operator? h]

/-- All that one token can do to the trees. -/
theorem grow_cases (h : grow stack t = some stack') :
    (t.isNumber = true ∧ stack' = leaf t :: stack) ∨
      ∃ op l r rest, t.operator? = some op ∧ stack = r :: l :: rest ∧ stack' = node op t l r :: rest := by
  unfold grow at h
  split at h
  · next hn => exact Or.inl ⟨hn, (Option.some.inj h).symm⟩
  · split at h
    · next op r l rest hop => exact Or.inr ⟨op, l, r, rest, hop, rfl, (Option.some.inj h).symm⟩
    · cases h

theorem build_append (xs ys : List Token) : build stack (xs ++ ys) = (build stack xs).bind (build · ys) :=
  List.foldlM_append

theorem build_append_singleton (h : build stack ts = some stack') (t : Token) :
    build stack (ts ++ [t]) = grow stack' t := by
  rw [build_append, h]
  show (grow stack' t).bind (build · []) = _
  cases grow stack' t <;> rfl

/-- What holds of no tokens and no trees, and is kept by one more token, holds of a sequence and what is built from it. -/
theorem build_induction {P : List Token → List Tree → Prop} (hnil : P [] [])
    (hgrow : ∀ ts t stack stack', P ts stack → grow stack t = some stack' → P (ts ++ [t]) stack')
    (h : build [] ts = some stack) : P ts stack := by
  induction ts using List.reverseRecOn generalizing stack with
  | nil =>
    obtain rfl := Option.some.inj h
    exact hnil
  | append_singleton ts t ih =>
    cases hb : build [] ts with
    | none => simp [build_append, hb] at h
    | some before =>
      rw [build_append_singleton hb] at h
      exact hgrow ts t before stack (ih hb) h

/-! ## Postorders and what is built from them -/

theorem postorder_leaf (h : t.isNumber = true) : (leaf t).postorder = [t] := by
  cases hk : t.kind <;> simp_all [Token.isNumber, postorder, Token.posted]

/-- One more token keeps the trees listed. -/
theorem Lists.grow (h : Lists stack.reverse ts) (hg : Tree.grow stack t = some stack') :
    Lists stack'.reverse (ts ++ [t]) := by
  obtain ⟨hs, hp⟩ := h
  rcases grow_cases hg with ⟨hn, rfl⟩ | ⟨op, l, r, rest, hop, rfl, rfl⟩
  · constructor
    · intro e he
      rcases List.mem_cons.mp (List.mem_reverse.mp he) with rfl | he
      · exact hn
      · exact hs e (by simp [he])
    · simp [hp, postorder_leaf hn]
  · have hl : l.Sound := hs l (by simp)
    have hr : r.Sound := hs r (by simp)
    constructor
    · intro e he
      rcases List.mem_cons.mp (List.mem_reverse.mp he) with rfl | he
      · exact ⟨hop, hl, hr⟩
      · exact hs e (by simp [he])
    · rw [← hp]
      simp [postorder]

/-- What is built from a sequence are trees that it lists. -/
theorem lists_of_build (h : build [] ts = some stack) : Lists stack.reverse ts := by
  refine build_induction (P := fun ts stack => Lists stack.reverse ts) ⟨by simp, rfl⟩ ?_ h
  intro ts t stack stack' hlists hg
  exact hlists.grow hg

/-- The postorder of a sound tree builds the tree, whatever is there and whatever follows. -/
theorem build_postorder {e : Tree} (h : e.Sound) (stack : List Tree) (rest : List Token) :
    build stack (e.postorder ++ rest) = build (e :: stack) rest := by
  induction e generalizing stack rest with
  | leaf t =>
    rw [postorder_leaf h, build_append, build, List.foldlM_cons, grow_number h]
    rfl
  | node op mark l r ihl ihr =>
    obtain ⟨hop, hl, hr⟩ := h
    rw [postorder, List.append_assoc, List.append_assoc, ihl hl, ihr hr, build_append, build, List.foldlM_cons,
      grow_operator hop]
    rfl

theorem build_postorders {trees : List Tree} (h : ∀ e ∈ trees, e.Sound) (stack : List Tree) :
    build stack (trees.flatMap postorder) = some (trees.reverse ++ stack) := by
  induction trees generalizing stack with
  | nil => rfl
  | cons e trees ih =>
    obtain ⟨he, htrees⟩ := List.forall_mem_cons.mp h
    rw [List.flatMap_cons, build_postorder he, ih htrees]
    simp

/-- From a sequence just the trees are built that it lists. -/
theorem build_eq_some_iff : build [] ts = some stack ↔ Lists stack.reverse ts := by
  constructor
  · exact lists_of_build
  · rintro ⟨hs, rfl⟩
    rw [build_postorders hs]
    simp

/-- A sequence lists its trees in one way only. -/
theorem Lists.unique {trees trees' : List Tree} (h : Lists trees ts) (h' : Lists trees' ts) : trees = trees' := by
  rw [← List.reverse_reverse trees, ← build_eq_some_iff] at h
  rw [← List.reverse_reverse trees', ← build_eq_some_iff] at h'
  exact List.reverse_inj.mp (Option.some.inj (h.symm.trans h'))

end Tree

open InfixCalculator.Tree

namespace Evaluation

variable {stack stack' : List Tree} {ts xs : List Token} {t : Token}

/-! ## Values of trees -/

theorem step_isNumber (h : t.isNumber = true) (values : List Float) : step values t = .ok (t.amount :: values) := by
  cases hk : t.kind <;> simp_all [Token.isNumber, step, Token.amount]

/-- The values on the stack follow the trees. -/
theorem step_grow (h : grow stack t = some stack') : step (stack.map value) t = .ok (stack'.map value) := by
  rcases grow_cases h with ⟨hn, rfl⟩ | ⟨op, l, r, rest, hop, rfl, rfl⟩
  · rw [step_isNumber hn]
    rfl
  · rw [List.map_cons, List.map_cons, step_operator hop]
    rfl

theorem run_build (h : build stack ts = some stack') : run (stack.map value) ts = .ok (stack'.map value) := by
  induction ts generalizing stack with
  | nil =>
    obtain rfl := Option.some.inj h
    rfl
  | cons t ts ih =>
    rw [build, List.foldlM_cons] at h
    cases hg : grow stack t with
    | none => simp [hg] at h
    | some next =>
      rw [hg] at h
      rw [run_cons (step_grow hg)]
      exact ih h

/-! ## What stops an evaluation -/

/-- The numbers beyond the operators. -/
def surplus (ts : List Token) : Int :=
  (ts.countP Token.isNumber : Int) - operators ts

/-- After the tokens, a token stops an evaluation with a failure: it is neither a number nor an operator, or it is an
operator that finds fewer than two values. -/
inductive Stops (xs : List Token) (t : Token) : Failure → Prop
  | unexpected (hn : t.isNumber = false) (ho : t.isOperator = false) : Stops xs t (.unexpected t.text)
  | underflow (ho : t.isOperator = true) (hs : surplus xs < 2) : Stops xs t (.underflow t.text (surplus xs).toNat)

/-- No token stops an evaluation. -/
def Unstopped (ts : List Token) : Prop :=
  Nowhere (fun xs t => ∃ f, Stops xs t f) ts

theorem surplus_append_number (h : t.isNumber = true) : surplus (ts ++ [t]) = surplus ts + 1 := by
  have ho := (Token.of_isOperand (Token.isOperand_of_isNumber h)).1
  simp [surplus, h, ho]
  omega

theorem surplus_append_operator {op : Operator} (h : t.operator? = some op) : surplus (ts ++ [t]) = surplus ts - 1 := by
  simp [surplus, isNumber_of_operator? h, Token.isOperator_of_operator? h]
  omega

/-- There are as many trees as numbers beyond the operators. -/
theorem length_build (h : build [] ts = some stack) : (stack.length : Int) = surplus ts := by
  refine build_induction (P := fun ts stack => (stack.length : Int) = surplus ts) rfl ?_ h
  intro ts t stack stack' hlen hg
  rcases grow_cases hg with ⟨hn, rfl⟩ | ⟨op, l, r, rest, hop, rfl, rfl⟩
  · rw [surplus_append_number hn, ← hlen]
    simp
  · rw [surplus_append_operator hop, ← hlen]
    simp

/-- Trees are there as soon as a token is. -/
theorem build_eq_nil_iff (h : build [] ts = some stack) : stack = [] ↔ ts = [] := by
  constructor
  · rintro rfl
    exact (lists_of_build h).postorders.symm
  · rintro rfl
    exact (Option.some.inj h).symm

/-- A token that does not stop an evaluation has its part in the trees. -/
theorem grow_unstopped (h : build [] xs = some stack) (ht : t.isOperator = true → ∃ op, t.operator? = some op)
    (hs : ¬∃ f, Stops xs t f) : ∃ stack', grow stack t = some stack' := by
  cases hn : t.isNumber with
  | true => exact ⟨_, grow_number hn stack⟩
  | false =>
    cases ho : t.isOperator with
    | false => exact absurd ⟨_, .unexpected hn ho⟩ hs
    | true =>
      obtain ⟨op, hop⟩ := ht ho
      have hlen := length_build h
      have hle : 2 ≤ surplus xs := by
        by_contra hlt
        exact hs ⟨_, .underflow ho (by omega)⟩
      match stack, hlen with
      | [], hlen | [_], hlen => simp at hlen; omega
      | r :: l :: rest, _ => exact ⟨_, grow_operator hop l r rest⟩

/-- A sequence in which no token stops an evaluation has its trees. -/
theorem build_unstopped (hk : Known ts) (h : Unstopped ts) : ∃ stack, build [] ts = some stack := by
  induction ts using List.reverseRecOn with
  | nil => exact ⟨[], rfl⟩
  | append_singleton ts t ih =>
    obtain ⟨hts, ht⟩ := nowhere_append_singleton.mp h
    obtain ⟨hkts, hkt⟩ := known_append.mp hk
    obtain ⟨stack, hb⟩ := ih hkts hts
    obtain ⟨stack', hg⟩ := grow_unstopped hb (hkt t List.mem_cons_self) ht
    exact ⟨stack', by rw [build_append_singleton hb, hg]⟩

/-- A token that stops an evaluation ends a step with its failure. -/
theorem step_stops (h : build [] xs = some stack) {f : Failure} (hs : Stops xs t f) :
    step (stack.map value) t = .error (.failure f) := by
  cases hs with
  | unexpected hn ho => cases hk : t.kind <;> simp_all [Token.isNumber, Token.isOperator, step]
  | underflow ho hlt =>
    have hlen := length_build h
    have hnum : (surplus xs).toNat = (stack.map value).length := by simp [← hlen]
    rw [hnum]
    exact step_operator_short ho (by simp; omega)

/-- The trees of a sequence are there just when no token stops its evaluation. -/
theorem unstopped_iff (hk : Known ts) : Unstopped ts ↔ ∃ stack, build [] ts = some stack := by
  constructor
  · exact build_unstopped hk
  · rintro ⟨stack, hb⟩ xs t ys rfl ⟨f, hs⟩
    rw [build_append] at hb
    obtain ⟨before, hbefore, hrest⟩ := Option.bind_eq_some_iff.mp hb
    rw [build, List.foldlM_cons] at hrest
    obtain ⟨next, hg, -⟩ := Option.bind_eq_some_iff.mp hrest
    cases (step_grow hg).symm.trans (step_stops hbefore hs)

/-! ## How an evaluation ends -/

theorem top_eq_empty_iff {allowPartial : Bool} {values : List Float} :
    top allowPartial values = .error (.failure .empty) ↔ values = [] := by
  match values with
  | [] => simp [top]
  | [x] => simp [top]
  | x :: y :: rest => cases allowPartial <;> simp [top]

theorem top_eq_malformed_iff {allowPartial : Bool} {values : List Float} {n : Nat} :
    top allowPartial values = .error (.failure (.malformed n)) ↔
      allowPartial = false ∧ 2 ≤ values.length ∧ n = values.length := by
  match values with
  | [] => simp [top]
  | [x] => simp [top]
  | x :: y :: rest => cases allowPartial <;> simp [top, eq_comm]

theorem top_cons {allowPartial : Bool} {values : List Float} (x : Float)
    (h : allowPartial = true ∨ (x :: values).length < 2) : top allowPartial (x :: values) = .ok x := by
  match values with
  | [] => rfl
  | y :: rest =>
    obtain rfl : allowPartial = true := h.resolve_right (by simp)
    rfl

/-- The first token that stops an evaluation ends it with its failure. -/
theorem evaluate_stopped (hk : Known xs) (h : Unstopped xs) {f : Failure} (hs : Stops xs t f) (ys : List Token)
    (allowPartial : Bool) : evaluate allowPartial (xs ++ t :: ys) = .error (.failure f) := by
  obtain ⟨stack, hb⟩ := build_unstopped hk h
  have hrun : run [] xs = .ok (stack.map value) := run_build hb
  rw [evaluate, run_append, hrun]
  simp [Except.bind, run, step_stops hb hs]

theorem evaluate_build (h : build [] ts = some stack) (allowPartial : Bool) :
    evaluate allowPartial ts = top allowPartial (stack.map value) := by
  have hrun : run [] ts = .ok (stack.map value) := run_build h
  rw [evaluate, hrun]

/-- How an evaluation ends.

- The first token that stops it says how it fails; the values are then the numbers before it less the operators before
  it, and there are none only if nothing is before it.
- If there is no such token, the sequence lists trees, in one way only, as many as it has numbers beyond its operators.
  Without a tree there is nothing to evaluate, several trees are too many unless they are allowed, and else the result
  is the value of the last tree. -/
theorem evaluate_forest (hk : Known ts) (allowPartial : Bool) :
    (∀ xs t ys f, ts = xs ++ t :: ys → Unstopped xs → Stops xs t f →
        evaluate allowPartial ts = .error (.failure f) ∧ 0 ≤ surplus xs ∧ (surplus xs = 0 ↔ xs = [])) ∧
      (Unstopped ts → ∃ trees, Lists trees ts ∧ (∀ trees', Lists trees' ts → trees' = trees) ∧
        (trees.length : Int) = surplus ts ∧ (trees = [] ↔ ts = []) ∧
        (evaluate allowPartial ts = .error (.failure .empty) ↔ trees = []) ∧
        (∀ n, evaluate allowPartial ts = .error (.failure (.malformed n)) ↔
          allowPartial = false ∧ 2 ≤ surplus ts ∧ (n : Int) = surplus ts) ∧
        ∀ before e, trees = before ++ [e] → allowPartial = true ∨ surplus ts < 2 →
          evaluate allowPartial ts = .ok e.value) := by
  constructor
  · rintro xs t ys f rfl hx hs
    have hkx := (known_append.mp hk).1
    obtain ⟨stack, hb⟩ := build_unstopped hkx hx
    have hlen := length_build hb
    refine ⟨evaluate_stopped hkx hx hs ys allowPartial, by omega, ?_⟩
    rw [← build_eq_nil_iff hb, ← List.length_eq_zero_iff]
    omega
  · intro hu
    obtain ⟨stack, hb⟩ := build_unstopped hk hu
    have hlists := lists_of_build hb
    have hlen := length_build hb
    have hnil := build_eq_nil_iff hb
    have hcount : ((stack.map value).length : Int) = surplus ts := by rw [List.length_map, hlen]
    refine ⟨stack.reverse, hlists, fun trees' h => h.unique hlists, by simpa using hlen, by simpa using hnil, ?_⟩
    rw [evaluate_build hb]
    refine ⟨by simp [top_eq_empty_iff], fun n => ?_, fun before e he hone => ?_⟩
    · rw [top_eq_malformed_iff]
      apply and_congr_right
      intro _
      omega
    · obtain rfl : stack = e :: before.reverse := by simpa using congrArg List.reverse he
      exact top_cons e.value (hone.imp_right fun hlt => by rw [List.map_cons] at hcount; omega)

/-- The sequence `1 2 + 3`. -/
def sumAndMore : List Token :=
  [.ofNumber 1 (some "1") none, .ofNumber 2 (some "2") none, .ofOperator .plus none, .ofNumber 3 (some "3") none]

/-- Two trees are too many unless they are allowed; then the last of them counts. -/
theorem evaluate_forest_sumAndMore :
    Known sumAndMore ∧ Unstopped sumAndMore ∧ evaluate false sumAndMore = .error (.failure (.malformed 2)) ∧
      evaluate true sumAndMore = .ok 3 ∧
      Unstopped (sumAndMore.take 1) ∧ Stops (sumAndMore.take 1) (.ofOperator .times none) (.underflow "*" 1) ∧
      evaluate true (sumAndMore.take 1 ++ .ofOperator .times none :: []) = .error (.failure (.underflow "*" 1)) := by
  have hk : Known sumAndMore := by decide
  have hu : Unstopped sumAndMore := (unstopped_iff hk).mpr ⟨_, rfl⟩
  obtain ⟨trees, -, -, -, -, -, hmalformed, -⟩ := (evaluate_forest hk false).2 hu
  obtain ⟨trees', -, hunique, -, -, -, -, hlast⟩ := (evaluate_forest hk true).2 hu
  have hlists := hunique _ (lists_of_build (show build [] sumAndMore = some _ from rfl))
  have hone : Unstopped (sumAndMore.take 1) := (unstopped_iff (by decide)).mpr ⟨_, rfl⟩
  have hs : Stops (sumAndMore.take 1) (.ofOperator .times none) (.underflow "*" 1) := .underflow rfl (by decide)
  have hshort := (evaluate_forest (show Known (sumAndMore.take 1 ++ [.ofOperator .times none]) by decide) true).1
  exact ⟨hk, hu, (hmalformed 2).mpr ⟨rfl, by decide, rfl⟩, hlast [_] _ hlists.symm (Or.inl rfl), hone, hs,
    (hshort _ _ [] _ rfl hone hs).1⟩

end Evaluation

end InfixCalculator
