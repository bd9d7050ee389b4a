import InfixCalculator.Proofs.Formulas

/-!
# Well-formed groups inside any expression

What stands before a group in parentheses, and what stands after it, see nothing of the group but its value.

- `convertFrom_group`: a group is converted to one block, whatever waits;
- `evaluate_block`: on any stack blocks with one value do the same;
- `outcome_of_group`: whatever is written around them, groups with one value have one outcome, positions apart.
-/

namespace InfixCalculator

/-- What comes of a calculation, positions apart: the result and the words that were replaced, or the fault. -/
def Calculation.outcome (r : Except Fault Calculation) : Except Fault (Float × List String) :=
  (r.map fun c => (c.result, c.diagnostics.map Diagnostic.token)).mapError (Fault.relocate fun _ => none)

namespace Evaluation

/-- Blocks with one value can stand for each other, before tokens that differ in their positions only. -/
theorem evaluate_block {k k' : Nat} {ts ts' : List Token} {e e' : Tree} (h : Derives k ts e) (h' : Derives k' ts' e')
    (hv : e.value = e'.value) (xs : List Token) {ys ys' : List Token}
    (hys : ys.map Token.unplaced = ys'.map Token.unplaced) (allowPartial : Bool) :
    evaluate allowPartial (xs ++ (e.postorder ++ ys)) = evaluate allowPartial (xs ++ (e'.postorder ++ ys')) := by
  have hrest : ∀ stack, run stack ys = run stack ys' := by
    intro stack
    rw [← run_relocate (fun _ => none) stack ys, ← run_relocate (fun _ => none) stack ys']
    exact congrArg (run stack) hys
  have hrun : run [] (xs ++ (e.postorder ++ ys)) = run [] (xs ++ (e'.postorder ++ ys')) := by
    rw [run_append, run_append]
    congr 1
    funext stack
    rw [run_postorder h, run_postorder h', hv, hrest]
  rw [evaluate, evaluate, hrun]

end Evaluation

namespace Conversion

/-- A group is converted to one block, and what follows it sees nothing of it. -/
theorem convertFrom_group {policy : Policy} {ts : List Token} {e : Tree} (h : Derives 0 ts e)
    (ht : ∀ t ∈ ts, t.isTerm = false) {w : List Token} (hw : Stacked w) (ys : List Token) :
    convertFrom policy w (ts ++ ys) = (convertFrom policy w ys).map (⟨e.postorder, []⟩ ++ ·) := by
  have hrun := run_primary h (fun t hm => (Or.inr (ht t hm) : policy.Accepts t)) hw
  rw [h.replaced_eq_nil ht] at hrun
  exact convertFrom_append hrun ys

/-- What comes of converted tokens, positions apart. -/
def outcome (allowPartial : Bool) (r : Except Fault Postfix) : Except Fault (Float × List String) :=
  (r.bind fun out => (Evaluation.evaluate allowPartial out.tokens).map fun x =>
    (x, out.diagnostics.map Diagnostic.token)).mapError (Fault.relocate fun _ => none)

/-- Blocks with one value have one outcome before output that differs in positions only. -/
theorem outcome_block {k k' : Nat} {ts ts' : List Token} {e e' : Tree} (h : Derives k ts e) (h' : Derives k' ts' e')
    (hv : e.value = e'.value) (before : Postfix) {r r' : Except Fault Postfix}
    (hr : (r.map (Postfix.relocate fun _ => none)).mapError (Fault.relocate fun _ => none) =
      (r'.map (Postfix.relocate fun _ => none)).mapError (Fault.relocate fun _ => none)) (allowPartial : Bool) :
    outcome allowPartial ((r.map (⟨e.postorder, []⟩ ++ ·)).map (before ++ ·)) =
      outcome allowPartial ((r'.map (⟨e'.postorder, []⟩ ++ ·)).map (before ++ ·)) := by
  cases r with
  | error fault =>
    cases r' with
    | error fault' =>
      have he : fault.relocate (fun _ => none) = fault'.relocate fun _ => none := Except.error.inj hr
      exact congrArg Except.error he
    | ok out' => cases hr
  | ok out =>
    cases r' with
    | error fault' => cases hr
    | ok out' =>
      obtain ⟨htokens, hdiag⟩ := Postfix.mk.inj (Except.ok.inj hr)
      have hwords : out.diagnostics.map Diagnostic.token = out'.diagnostics.map Diagnostic.token := by
        have := congrArg (List.map Diagnostic.token) hdiag
        rw [List.map_map, List.map_map] at this
        exact this
      have heval := Evaluation.evaluate_block h h' hv before.tokens htokens allowPartial
      simp only [outcome, Except.map, Except.bind, Postfix.tokens_append, Postfix.diagnostics_append, heval,
        List.map_append, hwords]

end Conversion

/-- The outcome of a balanced expression is that of the conversion of its tokens. -/
theorem Calculation.outcome_balanced {options : Options} {e : String} (h : isBalanced e = true) {policy : Policy}
    (hp : options.policy = .ok policy) :
    outcome (ofExpression options e) =
      Conversion.outcome options.allowPartial (Conversion.convertFrom policy [] (tokenize e)) := by
  rw [ofExpression_balanced h hp, Conversion.convert_eq_convertFrom]
  cases Conversion.convertFrom policy [] (tokenize e) with
  | error fault => rfl
  | ok out =>
    simp only [outcome, Conversion.outcome, Except.bind]
    cases Evaluation.evaluate options.allowPartial out.tokens <;> rfl

/-- The tokens around a group are those of the texts around it, positions apart, and those of the group are a group. -/
theorem tokenize_group (pre post : String) {m : String} {e : Tree} (h : Derives 4 (tokenize m) e)
    (ht : ∀ t ∈ tokenize m, t.isTerm = false) :
    ∃ ts e' ys, tokenize (pre ++ "(" ++ m ++ ")" ++ post) = tokenize pre ++ (ts ++ ys) ∧ Derives 0 ts e' ∧
      e'.value = e.value ∧ (∀ t ∈ ts, t.isTerm = false) ∧
      ys.map Token.unplaced = (tokenize post).map Token.unplaced := by
  let l : Token := ⟨.leftParen, "(", some pre.toList.length, none⟩
  let r : Token := ⟨.rightParen, ")", some (pre.toList.length + 1 + m.toList.length), none⟩
  let shift (n : Nat) : Token → Token := Token.relocate (Option.map (· + n))
  have hs : (pre ++ "(" ++ m ++ ")" ++ post).toList = pre.toList ++ '(' :: (m.toList ++ ')' :: post.toList) := by
    simp [String.toList_append]
  have hl : isDelimiter '(' = true := by decide
  have hr : isDelimiter ')' = true := by decide
  refine ⟨l :: (tokenize m).map (shift (pre.toList.length + 1)) ++ [r], _,
    (tokenize post).map (shift (pre.toList.length + 1 + m.toList.length + 1)), ?_,
    .group rfl rfl (h.relocate _), e.value_relocate _, ?_, ?_⟩
  · rw [tokenize, hs, scan_append_delimiter hl, scan_append_delimiter hr, delimiterTokens_leftParen,
      delimiterTokens_rightParen, Nat.zero_add, scan_eq_tokenize _ m, scan_eq_tokenize _ post]
    simp [tokenize, l, r, shift]
  · simp only [List.mem_append, List.mem_cons, List.mem_map, List.not_mem_nil, or_false]
    rintro t ((rfl | ⟨s, hm, rfl⟩) | rfl)
    · rfl
    · exact ht s hm
    · rfl
  · rw [List.map_map]
    rfl

/-- Groups with one value have one outcome, whatever is written around them: the same result with the same words
replaced, or the same failure, positions apart. -/
theorem outcome_of_group (pre post : String) {m m' : String} {e e' : Tree} (h : Derives 4 (tokenize m) e)
    (h' : Derives 4 (tokenize m') e') (ht : ∀ t ∈ tokenize m, t.isTerm = false)
    (ht' : ∀ t ∈ tokenize m', t.isTerm = false) (hv : e.value = e'.value) (options : Options) :
    Calculation.outcome (Calculation.ofExpression options (pre ++ "(" ++ m ++ ")" ++ post)) =
      Calculation.outcome (Calculation.ofExpression options (pre ++ "(" ++ m' ++ ")" ++ post)) := by
  obtain ⟨ts, f, ys, htok, hd, hf, hterm, hys⟩ := tokenize_group pre post h ht
  obtain ⟨ts', f', ys', htok', hd', hf', hterm', hys'⟩ := tokenize_group pre post h' ht'
  have hrest : ys.map Token.unplaced = ys'.map Token.unplaced := hys.trans hys'.symm
  have hbal : isBalanced (pre ++ "(" ++ m ++ ")" ++ post) = isBalanced (pre ++ "(" ++ m' ++ ")" ++ post) := by
    have hl : lefts ys = lefts ys' := by
      rw [← lefts_relocate (fun _ => none) ys, ← lefts_relocate (fun _ => none) ys']
      exact congrArg lefts hrest
    have hr : rights ys = rights ys' := by
      rw [← rights_relocate (fun _ => none) ys, ← rights_relocate (fun _ => none) ys']
      exact congrArg rights hrest
    have hg := hd.lefts_eq_rights
    have hg' := hd'.lefts_eq_rights
    rw [Bool.eq_iff_iff, isBalanced_iff, isBalanced_iff, htok, htok']
    simp only [lefts_append, rights_append]
    omega
  cases hb : isBalanced (pre ++ "(" ++ m ++ ")" ++ post) with
  | false => rw [Calculation.ofExpression_imbalanced hb, Calculation.ofExpression_imbalanced (hbal ▸ hb)]
  | true =>
    cases hp : options.policy with
    | error fault =>
      rw [Calculation.ofExpression_unknownPolicy hb hp, Calculation.ofExpression_unknownPolicy (hbal ▸ hb) hp]
    | ok policy =>
      rw [Calculation.outcome_balanced hb hp, Calculation.outcome_balanced (hbal ▸ hb) hp, htok, htok']
      rcases hrun : Conversion.run policy [] (tokenize pre) with ⟨before, ending⟩
      cases ending with
      | error fault => rw [Conversion.convertFrom_append_error hrun, Conversion.convertFrom_append_error hrun]
      | ok w =>
        have hw : Conversion.Stacked w :=
          Conversion.run_stacked (known_tokenize pre) (by simp [Conversion.Stacked]) hrun
        rw [Conversion.convertFrom_append hrun, Conversion.convertFrom_append hrun,
          Conversion.convertFrom_group hd hterm hw, Conversion.convertFrom_group hd' hterm' hw]
        refine Conversion.outcome_block hd hd' (by rw [hf, hf', hv]) before ?_ options.allowPartial
        rw [← Conversion.convertFrom_relocate, ← Conversion.convertFrom_relocate]
        exact congrArg _ hrest

/-- The formula of `6 / 2`. -/
def quotientFormula : Formula 4 :=
  .lift (.apply .divide (by decide) (.lift (.lift (.lift (.literal (.ofDigits ['6'] (by decide) (by decide))))))
    (.lift (.lift (.literal (.ofDigits ['2'] (by decide) (by decide))))))

/-- The formula of `(3)`. -/
def threeFormula : Formula 4 :=
  .lift (.lift (.lift (.lift (.group
    (.lift (.lift (.lift (.lift (.literal (.ofDigits ['3'] (by decide) (by decide)))))))))))

theorem outcome_of_group_three :
    (∃ e e', Derives 4 (tokenize "6 /2") e ∧ Derives 4 (tokenize "(3)") e' ∧ e.value = e'.value) ∧
      ∀ options,
        Calculation.outcome (Calculation.ofExpression options ("x * (" ++ "(" ++ "6 /2" ++ ")" ++ " POWER) - 4")) =
          Calculation.outcome (Calculation.ofExpression options ("x * (" ++ "(" ++ "(3)" ++ ")" ++ " POWER) - 4")) := by
  have hquotient : Spelling quotientFormula.symbols "6 /2".toList :=
    .cons 0 _ (.cons 1 _ (.cons 0 _ (.nil 0) (by decide)) (by decide)) (by decide)
  have hthree : Spelling threeFormula.symbols "(3)".toList :=
    .cons 0 _ (.cons 0 _ (.cons 0 _ (.nil 0) (by decide)) (by decide)) (by decide)
  obtain ⟨e, hd, hv, ht⟩ := quotientFormula.derives_tokenize hquotient
  obtain ⟨e', hd', hv', ht'⟩ := threeFormula.derives_tokenize hthree
  have hvalue : e.value = e'.value := by
    rw [hv, hv']
    decide +kernel
  exact ⟨⟨e, e', hd, hd', hvalue⟩, outcome_of_group "x * (" " POWER) - 4" hd hd' ht ht' hvalue⟩

end InfixCalculator
