import InfixCalculator.Proofs.Respelling

/-!
# How a number is written does not matter

- `Token.rewritten` is the token with the usual writing of its number, if it has one;
- `step_rewritten`, `convert_rewritten`: the conversion of tokens that are rewritten is the conversion of the tokens,
  rewritten; an evaluation sees no difference (`evaluate_rewritten`);
- `Token.bare` is the token rewritten and without its position, and `Calculation.exists_ofTokens_of_bare`: tokens that
  are the same then have one result.
-/

namespace InfixCalculator

/-- The token with the usual writing of its number. -/
def Token.rewritten (t : Token) : Token :=
  match t.kind with
  | .number x => ofNumber x none t.position
  | _ => t

/-- The token without its position, and with the usual writing of its number. -/
def Token.bare (t : Token) : Token :=
  t.rewritten.unplaced

namespace Token

theorem rewritten_of_number {t : Token} {x : Float} (h : t.kind = .number x) :
    t.rewritten = ofNumber x none t.position := by
  simp only [rewritten, h]

theorem rewritten_eq_self {t : Token} (h : t.isNumber = false) : t.rewritten = t := by
  cases hk : t.kind <;> simp_all [rewritten, isNumber]

theorem position_rewritten (t : Token) : t.rewritten.position = t.position := by
  cases h : t.isNumber with
  | false => rw [rewritten_eq_self h]
  | true => cases hk : t.kind <;> simp_all [rewritten, isNumber, ofNumber]

end Token

namespace Conversion

theorem keeps_rewritten : Keeps Token.rewritten where
  kind t := by
    cases hk : t.kind with
    | number x =>
      rw [Token.rewritten_of_number hk]
      rfl
    | operator | leftParen | rightParen | constant | term =>
      rw [Token.rewritten_eq_self (by simp [Token.isNumber, hk]), hk]
  text t ht := by rw [Token.rewritten_eq_self (by simp [Token.isNumber, Token.isOperator_iff.mp ht])]

end Conversion

theorem Token.kind_of_bare {s t : Token} (h : s.bare = t.bare) : t.kind = s.kind := by
  have hk := Token.kind_of_unplaced h
  rw [Conversion.keeps_rewritten.kind, Conversion.keeps_rewritten.kind] at hk
  exact hk.symm

/-- The tokens of a text are the same wherever it stands, positions and the writing of numbers apart. -/
theorem bare_scan (p q : Nat) (cs : List Char) : (scan p [] cs).map Token.bare = (scan q [] cs).map Token.bare := by
  have hbare : ∀ t : Token, t.unplaced.bare = t.bare := by
    intro t
    cases hk : t.kind <;> simp only [Token.bare, Token.rewritten, Token.unplaced, Token.kind_relocate, hk] <;> rfl
  have h := congrArg (List.map Token.bare) (unplaced_scan p q cs)
  simpa only [List.map_map, Function.comp_def, hbare] using h

namespace Conversion

/-- Tokens rewritten, as a change that shows in a conversion. -/
def rewriting : Change where
  tokens := Token.rewritten
  waiting := List.map Token.rewritten
  output out := ⟨out.tokens.map Token.rewritten, out.diagnostics⟩
  fault := id
  output_empty := rfl
  output_append a b := by simp [Postfix.tokens_append, Postfix.diagnostics_append]

/-- One more token, rewritten. The zero that stands for a word without a value is not written as numbers are, so such
words are left out. -/
theorem step_rewritten (policy : Policy) (w : List Token) {t : Token} (ht : t.isTerm = false) :
    step policy (w.map Token.rewritten) t.rewritten = rewriting.step (step policy w t) := by
  have hkind := keeps_rewritten.kind t
  have hposition := Token.position_rewritten t
  cases hk : t.kind with
  | term => simp [Token.isTerm, hk] at ht
  | number x | leftParen =>
    rw [hk] at hkind
    simp only [step, hk, hkind]
    rfl
  | constant x =>
    rw [hk] at hkind
    simp only [step, hk, hkind, hposition]
    rfl
  | rightParen =>
    rw [hk] at hkind
    simp only [step, hk, hkind, hposition, keeps_rewritten.closed?]
    cases closed? w <;> rfl
  | operator =>
    rw [hk] at hkind
    simp only [step, hk, hkind, keeps_rewritten.text t (Token.isOperator_iff.mpr hk), keeps_rewritten.released]
    cases released t.text w <;> rfl

theorem finish_rewritten (w : List Token) : finish (w.map Token.rewritten) = rewriting.convert (finish w) := by
  rw [finish, finish, keeps_rewritten.find_leftParen]
  cases w.find? Token.isLeftParen with
  | none => rfl
  | some t =>
    rw [Option.map_some]
    simp only [Token.position_rewritten]
    rfl

/-- Tokens rewritten are converted to what the tokens are converted to, rewritten. -/
theorem convert_rewritten (policy : Policy) {ts : List Token} (ht : ∀ t ∈ ts, t.isTerm = false) :
    convert policy (ts.map Token.rewritten) = rewriting.convert (convert policy ts) :=
  rewriting.convertFrom_eq (fun w t hm => step_rewritten policy w (ht t hm)) finish_rewritten []

end Conversion

/-! ## Evaluation and calculation -/

/-- An evaluation does not see how a number is written. -/
theorem Evaluation.evaluate_rewritten (allowPartial : Bool) (ts : List Token) :
    evaluate allowPartial (ts.map Token.rewritten) = evaluate allowPartial ts := by
  have hstep : ∀ stack t, step stack t.rewritten = step stack t := by
    intro stack t
    cases hk : t.kind with
    | number x =>
      rw [Token.rewritten_of_number hk]
      simp only [step, hk]
      rfl
    | operator | leftParen | rightParen | constant | term =>
      rw [Token.rewritten_eq_self (by simp [Token.isNumber, hk])]
  unfold evaluate
  rw [run_map hstep]

namespace Calculation

variable {options : Options} {e : String} {ts ts' : List Token}

theorem ofTokens_rewritten (options : Options) (e : String) (ht : ∀ t ∈ ts, t.isTerm = false) :
    (ofTokens options e (ts.map Token.rewritten)).map result = (ofTokens options e ts).map result := by
  unfold ofTokens
  rw [Conversion.keeps_rewritten.lefts, Conversion.keeps_rewritten.rights]
  split
  · cases options.policy with
    | error fault => rfl
    | ok policy =>
      simp only [Except.bind, Conversion.convert_rewritten policy ht]
      cases Conversion.convert policy ts with
      | error fault => rfl
      | ok out =>
        show ((Evaluation.evaluate _ (out.tokens.map Token.rewritten)).map _).map result =
          ((Evaluation.evaluate _ out.tokens).map _).map result
        rw [Evaluation.evaluate_rewritten]
        cases Evaluation.evaluate options.allowPartial out.tokens <;> rfl
  · rfl

/-- Tokens that all have values, and differ in positions and in the writing of numbers only, have one result. -/
theorem exists_ofTokens_of_bare (e' : String) (h : ts'.map Token.bare = ts.map Token.bare)
    (ht : ∀ t ∈ ts, t.isTerm = false) {c : Calculation} (hc : ofTokens options e ts = .ok c) :
    (∀ t ∈ ts', t.isTerm = false) ∧ ∃ c', ofTokens options e' ts' = .ok c' ∧ c'.result = c.result := by
  have ht' : ∀ t ∈ ts', t.isTerm = false := by
    intro t hm
    obtain ⟨s, hs, hbare⟩ := List.mem_map.mp (h ▸ List.mem_map_of_mem hm)
    rw [← ht s hs, Token.isTerm, Token.isTerm, Token.kind_of_bare hbare]
  obtain ⟨policy, allowPartial⟩ := options
  obtain ⟨-, -, -, policy, rfl, -⟩ := ofTokens_eq_ok_iff.mp hc
  have hunplaced : (ts'.map Token.rewritten).map Token.unplaced = (ts.map Token.rewritten).map Token.unplaced := by
    rw [List.map_map, List.map_map]
    exact h
  have hanswer : answer (ofTokens ⟨.ok policy, allowPartial⟩ e' (ts'.map Token.rewritten)) =
      answer (ofTokens ⟨.ok policy, allowPartial⟩ e (ts.map Token.rewritten)) :=
    answer_ofTokens_congr hunplaced policy allowPartial
  -- the result goes from the tokens to the rewritten ones, across to the other side, and back
  have hresult := ofTokens_rewritten ⟨.ok policy, allowPartial⟩ e ht
  rw [hc] at hresult
  obtain ⟨c₁, hc₁, hx₁⟩ := exists_ok_of_map result hresult
  rw [hc₁] at hanswer
  obtain ⟨c₂, hc₂, hx₂, -⟩ := answer_eq_ok_iff.mp hanswer
  have hresult' := ofTokens_rewritten ⟨.ok policy, allowPartial⟩ e' ht'
  rw [hc₂] at hresult'
  obtain ⟨c', hc', hx'⟩ := exists_ok_of_map result hresult'.symm
  exact ⟨ht', c', hc', hx'.trans (hx₂.trans hx₁)⟩

end Calculation

end InfixCalculator
