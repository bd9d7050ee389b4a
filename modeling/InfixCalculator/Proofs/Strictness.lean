import InfixCalculator.Proofs.Output
import InfixCalculator.Proofs.Depth
import InfixCalculator.Proofs.Stages

/-!
# Strict and lenient options

To refuse words without a value is stricter than to replace them by zero, and to allow one value in the end is stricter
than to allow several.

- `convert_raise_iff`, `convert_raise_of_reported`, `convert_raise_of_unmatched`: what the policy to refuse words does,
  by what the policy to replace them does with the same tokens;
- `evaluate_strict_iff`: the counts of operands and operators decide whether one value is left;
- `ofExpression_strictness`: how the calculations of one expression under the options depend on each other.
-/

namespace InfixCalculator

variable {policy : Policy} {ts : List Token}

/-! ## Words refused and replaced -/

namespace Conversion

/-- What stops the policy to replace words stops the policy to refuse them. -/
theorem Blocks.raise {xs : List Token} {t : Token} {f : Failure} (h : Blocks .recover xs t f) :
    Blocks .raise xs t f := by
  cases h with
  | unmatched ht hx => exact .unmatched ht hx
  | unparseable _ hp => cases hp

theorem Unblocked.recover (h : Unblocked .raise ts) : Unblocked .recover ts := by
  intro xs t ys hsplit hb
  obtain ⟨f, hf⟩ := hb
  exact h xs t ys hsplit ⟨f, hf.raise⟩

/-- To refuse words does what to replace them does and does not report. -/
theorem convert_raise_iff (hk : Known ts) (hb : lefts ts = rights ts) {out : Postfix} :
    convert .raise ts = .ok out ↔ convert .recover ts = .ok out ∧ out.diagnostics = [] := by
  constructor
  · intro h
    rcases convert_verdict .raise hk hb with ⟨hu, -⟩ | ⟨xs, t, ys, f, -, -, -, hf⟩
    · have hterms := isTerm_of_unblocked hu
      refine ⟨(convert_policy .recover .raise hterms).trans h, ?_⟩
      rw [convert_diagnostics hk h]
      exact flatMap_replaced_eq_nil_iff.mpr hterms
    · rw [hf] at h
      cases h
  · rintro ⟨h, hd⟩
    rw [convert_diagnostics hk h, flatMap_replaced_eq_nil_iff] at hd
    exact (convert_policy .raise .recover hd).trans h

/-- Where words are replaced, the first of them is the one that is refused. -/
theorem convert_raise_of_reported (hk : Known ts) (hb : lefts ts = rights ts) {out : Postfix}
    (h : convert .recover ts = .ok out) {d : Diagnostic} {ds : List Diagnostic} (hd : out.diagnostics = d :: ds) :
    convert .raise ts = .error (.failure (.unparseable d.token d.position)) := by
  rw [convert_diagnostics hk h] at hd
  rcases convert_verdict .raise hk hb with ⟨hu, -⟩ | ⟨xs, t, ys, f, rfl, hu, hblocks, hf⟩
  · rw [flatMap_replaced_eq_nil_iff.mpr (isTerm_of_unblocked hu)] at hd
    cases hd
  · cases hblocks with
    | unmatched ht hx =>
      have hstop := convert_blocked (known_append.mp hk).1 hu.recover (.unmatched ht hx) ys
      rw [h] at hstop
      cases hstop
    | unparseable ht _ =>
      have hreport : t.replaced = [⟨t.text, t.position⟩] := by
        simp only [Token.replaced, Token.isTerm_iff.mp ht]
      rw [List.flatMap_append, flatMap_replaced_eq_nil_iff.mpr (isTerm_of_unblocked hu), List.flatMap_cons,
        hreport] at hd
      obtain rfl := (List.cons.inj hd).1
      exact hf

/-- Where a parenthesis without a partner is refused, it is refused under the other policy too, or a word that stands
before it is. -/
theorem convert_raise_of_unmatched (hk : Known ts) (hb : lefts ts = rights ts) {side : Paren} {q : Option Nat}
    (h : convert .recover ts = .error (.failure (.unmatched side q))) :
    convert .raise ts = .error (.failure (.unmatched side q)) ∨
      ∃ xs t ys, ts = xs ++ t :: ys ∧ t.isTerm = true ∧ (∃ r ∈ ys, q = r.position) ∧
        convert .raise ts = .error (.failure (.unparseable t.text t.position)) := by
  rcases convert_verdict .recover hk hb with ⟨-, out, hout, -⟩ | ⟨xs, r, ys, f, rfl, hu, hblocks, hf⟩
  · rw [hout] at h
    cases h
  · rw [hf] at h
    cases h
    have hkxs := (known_append.mp hk).1
    -- under the stricter policy a word may stop the conversion before the parenthesis is reached
    rcases nowhere_or_first (fun xs t => ∃ f, Blocks .raise xs t f) xs with hraise | ⟨xs', t, zs, rfl, hx, g, hg⟩
    · exact Or.inl (convert_blocked hkxs hraise hblocks.raise ys)
    · cases hg with
      | unmatched ht hle => exact absurd ⟨_, .unmatched ht hle⟩ (hu xs' t zs rfl)
      | unparseable ht hp =>
        rw [List.append_assoc, List.cons_append]
        have hq : q = r.position := by
          cases hblocks
          rfl
        exact Or.inr ⟨xs', t, zs ++ r :: ys, rfl, ht, ⟨r, by simp, hq⟩,
          convert_blocked (known_append.mp hkxs).1 hx (.unparseable ht hp) _⟩

end Conversion

/-! ## One value and several -/

namespace Evaluation

variable {x : Float}

theorem evaluate_eq_ok_iff {allowPartial : Bool} :
    evaluate allowPartial ts = .ok x ↔ ∃ rest, run [] ts = .ok (x :: rest) ∧ (rest = [] ∨ allowPartial = true) := by
  unfold evaluate
  cases run [] ts with
  | error e => simp
  | ok stack =>
    match stack with
    | [] => simp [top]
    | [y] => simp [top]
    | y :: z :: rest => cases allowPartial <;> simp [top]

/-- One value has to be left over, and is, where the operands are one more than the operators. -/
theorem evaluate_strict_iff (hp : ∀ t ∈ ts, Conversion.Plain t) :
    evaluate false ts = .ok x ↔ evaluate true ts = .ok x ∧ operands ts = operators ts + 1 := by
  rw [evaluate_eq_ok_iff, evaluate_eq_ok_iff]
  constructor
  · rintro ⟨rest, hrun, hrest⟩
    have hlen := length_of_run hp hrun
    obtain rfl : rest = [] := by simpa using hrest
    exact ⟨⟨[], hrun, Or.inl rfl⟩, hlen.symm⟩
  · rintro ⟨⟨rest, hrun, -⟩, hcount⟩
    have hlen := length_of_run hp hrun
    rw [List.length_cons, List.length_nil] at hlen
    exact ⟨rest, hrun, Or.inl (List.length_eq_zero_iff.mp (by omega))⟩

/-- What fails where several values may be left fails alike where one has to be. -/
theorem evaluate_strict_of_error {fault : Fault} (h : evaluate true ts = .error fault) :
    evaluate false ts = .error fault := by
  unfold evaluate at h ⊢
  cases hr : run [] ts with
  | error e => rwa [hr] at h
  | ok stack =>
    rw [hr] at h
    match stack, h with
    | [], h => exact h
    | [_], h => cases h
    | _ :: _ :: _, h => cases h

end Evaluation

/-! ## Calculations under the options -/

theorem exists_positions_lt {e : String} {xs ys : List Token} {s t : Token} (h : tokenize e = xs ++ s :: ys)
    (ht : t ∈ ys) : ∃ i j, s.position = some i ∧ t.position = some j ∧ i < j := by
  have hlt := position_lt_of_tokenize_eq h ht
  obtain ⟨i, hi, -⟩ := position_of_mem_scan (Nat.le_refl 0) (show s ∈ tokenize e by simp [h])
  obtain ⟨j, hj, -⟩ := position_of_mem_scan (Nat.le_refl 0) (show t ∈ tokenize e by simp [h, ht])
  rw [hi, hj] at hlt
  exact ⟨i, j, hi, hj, hlt⟩

namespace Calculation

/-- To refuse words gives the calculations that replace none. -/
theorem ofExpression_raise_iff (e : String) (allowPartial : Bool) (c : Calculation) :
    ofExpression ⟨.ok .raise, allowPartial⟩ e = .ok c ↔
      ofExpression ⟨.ok .recover, allowPartial⟩ e = .ok c ∧ c.diagnostics = [] := by
  rw [ofExpression_eq_ofTokens, ofExpression_eq_ofTokens, ofTokens_eq_ok_iff, ofTokens_eq_ok_iff]
  constructor
  · rintro ⟨hb, he, hts, policy, hp, hconv, heval⟩
    cases hp
    obtain ⟨hconv', hd⟩ := (Conversion.convert_raise_iff (known_tokenize e) hb).mp hconv
    exact ⟨⟨hb, he, hts, .recover, rfl, hconv', heval⟩, hd⟩
  · rintro ⟨⟨hb, he, hts, policy, hp, hconv, heval⟩, hd⟩
    cases hp
    exact ⟨hb, he, hts, .raise, rfl, (Conversion.convert_raise_iff (known_tokenize e) hb).mpr ⟨hconv, hd⟩, heval⟩

/-- To allow one value in the end gives the calculations with one more operand than operators. -/
theorem ofExpression_strict_iff (policy : Except Fault Policy) (e : String) (c : Calculation) :
    ofExpression ⟨policy, false⟩ e = .ok c ↔
      ofExpression ⟨policy, true⟩ e = .ok c ∧ operands (tokenize e) = operators (tokenize e) + 1 := by
  rw [ofExpression_eq_ofTokens, ofExpression_eq_ofTokens, ofTokens_eq_ok_iff, ofTokens_eq_ok_iff]
  have hcount : ∀ pol, lefts (tokenize e) = rights (tokenize e) → Conversion.convert pol (tokenize e) = .ok c.rpn →
      (Evaluation.evaluate false c.rpn.tokens = .ok c.result ↔ Evaluation.evaluate true c.rpn.tokens = .ok c.result ∧
        operands (tokenize e) = operators (tokenize e) + 1) := by
    intro pol hb hconv
    obtain ⟨hplain, ho, hr⟩ := Conversion.convert_keeps (known_tokenize e) hb hconv
    rw [Evaluation.evaluate_strict_iff hplain, ho, hr]
  constructor
  · rintro ⟨hb, he, hts, pol, hp, hconv, heval⟩
    obtain ⟨heval', hn⟩ := (hcount pol hb hconv).mp heval
    exact ⟨⟨hb, he, hts, pol, hp, hconv, heval'⟩, hn⟩
  · rintro ⟨⟨hb, he, hts, pol, hp, hconv, heval⟩, hn⟩
    exact ⟨hb, he, hts, pol, hp, hconv, (hcount pol hb hconv).mpr ⟨heval, hn⟩⟩

/-- What fails where several values may be left fails alike where one has to be. -/
theorem ofExpression_strict_of_error {policy : Except Fault Policy} {e : String} {fault : Fault}
    (h : ofExpression ⟨policy, true⟩ e = .error fault) : ofExpression ⟨policy, false⟩ e = .error fault := by
  rw [ofExpression_eq_ofTokens] at h ⊢
  cases policy with
  | error g => exact h
  | ok pol =>
    rw [ofTokens_eq_error_iff rfl] at h ⊢
    refine h.imp_right (Or.imp_right ?_)
    rintro ⟨hb, out, hconv, heval⟩
    exact ⟨hb, out, hconv, Evaluation.evaluate_strict_of_error heval⟩

/-- How the calculations of an expression under the options depend on each other.

- To refuse words gives the calculations that replace none.
- If as many left as right parentheses are there, the first word that a conversion replaces is the one that is refused,
  and a parenthesis that stops it stops a calculation that refuses words, unless a word before the parenthesis does.
- To allow one value in the end gives the calculations of expressions with one more operand than operators, and what
  fails where several are allowed fails alike where one is. -/
theorem ofExpression_strictness (e : String) :
    (∀ allowPartial c, ofExpression ⟨.ok .raise, allowPartial⟩ e = .ok c ↔
        ofExpression ⟨.ok .recover, allowPartial⟩ e = .ok c ∧ c.diagnostics = []) ∧
      (e.toList.count '(' = e.toList.count ')' → ∀ allowPartial,
        (∀ out d ds, Conversion.convert .recover (tokenize e) = .ok out → out.diagnostics = d :: ds →
          ofExpression ⟨.ok .raise, allowPartial⟩ e = .error (.failure (.unparseable d.token d.position))) ∧
        ∀ side q, Conversion.convert .recover (tokenize e) = .error (.failure (.unmatched side q)) →
          ofExpression ⟨.ok .raise, allowPartial⟩ e = .error (.failure (.unmatched side q)) ∨
            ∃ t ∈ tokenize e, t.isTerm = true ∧ (∃ i j, t.position = some i ∧ q = some j ∧ i < j) ∧
              ofExpression ⟨.ok .raise, allowPartial⟩ e = .error (.failure (.unparseable t.text t.position))) ∧
      (∀ policy c, ofExpression ⟨policy, false⟩ e = .ok c ↔
        ofExpression ⟨policy, true⟩ e = .ok c ∧ operands (tokenize e) = operators (tokenize e) + 1) ∧
      ∀ policy fault, ofExpression ⟨policy, true⟩ e = .error fault → ofExpression ⟨policy, false⟩ e = .error fault := by
  refine ⟨ofExpression_raise_iff e, ?_, fun policy c => ofExpression_strict_iff policy e c,
    fun _ _ => ofExpression_strict_of_error⟩
  intro hcount allowPartial
  have hk := known_tokenize e
  have hb : lefts (tokenize e) = rights (tokenize e) := isBalanced_iff.mp (by simpa [isBalanced] using hcount)
  have hstopped : ∀ fault, Conversion.convert .raise (tokenize e) = .error fault →
      ofExpression ⟨.ok .raise, allowPartial⟩ e = .error fault := by
    intro fault hf
    rw [ofExpression_eq_ofTokens]
    exact ofTokens_stopped hb rfl hf
  constructor
  · intro out d ds hconv hd
    exact hstopped _ (Conversion.convert_raise_of_reported hk hb hconv hd)
  · intro side q hconv
    rcases Conversion.convert_raise_of_unmatched hk hb hconv with hf | ⟨xs, t, ys, hsplit, ht, ⟨r, hr, rfl⟩, hf⟩
    · exact Or.inl (hstopped _ hf)
    · exact Or.inr ⟨t, by simp [hsplit], ht, exists_positions_lt hsplit hr, hstopped _ hf⟩

/-- The word is refused although the evaluation would fail, and also when a parenthesis without a partner follows. -/
theorem ofExpression_strictness_underflow :
    ofExpression ⟨.ok .recover, true⟩ "x +" = .error (.failure (.underflow "+" 1)) ∧
      ofExpression ⟨.ok .recover, false⟩ "x +" = .error (.failure (.underflow "+" 1)) ∧
      ofExpression ⟨.ok .raise, true⟩ "x +" = .error (.failure (.unparseable "x" (some 0))) ∧
      Conversion.convert .recover (tokenize "x ) (") = .error (.failure (.unmatched .right (some 2))) ∧
      ∃ t ∈ tokenize "x ) (", t.isTerm = true ∧ (∃ i j, t.position = some i ∧ some 2 = some j ∧ i < j) ∧
        ofExpression ⟨.ok .raise, true⟩ "x ) (" = .error (.failure (.unparseable t.text t.position)) := by
  obtain ⟨-, hraise, -, hstrict⟩ := ofExpression_strictness "x +"
  have hunder : ofExpression ⟨.ok .recover, true⟩ "x +" = .error (.failure (.underflow "+" 1)) := by
    apply eq_error_of_map Calculation.result
    decide +kernel
  have hreport : (Conversion.convert .recover (tokenize "x +")).map Postfix.diagnostics = .ok [⟨"x", some 0⟩] := by
    decide +kernel
  have hunmatched :
      Conversion.convert .recover (tokenize "x ) (") = .error (.failure (.unmatched .right (some 2))) := by
    apply eq_error_of_map Postfix.diagnostics
    decide +kernel
  refine ⟨hunder, hstrict _ _ hunder, ?_, hunmatched, ?_⟩
  · cases hconv : Conversion.convert .recover (tokenize "x +") with
    | error fault =>
      rw [hconv] at hreport
      cases hreport
    | ok out =>
      rw [hconv] at hreport
      exact (hraise (by decide) true).1 out _ _ hconv (Except.ok.inj hreport)
  · rcases ((ofExpression_strictness "x ) (").2.1 (by decide) true).2 _ _ hunmatched with h | h
    · have hrefused : ofExpression ⟨.ok .raise, true⟩ "x ) (" = .error (.failure (.unparseable "x" (some 0))) := by
        apply eq_error_of_map Calculation.result
        decide +kernel
      cases hrefused.symm.trans h
    · exact h

end Calculation

end InfixCalculator
