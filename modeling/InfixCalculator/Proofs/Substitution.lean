import InfixCalculator.Proofs.Literals
import InfixCalculator.Proofs.Output
import InfixCalculator.Proofs.Respelling

/-!
# Words replaced in the text

- `withZeros e` is the expression with each word that has no value replaced in place by the digit zero;
- `tokenize_withZeros`: its tokens are those of the expression with the number zero for each such word, positions apart;
- `convert_zeroed`: a conversion that refuses words does with these tokens what one that replaces words does with the
  tokens of the expression, except that it reports nothing;
- `answer_withZeros`: the two policies have one answer for the two texts.
-/

namespace InfixCalculator

/-! ## The text -/

/-- The text from position `p` on, with the texts of tokens in it, from left to right, replaced by the digit zero. -/
def replaceTexts (p : Nat) (cs : List Char) : List Token → List Char
  | [] => cs
  | t :: ts =>
    let start := t.position.getD p
    let next := start + t.text.toList.length
    cs.take (start - p) ++ '0' :: replaceTexts next (cs.drop (next - p)) ts

/-- The expression with the text of each word without a value replaced by the digit zero. -/
def withZeros (e : String) : String :=
  String.ofList (replaceTexts 0 e.toList ((tokenize e).filter Token.isTerm))

/-- The number zero for a word without a value; any other token is kept. -/
def Token.zeroed (t : Token) : Token :=
  if t.isTerm then Conversion.substitute t.position else t

/-- The digit zero for a word without a value; any other word is kept. -/
def zeroedWord (w : List Char) : List Char :=
  if w ≠ [] ∧ (classify w none).isTerm = true then ['0'] else w

/-- What stands before all of the texts is kept. -/
theorem replaceTexts_append {p : Nat} (xs ys : List Char) {ts : List Token}
    (h : ∀ t ∈ ts, ∃ q, t.position = some q ∧ p + xs.length ≤ q) :
    replaceTexts p (xs ++ ys) ts = xs ++ replaceTexts (p + xs.length) ys ts := by
  cases ts with
  | nil => rfl
  | cons t ts =>
    obtain ⟨q, hq, hle⟩ := h t List.mem_cons_self
    have htake : q - p = xs.length + (q - (p + xs.length)) := by omega
    have hdrop : q + t.text.toList.length - p = xs.length + (q + t.text.toList.length - (p + xs.length)) := by omega
    simp only [replaceTexts, hq, Option.getD_some]
    rw [htake, hdrop, List.take_length_add_append, List.drop_length_add_append, List.append_assoc]

/-- A text that stands at the front is replaced. -/
theorem replaceTexts_front {p : Nat} {t : Token} (hp : t.position = some p) (cs : List Char) (ts : List Token) :
    replaceTexts p (t.text.toList ++ cs) (t :: ts) = '0' :: replaceTexts (p + t.text.toList.length) cs ts := by
  have hnext : p + t.text.toList.length - p = t.text.toList.length := by omega
  simp only [replaceTexts, hp, Option.getD_some, hnext, List.drop_left, Nat.sub_self, List.take_zero, List.nil_append]

/-- A word is replaced, or kept, whatever follows it. -/
theorem replaceTexts_word {w : List Char} (hw : Unbroken w) (p : Nat) (cs : List Char) {ts : List Token}
    (h : ∀ t ∈ ts, ∃ q, t.position = some q ∧ p + w.length ≤ q) :
    replaceTexts p (w ++ cs) ((scan p [] w).filter Token.isTerm ++ ts) =
      zeroedWord w ++ replaceTexts (p + w.length) cs ts := by
  rw [scan_unbroken hw]
  unfold zeroedWord
  by_cases hne : w = []
  · subst hne
    simp
  · have hsame : (classify w (some p)).isTerm = (classify w none).isTerm := rfl
    cases hterm : (classify w none).isTerm with
    | false =>
      rw [if_neg hne, List.filter_cons_of_neg (by simp [hsame, hterm]), if_neg (by simp)]
      exact replaceTexts_append w cs h
    | true =>
      have htext : (classify w (some p)).text.toList = w := String.toList_ofList
      have hfront := replaceTexts_front (t := classify w (some p)) rfl cs ts
      rw [htext] at hfront
      rw [if_neg hne, List.filter_cons_of_pos (by simp [hsame, hterm]), if_pos ⟨hne, rfl⟩]
      exact hfront

/-! ## Its tokens -/

namespace Token

theorem zeroed_eq_self {t : Token} (h : t.isTerm = false) : t.zeroed = t := by
  simp [zeroed, h]

theorem zeroed_of_isTerm {t : Token} (h : t.isTerm = true) : t.zeroed = Conversion.substitute t.position :=
  if_pos h

end Token

theorem isTerm_delimiterTokens {c : Char} {p : Nat} {t : Token} (ht : t ∈ delimiterTokens p c) : t.isTerm = false := by
  have ho := isOperand_delimiterTokens ht
  cases hk : t.kind <;> simp_all [Token.isOperand, Token.isTerm]

theorem kindOf_zero : kindOf ['0'] = .number 0 := by
  rw [← Literal.value_zero]
  exact kindOf_text Literal.zero

/-- The token of a word with its text replaced is the token of the word, replaced. -/
theorem scan_zeroedWord {w : List Char} (hw : Unbroken w) (p q : Nat) :
    (scan q [] (zeroedWord w)).map Token.unplaced = ((scan p [] w).map Token.zeroed).map Token.unplaced := by
  by_cases h : w ≠ [] ∧ (classify w none).isTerm = true
  · have hzero : Unbroken ['0'] := by
      intro c hc
      rw [List.mem_singleton.mp hc]
      decide
    have hterm : (classify w (some p)).isTerm = true := h.2
    rw [zeroedWord, if_pos h, scan_unbroken hzero, scan_unbroken hw, if_neg (by simp), if_neg h.1,
      List.map_singleton, List.map_singleton, List.map_singleton, Token.zeroed_of_isTerm hterm, classify, kindOf_zero]
    rfl
  · have hself : (scan p [] w).map Token.zeroed = scan p [] w := by
      rw [scan_unbroken hw]
      split
      · rfl
      · next hne =>
        have hterm : (classify w (some p)).isTerm = false := by
          rw [Bool.eq_false_iff]
          exact fun ht => h ⟨hne, ht⟩
        rw [List.map_singleton, Token.zeroed_eq_self hterm]
    rw [zeroedWord, if_neg h, hself]
    exact unplaced_scan q p w

/-- Replacing the texts of the words without a value replaces their tokens, wherever the two texts stand. -/
theorem scan_replaceTexts (cs : List Char) (p q : Nat) :
    (scan q [] (replaceTexts p cs ((scan p [] cs).filter Token.isTerm))).map Token.unplaced =
      ((scan p [] cs).map Token.zeroed).map Token.unplaced := by
  -- behind a replaced word the two texts are out of step, so each has a position of its own
  induction cs using segments_induction generalizing p q with
  | word w hw =>
    have hnone : ∀ t ∈ ([] : List Token), ∃ r, t.position = some r ∧ p + w.length ≤ r := by simp
    have hword := replaceTexts_word hw p [] hnone
    rw [List.append_nil, List.append_nil] at hword
    rw [hword, replaceTexts, List.append_nil]
    exact scan_zeroedWord hw p q
  | cut w d cs hw hd ih =>
    have hdelim : (delimiterTokens (p + w.length) d).filter Token.isTerm = [] := by
      rw [List.filter_eq_nil_iff]
      intro t ht
      simp [isTerm_delimiterTokens ht]
    have hafter : ∀ t ∈ (scan (p + w.length + 1) [] cs).filter Token.isTerm,
        ∃ r, t.position = some r ∧ p + w.length + 1 ≤ r := by
      intro t ht
      obtain ⟨r, hr, hle, -⟩ := position_of_mem_scan (Nat.zero_le _) (List.mem_filter.mp ht).1
      exact ⟨r, hr, by simpa using hle⟩
    have hkeep := replaceTexts_append [d] cs hafter
    have hword := replaceTexts_word hw p (d :: cs) fun t ht => (hafter t ht).imp fun r hr => ⟨hr.1, by omega⟩
    have hself : (delimiterTokens (p + w.length) d).map Token.zeroed = delimiterTokens (p + w.length) d := by
      rw [List.map_congr_left fun t ht => Token.zeroed_eq_self (isTerm_delimiterTokens ht), List.map_id']
    rw [List.singleton_append, List.singleton_append, List.length_singleton] at hkeep
    rw [scan_append_delimiter hd, List.filter_append, List.filter_append, hdelim, List.append_nil, hword, hkeep,
      scan_append_delimiter hd]
    simp only [List.map_append]
    rw [scan_zeroedWord hw p, hself, ih, unplaced_delimiterTokens]

/-- The tokens of the expression with zeros are its tokens with zeros, positions apart. -/
theorem tokenize_withZeros (e : String) :
    (tokenize (withZeros e)).map Token.unplaced = ((tokenize e).map Token.zeroed).map Token.unplaced := by
  have htext : (withZeros e).toList = replaceTexts 0 e.toList ((scan 0 [] e.toList).filter Token.isTerm) :=
    String.toList_ofList
  rw [tokenize, htext]
  exact scan_replaceTexts e.toList 0 0

example : withZeros "2+x*(yy )" = "2+0*(0 )" := by decide +kernel

/-! ## The two conversions -/

namespace Conversion

/-- The same output, without reports. -/
def silenced (out : Postfix) : Postfix :=
  ⟨out.tokens, []⟩

/-- Zeros in place of words, as a change that shows in a conversion: not in what waits, and not in a fault. -/
def zeroing : Change where
  tokens := Token.zeroed
  waiting := id
  output := silenced
  fault := id
  output_empty := rfl
  output_append _ _ := rfl

theorem step_zeroed (w : List Token) (t : Token) :
    step .raise w t.zeroed = zeroing.step (step .recover w t) := by
  cases ht : t.isTerm with
  | true =>
    rw [Token.zeroed_of_isTerm ht]
    simp only [step, Token.isTerm_iff.mp ht]
    rfl
  | false =>
    rw [Token.zeroed_eq_self ht]
    cases hk : t.kind with
    | term => simp [Token.isTerm, hk] at ht
    | leftParen | number x | constant x =>
      simp only [step, hk]
      rfl
    | rightParen =>
      simp only [step, hk]
      cases closed? w <;> rfl
    | operator =>
      simp only [step, hk]
      cases released t.text w <;> rfl

theorem finish_zeroed (w : List Token) : finish w = zeroing.convert (finish w) := by
  unfold finish
  split <;> rfl

/-- With zeros in place of words, the conversion that refuses words puts out what the conversion that replaces them
puts out of the words, and fails as that does. -/
theorem convert_zeroed (ts : List Token) :
    convert .raise (ts.map Token.zeroed) = zeroing.convert (convert .recover ts) :=
  zeroing.convertFrom_eq (fun w t _ => step_zeroed w t) finish_zeroed []

/-- Where as many left as right parentheses are there, a conversion that replaces words refuses none. -/
theorem convert_ne_unparseable {ts : List Token} (hk : Known ts) (hb : lefts ts = rights ts) (word : String)
    (p : Option Nat) : convert .recover ts ≠ .error (.failure (.unparseable word p)) := by
  intro h
  rcases convert_verdict .recover hk hb with ⟨-, out, hout, -⟩ | ⟨xs, t, ys, f, -, -, hblocks, hf⟩
  · rw [hout] at h
    cases h
  · rw [hf] at h
    cases hblocks with
    | unmatched _ _ => cases h
    | unparseable _ hp => cases hp

end Conversion

/-! ## The two calculations -/

namespace Calculation

theorem lefts_zeroed (ts : List Token) : lefts (ts.map Token.zeroed) = lefts ts := by
  unfold lefts
  rw [List.countP_map]
  refine List.countP_congr fun t _ => ?_
  cases hk : t.kind <;> simp [Token.zeroed, Token.isTerm, Token.isLeftParen, hk, Conversion.substitute, Token.ofNumber]

theorem rights_zeroed (ts : List Token) : rights (ts.map Token.zeroed) = rights ts := by
  unfold rights
  rw [List.countP_map]
  refine List.countP_congr fun t _ => ?_
  cases hk : t.kind <;> simp [Token.zeroed, Token.isTerm, Token.isRightParen, hk, Conversion.substitute, Token.ofNumber]

/-- With zeros in place of words, the policy to refuse words has the answer that the policy to replace them has for the
words. -/
theorem answer_ofTokens_zeroed (e e' : String) (ts : List Token) (allowPartial : Bool) :
    answer (ofTokens ⟨.ok .raise, allowPartial⟩ e' (ts.map Token.zeroed)) =
      answer (ofTokens ⟨.ok .recover, allowPartial⟩ e ts) := by
  unfold ofTokens
  rw [lefts_zeroed, rights_zeroed]
  split
  · simp only [Except.bind, Conversion.convert_zeroed]
    cases Conversion.convert .recover ts with
    | error fault => rfl
    | ok out =>
      show answer ((Evaluation.evaluate allowPartial out.tokens).map _) =
        answer ((Evaluation.evaluate allowPartial out.tokens).map _)
      cases Evaluation.evaluate allowPartial out.tokens <;> rfl
  · rfl

/-- A calculation that replaces words refuses none. -/
theorem ofTokens_ne_unparseable {ts : List Token} (hk : Known ts) (e : String) (allowPartial : Bool)
    (word : String) (p : Option Nat) :
    ofTokens ⟨.ok .recover, allowPartial⟩ e ts ≠ .error (.failure (.unparseable word p)) := by
  intro h
  rcases (ofTokens_eq_error_iff rfl).mp h with ⟨-, hf⟩ | ⟨hb, hc⟩ | ⟨-, out, -, hx⟩
  · cases hf
  · exact Conversion.convert_ne_unparseable hk hb word p hc
  · have hnone := Evaluation.relocate_of_evaluate (fun _ => none) hx
    have hzero := Evaluation.relocate_of_evaluate (fun _ => some 0) hx
    simp only [Fault.relocate, Failure.relocate, Fault.failure.injEq, Failure.unparseable.injEq, true_and]
      at hnone hzero
    cases hnone.trans hzero.symm

theorem relocate_unparseable {fault : Fault} {word : String} {p : Option Nat} {f : Option Nat → Option Nat}
    (h : fault.relocate f = .failure (.unparseable word p)) : ∃ q, fault = .failure (.unparseable word q) := by
  cases fault with
  | failure g => cases g <;> simp_all [Fault.relocate, Failure.relocate]
  | unknownOperator u => cases h
  | unknownPolicy given => cases h

/-- To replace words without a value comes to the same as to refuse such words in the expression with zeros, where
there are none. -/
theorem answer_withZeros (e : String) (allowPartial : Bool) :
    answer (ofExpression ⟨.ok .raise, allowPartial⟩ (withZeros e)) =
        answer (ofExpression ⟨.ok .recover, allowPartial⟩ e) ∧
      ∀ word p, ofExpression ⟨.ok .raise, allowPartial⟩ (withZeros e) ≠ .error (.failure (.unparseable word p)) := by
  have hanswer : answer (ofExpression ⟨.ok .raise, allowPartial⟩ (withZeros e)) =
      answer (ofExpression ⟨.ok .recover, allowPartial⟩ e) := by
    rw [ofExpression_eq_ofTokens, ofExpression_eq_ofTokens,
      answer_ofTokens_congr (e := withZeros e) (tokenize_withZeros e) .raise allowPartial]
    exact answer_ofTokens_zeroed e (withZeros e) (tokenize e) allowPartial
  refine ⟨hanswer, ?_⟩
  intro word p h
  rw [h, ofExpression_eq_ofTokens] at hanswer
  cases hr : ofTokens ⟨.ok .recover, allowPartial⟩ e (tokenize e) with
  | ok c =>
    rw [hr] at hanswer
    cases hanswer
  | error fault =>
    rw [hr] at hanswer
    obtain ⟨q, rfl⟩ := relocate_unparseable (Except.error.inj hanswer).symm
    exact ofTokens_ne_unparseable (known_tokenize e) e allowPartial word q hr

end Calculation

end InfixCalculator
