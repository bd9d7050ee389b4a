import InfixCalculator.Proofs.Classification
import InfixCalculator.Proofs.Output
import InfixCalculator.Proofs.Partition
import InfixCalculator.Proofs.Stages

/-!
# Where reports and output point

- `sources` are the operands and operators among tokens;
- `step_perm`, `run_perm`: what is put out or waits, left parentheses apart, is posted for these, once for each of them;
  `convert_perm` says so of whole conversions;
- `mem_terms_iff`: the terms among the tokens are the longest words that are no operators, constants or numbers;
- `convert_located`: a conversion reports just these, in the order of the text and as it has them at their positions, and
  the positions of its output are those of the sources.
-/

namespace InfixCalculator

/-- The operands and operators among the tokens. -/
def sources (ts : List Token) : List Token :=
  ts.filter fun t => t.isOperand || t.isOperator

variable {ts w w' : List Token} {t : Token} {policy : Policy} {out : Postfix}

/-- The tokens that wait for the output: all but the left parentheses. -/
def pending (w : List Token) : List Token :=
  w.filter fun t => !t.isLeftParen

theorem position_posted (t : Token) : t.posted.position = t.position := by
  cases h : t.kind <;> simp [Token.posted, Token.ofNumber, h]

theorem pending_append (a b : List Token) : pending (a ++ b) = pending a ++ pending b :=
  List.filter_append ..

theorem pending_eq_self (h : ∀ s ∈ w, s.isLeftParen = false) : pending w = w := by
  rw [pending, List.filter_eq_self]
  intro s hs
  rw [h s hs]
  rfl

theorem pending_cons_left {l : Token} (h : l.isLeftParen = true) (w : List Token) : pending (l :: w) = pending w :=
  List.filter_cons_of_neg (by simp [h])

theorem sources_singleton (h : t.isOperand = true ∨ t.isOperator = true) : sources [t] = [t] := by
  rcases h with h | h <;> simp [sources, h]

theorem sources_paren (h : t.isOperand = false) (h' : t.isOperator = false) : sources [t] = [] := by
  simp [sources, h, h']

namespace Conversion

/-! ## The output is made of the sources -/

/-- A step puts out or keeps waiting what waited before, and what is posted for the token. -/
theorem step_perm (hw : Stacked w) (ht : t.isOperator = true → ∃ op, t.operator? = some op)
    (h : step policy w t = .ok (out, w')) :
    (out.tokens ++ pending w').Perm (pending w ++ (sources [t]).map Token.posted) := by
  have hm := step_moves policy hw ht
  rw [h] at hm
  cases hm with
  | opens hp =>
    obtain ⟨ho, hop, -⟩ := Token.of_isLeftParen hp
    rw [sources_paren ho hop, pending_cons_left hp]
    simp
  | closes hp he hg hl =>
    obtain ⟨ho, hop, -⟩ := Token.of_isRightParen hp
    rw [sources_paren ho hop, he, pending_append, pending_eq_self hg, pending_cons_left hl]
    simp
  | @operator op hop =>
    have hisop := Token.isOperator_of_operator? hop
    have hgone : ∀ s ∈ w.takeWhile (leaves op), s.isLeftParen = false := fun s hs =>
      isLeftParen_of_leaves (List.mem_takeWhile_imp hs)
    have hsplit : pending w = w.takeWhile (leaves op) ++ pending (w.dropWhile (leaves op)) := by
      conv => lhs; rw [← List.takeWhile_append_dropWhile (p := leaves op) (l := w)]
      rw [pending_append, pending_eq_self hgone]
    have hhead : pending (t :: w.dropWhile (leaves op)) = t :: pending (w.dropWhile (leaves op)) :=
      List.filter_cons_of_pos (by simp [Token.isLeftParen_of_operator? hop])
    rw [sources_singleton (Or.inr hisop), List.map_singleton, Token.posted_of_operator hisop, hsplit, hhead,
      List.append_assoc]
    exact (List.perm_append_singleton t _).symm.append_left _
  | operand ho _ =>
    rw [sources_singleton (Or.inl ho), List.map_singleton]
    exact (List.perm_append_singleton t.posted _).symm

theorem sources_cons (t : Token) (ts : List Token) : sources (t :: ts) = sources [t] ++ sources ts :=
  List.filter_append [t] ts

/-- A run puts out or keeps waiting what waited before, and what is posted for the operands and operators. -/
theorem run_perm (hk : Known ts) (hw : Stacked w) (h : run policy w ts = ⟨out, .ok w'⟩) :
    (out.tokens ++ pending w').Perm (pending w ++ (sources ts).map Token.posted) := by
  induction ts generalizing w out with
  | nil =>
    simp only [run, Run.mk.injEq, Except.ok.injEq] at h
    obtain ⟨rfl, rfl⟩ := h
    simp [sources]
  | cons t ts ih =>
    have ht := hk t List.mem_cons_self
    cases hs : step policy w t with
    | error e => simp [run_cons_error hs] at h
    | ok r =>
      obtain ⟨out₁, w₁⟩ := r
      rw [run_cons hs, Run.mk.injEq] at h
      obtain ⟨rfl, he⟩ := h
      have hstep := step_perm hw ht hs
      have hrun := ih hk.tail (step_stacked hw ht hs) (show run policy w₁ ts = ⟨_, .ok w'⟩ by rw [← he])
      have hrest := hrun.append_left out₁.tokens
      rw [← List.append_assoc out₁.tokens (pending w₁)] at hrest
      rw [Postfix.tokens_append, List.append_assoc, sources_cons, List.map_append, ← List.append_assoc (pending w)]
      exact hrest.trans (hstep.append_right _)

/-- What a conversion puts out is what is posted for the operands and operators, in some order. -/
theorem convert_perm (hk : Known ts) (h : convert policy ts = .ok out) :
    out.tokens.Perm ((sources ts).map Token.posted) := by
  obtain ⟨before, w, hr, hnone, rfl⟩ := convertFrom_eq_ok_iff.mp h
  have hrun := run_perm hk stacked_nil hr
  rwa [pending_eq_self hnone] at hrun

end Conversion

/-! ## What is reported -/

/-- The text has no value as a word: it is no operator, no name of the constant and no number. -/
def Unvalued (text : String) : Prop :=
  text ≠ "POWER" ∧ text ≠ "SQRT" ∧ ¬IsConstantName text ∧ ¬IsNumber text

variable {cs word : List Char} {p : Nat} {e : String}

/-- Without delimiters, the symbols of operators are two. -/
theorem isSymbol_iff (h : ∀ c ∈ word, c ∉ delimiters) :
    IsSymbol (String.ofList word) ↔ String.ofList word = "POWER" ∨ String.ofList word = "SQRT" := by
  have hno : ∀ c ∈ delimiters, String.ofList word ≠ String.singleton c := by
    intro c hc hword
    obtain rfl : word = [c] := by simpa using congrArg String.toList hword
    exact h c List.mem_cons_self hc
  constructor
  · intro hs
    simp only [IsSymbol, List.mem_cons, List.not_mem_nil, or_false] at hs
    rcases hs with hs | hs | hs | hs | hs | hs | hs
    · exact Or.inr hs
    · exact Or.inl hs
    · exact absurd hs (hno '*' (by decide))
    · exact absurd hs (hno '/' (by decide))
    · exact absurd hs (hno '%' (by decide))
    · exact absurd hs (hno '+' (by decide))
    · exact absurd hs (hno '-' (by decide))
  · rintro (hs | hs) <;> rw [hs] <;> simp [IsSymbol]

theorem kindOf_run_iff (h : IsRun cs p word) : kindOf word = .term ↔ Unvalued (String.ofList word) := by
  have hterm := @kindOf_term_iff (String.ofList word)
  rw [String.toList_ofList] at hterm
  rw [hterm, isSymbol_iff h.unbroken, not_or, and_assoc]
  rfl

/-- The terms among the tokens are the longest words without a value. -/
theorem mem_terms_iff :
    t ∈ (tokenize e).filter Token.isTerm ↔
      ∃ p word, IsRun e.toList p word ∧ Unvalued (String.ofList word) ∧ t = classify word (some p) := by
  rw [List.mem_filter, mem_tokenize_iff, Token.isTerm_iff]
  constructor
  · rintro ⟨ht, hterm⟩
    cases ht with
    | mark hc hk =>
      have hkind : delimiterKind? _ = some .term := hk.trans (congrArg some hterm)
      unfold delimiterKind? at hkind
      split at hkind <;> cases hkind
    | word h => exact ⟨_, _, h, (kindOf_run_iff h).mp hterm, rfl⟩
  · rintro ⟨p, word, h, hno, rfl⟩
    exact ⟨.word h, (kindOf_run_iff h).mpr hno⟩

/-- The reports on an expression, and where its output comes from. -/
structure Located (e : String) (out : Postfix) : Prop where
  /-- There is a report for each longest word without a value, and for nothing else. -/
  reported : ∀ d, d ∈ out.diagnostics ↔
    ∃ p word, IsRun e.toList p word ∧ Unvalued (String.ofList word) ∧ d = ⟨String.ofList word, some p⟩
  increasing : out.diagnostics.Pairwise fun c d => c.position < d.position
  quoted : ∀ d ∈ out.diagnostics, ∃ p, d.position = some p ∧
    e.toList.extract p (p + d.token.length) = d.token.toList
  /-- Every token of the output is that of one operand or operator, or stands for it at its position. -/
  posted : out.tokens.Perm ((sources (tokenize e)).map Token.posted)
  kept : ∀ t ∈ sources (tokenize e), t.posted.position = t.position
  positions : (out.tokens.map Token.position).Perm ((sources (tokenize e)).map Token.position)

/-- A conversion that replaces words without a value reports each of them where it stands, in their order, and puts the
operands and operators out with their positions; and a calculation takes its reports and its output from there. -/
theorem convert_located (h : Conversion.convert .recover (tokenize e) = .ok out) :
    Located e out ∧ ∀ allowPartial c, Calculation.ofExpression ⟨.ok .recover, allowPartial⟩ e = .ok c →
      c.diagnostics = out.diagnostics ∧ c.rpn = out := by
  have hterms : out.diagnostics = ((tokenize e).filter Token.isTerm).map Token.diagnostic := by
    rw [Conversion.convert_diagnostics (known_tokenize e) h, flatMap_replaced]
  have hperm := Conversion.convert_perm (known_tokenize e) h
  have hreported : ∀ d, d ∈ out.diagnostics ↔
      ∃ p word, IsRun e.toList p word ∧ Unvalued (String.ofList word) ∧ d = ⟨String.ofList word, some p⟩ := by
    intro d
    rw [hterms, List.mem_map]
    constructor
    · rintro ⟨t, ht, rfl⟩
      obtain ⟨p, word, hrun, hno, rfl⟩ := mem_terms_iff.mp ht
      exact ⟨p, word, hrun, hno, rfl⟩
    · rintro ⟨p, word, hrun, hno, rfl⟩
      exact ⟨classify word (some p), mem_terms_iff.mpr ⟨p, word, hrun, hno, rfl⟩, rfl⟩
  refine ⟨⟨hreported, ?_, ?_, hperm, fun t _ => position_posted t, ?_⟩, ?_⟩
  · rw [hterms, List.pairwise_map]
    exact (tokenize_increasing e).filter _
  · intro d hd
    obtain ⟨p, word, hrun, -, rfl⟩ := (hreported d).mp hd
    exact ⟨p, rfl, by simpa using hrun.written⟩
  · have hposition : Token.position ∘ Token.posted = Token.position := funext position_posted
    have hmap := hperm.map Token.position
    rwa [List.map_map, hposition] at hmap
  · intro allowPartial c hc
    rw [Calculation.ofExpression_eq_ofTokens, Calculation.ofTokens_eq_ok_iff] at hc
    obtain ⟨-, -, -, policy, hp, hconv, -⟩ := hc
    obtain rfl := Except.ok.inj hp
    obtain rfl := Except.ok.inj (hconv.symm.trans h)
    exact ⟨rfl, rfl⟩

/-- Two words without a value, in a group and before it. -/
theorem convert_located_group :
    ∃ out, Conversion.convert .recover (tokenize "2..5 * (PI - sqrt)") = .ok out ∧
      out.diagnostics = [⟨"2..5", some 0⟩, ⟨"sqrt", some 13⟩] ∧ Located "2..5 * (PI - sqrt)" out := by
  have hreports : (Conversion.convert .recover (tokenize "2..5 * (PI - sqrt)")).map Postfix.diagnostics =
      .ok [⟨"2..5", some 0⟩, ⟨"sqrt", some 13⟩] := by decide +kernel
  obtain ⟨out, hout, hdiagnostics⟩ := exists_ok_of_map Postfix.diagnostics hreports
  exact ⟨out, hout, hdiagnostics, (convert_located hout).1⟩

end InfixCalculator
