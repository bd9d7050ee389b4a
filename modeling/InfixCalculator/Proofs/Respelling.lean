import InfixCalculator.Proofs.Segments
import InfixCalculator.Proofs.Stages
import Mathlib.Data.List.Basic

/-!
# Other spellings of an expression

- `ofTokens_relocate`: the calculation of tokens at other positions is the same calculation, with all that it reports at
  the other positions;
- `Calculation.answer` is what is left of a calculation without positions, and tokens that differ in positions only
  have one answer (`answer_ofTokens_congr`);
- `ofExpression_spaced`: spaces put in where an expression is parted change nothing but the positions after them.
-/

namespace InfixCalculator

/-! ## Evaluations see no positions -/

namespace Evaluation

variable (f : Option Nat → Option Nat) {fault : Fault}

theorem evaluate_relocate (allowPartial : Bool) (ts : List Token) :
    evaluate allowPartial (ts.map (Token.relocate f)) = evaluate allowPartial ts := by
  unfold evaluate
  rw [run_relocate]

/-- Tokens that differ in positions only have one value. -/
theorem evaluate_congr {ts ts' : List Token} (h : ts'.map Token.unplaced = ts.map Token.unplaced)
    (allowPartial : Bool) : evaluate allowPartial ts' = evaluate allowPartial ts := by
  rw [← evaluate_relocate (fun _ => none) allowPartial ts, ← evaluate_relocate (fun _ => none) allowPartial ts']
  exact congrArg (evaluate allowPartial) h

theorem relocate_of_step {stack : List Float} {t : Token} (h : step stack t = .error fault) :
    fault.relocate f = fault := by
  unfold step at h
  split at h
  · cases h
  · split at h
    · split at h <;> cases h
      rfl
    · cases h
      rfl
  · cases h
    rfl

theorem relocate_of_run {ts : List Token} {stack : List Float} (h : run stack ts = .error fault) :
    fault.relocate f = fault := by
  induction ts generalizing stack with
  | nil => cases h
  | cons t ts ih =>
    cases hs : step stack t with
    | ok stack' => exact ih (by rwa [run_cons hs] at h)
    | error e =>
      simp only [run, hs, Except.error.injEq] at h
      exact relocate_of_step f (h ▸ hs)

/-- No fault of an evaluation has a position. -/
theorem relocate_of_evaluate {allowPartial : Bool} {ts : List Token} (h : evaluate allowPartial ts = .error fault) :
    fault.relocate f = fault := by
  unfold evaluate at h
  split at h
  · unfold top at h
    split at h
    · cases h
      rfl
    · cases h
    · split at h <;> cases h
      rfl
  · next hr =>
    cases h
    exact relocate_of_run f hr

end Evaluation

/-! ## Calculations of tokens -/

namespace Calculation

variable {options : Options} {e e' : String} {ts ts' : List Token} (f : Option Nat → Option Nat)

/-- The calculation under another expression, at other positions. -/
def relocate (e : String) (c : Calculation) : Calculation :=
  ⟨e, c.tokens.map (Token.relocate f), c.rpn.relocate f, c.result⟩

/-- The calculation of tokens at other positions, when a fault of the policy has no position. -/
theorem ofTokens_relocate (hp : ∀ fault, options.policy = .error fault → fault.relocate f = fault) :
    ofTokens options e' (ts.map (Token.relocate f)) =
      ((ofTokens options e ts).map (relocate f e')).mapError (Fault.relocate f) := by
  unfold ofTokens
  rw [lefts_relocate, rights_relocate]
  split
  · cases hpol : options.policy with
    | error fault => exact congrArg Except.error (hp fault hpol).symm
    | ok policy =>
      have hconv := Conversion.convertFrom_relocate f policy [] ts
      rw [List.map_nil, ← Conversion.convert_eq_convertFrom, ← Conversion.convert_eq_convertFrom] at hconv
      simp only [Except.bind, hconv]
      cases Conversion.convert policy ts with
      | error fault => rfl
      | ok out =>
        have heval := Evaluation.evaluate_relocate f options.allowPartial out.tokens
        show (Evaluation.evaluate _ (out.tokens.map _)).map _ = (((Evaluation.evaluate _ _).map _).map _).mapError _
        rw [heval]
        cases hr : Evaluation.evaluate options.allowPartial out.tokens with
        | error fault => exact congrArg Except.error (Evaluation.relocate_of_evaluate f hr).symm
        | ok x => rfl
  · rfl

/-- What comes of a calculation, positions apart: the result and the texts in reverse Polish order, or the fault. -/
def answer (r : Except Fault Calculation) : Except Fault (Float × List String) :=
  (r.map fun c => (c.result, c.rpnTexts)).mapError (Fault.relocate fun _ => none)

theorem answer_eq_ok_iff {r : Except Fault Calculation} {x : Float} {ss : List String} :
    answer r = .ok (x, ss) ↔ ∃ c, r = .ok c ∧ c.result = x ∧ c.rpnTexts = ss := by
  cases r with
  | error fault => simp [answer, Except.map, Except.mapError]
  | ok c => simp [answer, Except.map, Except.mapError]

theorem answer_relocate (e : String) (r : Except Fault Calculation) :
    answer ((r.map (relocate (fun _ => none) e)).mapError (Fault.relocate fun _ => none)) = answer r := by
  cases r with
  | ok c =>
    have htexts : texts (c.rpn.tokens.map Token.unplaced) = texts c.rpn.tokens := by
      simp only [texts, List.map_map]
      rfl
    exact congrArg (fun ss => Except.ok (c.result, ss)) htexts
  | error fault =>
    cases fault with
    | failure g => cases g <;> rfl
    | unknownOperator u => rfl
    | unknownPolicy given => rfl

/-- Tokens that differ in positions only have one answer. -/
theorem answer_ofTokens_congr (h : ts'.map Token.unplaced = ts.map Token.unplaced) (policy : Policy)
    (allowPartial : Bool) :
    answer (ofTokens ⟨.ok policy, allowPartial⟩ e' ts') = answer (ofTokens ⟨.ok policy, allowPartial⟩ e ts) := by
  have hp : ∀ fault, (Except.ok policy : Except Fault Policy) = .error fault →
      fault.relocate (fun _ => none) = fault := by
    intro fault hf
    cases hf
  rw [← answer_relocate e, ← answer_relocate e (ofTokens _ e ts), ← ofTokens_relocate _ hp, ← ofTokens_relocate _ hp]
  exact congrArg (fun us => answer (ofTokens _ e us)) h

end Calculation

/-! ## Spaces -/

/-- The position that a position becomes when `n` characters are put in at `m`. -/
def shiftAfter (m n q : Nat) : Nat :=
  if q < m then q else q + n

theorem shiftAfter_of_lt {m q : Nat} (h : q < m) (n : Nat) : shiftAfter m n q = q :=
  if_pos h

theorem shiftAfter_of_le {m q : Nat} (h : m ≤ q) (n : Nat) : shiftAfter m n q = q + n :=
  if_neg (Nat.not_lt.mpr h)

/-- Spaces between texts that are parted leave them parted. -/
theorem scan_spaced {a b : List Char} (h : Parted a b) (n : Nat) :
    scan 0 [] (a ++ (List.replicate n ' ' ++ b)) = scan 0 [] a ++ scan (a.length + n) [] b := by
  have hparted : Parted a (List.replicate n ' ' ++ b) := by
    cases n with
    | zero => exact h
    | succ n => exact Or.inr (Or.inr (Or.inr ⟨' ', rfl, by decide⟩))
  rw [scan_append_of_parted hparted, scan_spaces, Nat.zero_add]

/-- Spaces between texts that are parted shift the tokens after them, and no others. -/
theorem tokenize_spaced {a b : String} (h : Parted a.toList b.toList) (n : Nat) :
    tokenize (a ++ String.ofList (List.replicate n ' ') ++ b) =
      (tokenize (a ++ b)).map (Token.relocate (Option.map (shiftAfter a.toList.length n))) := by
  have hbefore : ∀ t ∈ scan 0 [] a.toList, t.relocate (Option.map (shiftAfter a.toList.length n)) = t := by
    intro t ht
    obtain ⟨q, hq, -, hlt⟩ := position_of_mem_scan (Nat.zero_le _) ht
    rw [Nat.zero_add] at hlt
    unfold Token.relocate
    rw [hq, Option.map_some, shiftAfter_of_lt hlt, ← hq]
  have hafter : ∀ t ∈ scan a.toList.length [] b.toList,
      t.relocate (Option.map (shiftAfter a.toList.length n)) = t.relocate (Option.map (· + n)) := by
    intro t ht
    obtain ⟨q, hq, hle, -⟩ := position_of_mem_scan (Nat.zero_le _) ht
    rw [List.length_nil, Nat.sub_zero] at hle
    unfold Token.relocate
    rw [hq, Option.map_some, Option.map_some, shiftAfter_of_le hle]
  have htext : (a ++ String.ofList (List.replicate n ' ') ++ b).toList =
      a.toList ++ (List.replicate n ' ' ++ b.toList) := by
    simp
  have hplain := scan_append_of_parted h 0
  rw [Nat.zero_add, ← String.toList_append] at hplain
  unfold tokenize
  rw [htext, scan_spaced h, scan_shift (Nat.zero_le _), hplain, List.map_append, List.map_congr_left hafter,
    List.map_congr_left hbefore, List.map_id']

theorem Policy.relocate_of_ofJson (f : Option Nat → Option Nat) {j : Json} {fault : Fault}
    (h : Policy.ofJson j = .error fault) : fault.relocate f = fault := by
  unfold Policy.ofJson at h
  split at h <;> cases h
  rfl

/-- Spaces that are put in between parted texts change nothing but positions: those from the spaces on are greater by
their number. -/
theorem ofExpression_spaced {a b : String} (h : Parted a.toList b.toList) (n : Nat) (settings : Settings)
    (policy : Option Json) (allowPartial : Option Bool) :
    Calculation.ofExpression (settings.options policy allowPartial)
        (a ++ String.ofList (List.replicate n ' ') ++ b) =
      ((Calculation.ofExpression (settings.options policy allowPartial) (a ++ b)).map
          (Calculation.relocate (Option.map (shiftAfter a.toList.length n))
            (a ++ String.ofList (List.replicate n ' ') ++ b))).mapError
        (Fault.relocate (Option.map (shiftAfter a.toList.length n))) := by
  rw [Calculation.ofExpression_eq_ofTokens, Calculation.ofExpression_eq_ofTokens, tokenize_spaced h]
  apply Calculation.ofTokens_relocate
  intro fault hf
  exact Policy.relocate_of_ofJson _ hf

theorem ofExpression_spaced_unmatched :
    Parted "3 -".toList "x) * (2".toList ∧
      (Calculation.ofExpression (Settings.standard.options none none) "3 -x) * (2").map Calculation.result =
        .error (.failure (.unmatched .right (some 4))) ∧
      (Calculation.ofExpression (Settings.standard.options none none) "3 -  x) * (2").map Calculation.result =
        .error (.failure (.unmatched .right (some 6))) := by
  have hparted : Parted "3 -".toList "x) * (2".toList := Or.inr (Or.inr (Or.inl ⟨'-', by decide, by decide⟩))
  have hplain : (Calculation.ofExpression (Settings.standard.options none none) "3 -x) * (2").map Calculation.result =
      .error (.failure (.unmatched .right (some 4))) := by
    decide +kernel
  refine ⟨hparted, hplain, ?_⟩
  have h := ofExpression_spaced hparted 2 Settings.standard none none
  have hfault : Calculation.ofExpression (Settings.standard.options none none) ("3 -" ++ "x) * (2") =
      .error (.failure (.unmatched .right (some 4))) := eq_error_of_map Calculation.result hplain
  rw [hfault] at h
  exact congrArg (Except.map Calculation.result) h

end InfixCalculator
