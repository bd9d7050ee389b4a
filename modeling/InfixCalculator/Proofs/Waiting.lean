import InfixCalculator.Proofs.Infix
import InfixCalculator.Proofs.Refusals
import InfixCalculator.Proofs.Sources

/-!
# What waits during a conversion

- `Tighter s t`: both tokens are operators, and `s` binds more tightly than `t`; where operators wait one upon the other
  with no left parenthesis between them, each binds more tightly than the one below it (`Climbing`);
- `step_climbing`, `run_climbing`: every step and every run keeps that, so that a single look at the latest operator
  tells which ones have to leave; and since there are four levels, no more than four operators wait between two left
  parentheses (`length_le_of_tighter`);
- `Standing ts out w`: how things stand when the tokens `ts` have been read, `out` has been put out and `w` waits;
  `run_standing`: they stand so after every token of every conversion.
-/

namespace InfixCalculator

/-- Both tokens are operators, and the first binds more tightly. -/
def Tighter (s t : Token) : Prop :=
  ∃ a b, s.operator? = some a ∧ t.operator? = some b ∧ a.level < b.level

/-- Of two tokens that wait one upon the other, the later is tighter, unless one of them is a left parenthesis. -/
def Climbing (w : List Token) : Prop :=
  w.IsChain fun s t => s.isLeftParen = false → t.isLeftParen = false → Tighter s t

/-- How things stand when tokens have been read, something has been put out, and something waits, the latest first. -/
structure Standing (ts : List Token) (out : Postfix) (w : List Token) : Prop where
  kinds : ∀ t ∈ w, t.isOperator = true ∨ t.isLeftParen = true
  /-- Between two left parentheses, below the first and above the last, each operator is tighter than those below. -/
  segments : ∀ above segment below, w = above ++ (segment ++ below) → (∀ t ∈ segment, t.isLeftParen = false) →
    segment.Pairwise Tighter ∧ segment.length ≤ 4
  /-- The left parentheses, the first one first, are those without a partner so far. -/
  opened : ∃ indices : List Nat, indices.Pairwise (· < ·) ∧ (∀ i, i ∈ indices ↔ Unclosed ts i) ∧
    Shows ts (w.filter Token.isLeftParen).reverse indices
  /-- Every operand and operator that has been read has been put out or waits, and nothing else. -/
  accounted : (out.tokens ++ w.filter Token.isOperator).Perm ((sources ts).map Token.posted)

variable {ts w w' : List Token} {s t : Token} {policy : Policy} {out : Postfix}

/-! ## Levels -/

instance : Trans Tighter Tighter Tighter where
  trans := by
    rintro s t u ⟨a, b, ha, hb, hab⟩ ⟨b', c, hb', hc, hbc⟩
    obtain rfl := Option.some.inj (hb.symm.trans hb')
    exact ⟨a, c, ha, hc, Nat.lt_trans hab hbc⟩

theorem level_pos (op : Operator) : 0 < op.level := by
  cases op <;> decide

/-- Operators that get looser from a level on are no more than the levels that are left. -/
theorem length_le_of_tighter {k : Nat} (h : w.Pairwise Tighter) (hk : k ≤ 4)
    (hw : ∀ t ∈ w, ∃ op, t.operator? = some op ∧ k < op.level) : w.length + k ≤ 4 := by
  induction w generalizing k with
  | nil => simpa using hk
  | cons t w ih =>
    obtain ⟨ht, hw'⟩ := List.pairwise_cons.mp h
    obtain ⟨op, hop, hlt⟩ := hw t List.mem_cons_self
    have hrest : w.length + op.level ≤ 4 := by
      refine ih hw' (level_le op) fun s hs => ?_
      obtain ⟨a, b, ha, hb, hab⟩ := ht s hs
      obtain rfl := Option.some.inj (hop.symm.trans ha)
      exact ⟨b, hb, hab⟩
    rw [List.length_cons]
    omega

namespace Conversion

/-- Operators that climb with no left parenthesis between them get tighter all the way, and there are at most four. -/
theorem Stacked.climbs (hs : Stacked w) (hw : Climbing w) (hl : ∀ t ∈ w, t.isLeftParen = false) :
    w.Pairwise Tighter ∧ w.length ≤ 4 := by
  have hpairwise : w.Pairwise Tighter :=
    List.isChain_iff_pairwise.mp (hw.imp_of_mem_imp fun s t hs ht hst => hst (hl s hs) (hl t ht))
  refine ⟨hpairwise, length_le_of_tighter hpairwise (Nat.zero_le 4) fun t ht => ?_⟩
  rcases hs t ht with hleft | ⟨op, hop⟩
  · rw [hl t ht] at hleft
    cases hleft
  · exact ⟨op, hop, level_pos op⟩

/-! ## Steps and runs -/

/-- An operator does not leave before one that is tighter. -/
theorem tighter_of_not_leaves {op : Operator} (hs : Stacked w) (ht : t ∈ w) (hl : t.isLeftParen = false)
    (hop : s.operator? = some op) (h : leaves op t = false) : Tighter s t := by
  rcases hs t ht with hleft | ⟨waiting, hw⟩
  · rw [hl] at hleft
    cases hleft
  · rw [leaves_of_operator? hw, decide_eq_false_iff_not, Nat.not_le] at h
    exact ⟨op, waiting, hop, hw, h⟩

/-- A step keeps what waits climbing. -/
theorem step_climbing (hs : Stacked w) (hw : Climbing w) (ht : t.isOperator = true → ∃ op, t.operator? = some op)
    (h : step policy w t = .ok (out, w')) : Climbing w' := by
  have hm := step_moves policy hs ht
  rw [h] at hm
  cases hm with
  | opens hp =>
    refine hw.cons fun s _ hl => ?_
    rw [hp] at hl
    cases hl
  | closes _ he _ _ =>
    subst he
    exact (List.IsChain.right_of_append hw).tail
  | @operator op hop =>
    refine (hw.suffix (List.dropWhile_suffix _)).cons fun s hs' _ hl => ?_
    -- The first that stays is the only one that the operator has to be compared with.
    have hstop : leaves op s = false := by
      have hhead := List.head?_dropWhile_not (leaves op) w
      rw [hs'] at hhead
      exact hhead
    have hmem : s ∈ w := (List.dropWhile_suffix _).subset (List.mem_of_mem_head? hs')
    exact tighter_of_not_leaves hs hmem hl hop hstop
  | operand _ _ => exact hw

/-- A run keeps what waits climbing. -/
theorem run_climbing (hk : Known ts) (hs : Stacked w) (hw : Climbing w) (h : run policy w ts = ⟨out, .ok w'⟩) :
    Climbing w' := by
  induction ts generalizing w out with
  | nil =>
    simp only [run, Run.mk.injEq, Except.ok.injEq] at h
    exact h.2 ▸ hw
  | cons t ts ih =>
    have ht := hk t List.mem_cons_self
    cases hstep : step policy w t with
    | error e => simp [run_cons_error hstep] at h
    | ok r =>
      obtain ⟨out₁, w₁⟩ := r
      rw [run_cons hstep, Run.mk.injEq] at h
      exact ih hk.tail (step_stacked hs ht hstep) (step_climbing hs hw ht hstep) (by rw [← h.2])

theorem Run.eq_of_ending {r : Run} (h : r.ending = .ok w) : r = ⟨r.output, .ok w⟩ := by
  rw [← h]

/-- Nothing stops a run that comes to its end. -/
theorem unblocked_of_run (hk : Known ts) (h : run policy [] ts = ⟨out, .ok w⟩) : Unblocked policy ts := by
  rcases nowhere_or_first (fun xs t => ∃ f, Blocks policy xs t f) ts with hu | ⟨xs, t, ys, rfl, hu, f, hf⟩
  · exact hu
  · obtain ⟨before, v, hrun, haccounts⟩ := run_unblocked (known_append.mp hk).1 hu
    rw [run_append hrun, run_cons_error (haccounts.step_blocked hf)] at h
    cases h

end Conversion

/-! ## Left parentheses that wait -/

instance (ts : List Token) (i : Nat) (p : Token → Bool) : Decidable (At ts i p) :=
  decidable_of_iff (ts[i]?.any p = true) (by simp [At, Option.any_eq_true])

theorem Shows.filter {indices : List Nat} (p : Token → Bool) (h : Shows ts w indices) :
    Shows ts (w.filter p) (indices.filter fun i => At ts i p) := by
  induction w generalizing indices with
  | nil =>
    rw [Shows, List.map_nil] at h
    rw [List.map_eq_nil_iff.mp h.symm]
    rfl
  | cons t w ih =>
    obtain ⟨n, rest, rfl, hn, hrest⟩ := h.cons_inv
    cases hp : p t with
    | true =>
      rw [List.filter_cons_of_pos hp, List.filter_cons_of_pos (by simp [at_iff hn, hp])]
      exact (ih hrest).cons hn
    | false =>
      rw [List.filter_cons_of_neg (by simp [hp]), List.filter_cons_of_neg (by simp [at_iff hn, hp])]
      exact ih hrest

theorem Shows.reverse {indices : List Nat} (h : Shows ts w indices) : Shows ts w.reverse indices.reverse := by
  rw [Shows, List.map_reverse, List.map_reverse, h]

/-- The left parentheses that wait are those without a partner. -/
theorem Snapshot.exists_opened {o indices : List Nat} (h : Snapshot ts ts.length o indices)
    (hs : Shows ts w indices) : ∃ opened : List Nat, opened.Pairwise (· < ·) ∧
      (∀ i, i ∈ opened ↔ Unclosed ts i) ∧ Shows ts (w.filter Token.isLeftParen).reverse opened := by
  refine ⟨(indices.filter fun i => At ts i Token.isLeftParen).reverse, ?_, fun i => ?_, (hs.filter _).reverse⟩
  · exact List.pairwise_reverse.mpr (h.descending.filter _)
  · rw [List.mem_reverse, List.mem_filter, decide_eq_true_eq, h.waits, unclosed_iff_waits, and_comm]

namespace Conversion

/-- After every token of every conversion, only operators and left parentheses wait; the operators between two left
parentheses, at most four, get tighter from below; the left parentheses are those without a partner so far; and
everything else that has been read has been put out or waits, once. From there the conversion goes on. -/
theorem run_standing (policy : Policy) (hk : Known ts) (n : Nat)
    (h : run policy [] (ts.take n) = ⟨out, .ok w⟩) :
    Standing (ts.take n) out w ∧
      convert policy ts = (convertFrom policy w (ts.drop n)).map (out ++ ·) := by
  have hkn : Known (ts.take n) := fun t ht => hk t (List.mem_of_mem_take ht)
  have hstacked : Stacked w := run_stacked hkn stacked_nil h
  have hclimbing : Climbing w := run_climbing hkn stacked_nil List.IsChain.nil h
  have hkinds : ∀ t ∈ w, t.isOperator = true ∨ t.isLeftParen = true := fun t ht =>
    (hstacked t ht).symm.imp_left fun ⟨_, hop⟩ => Token.isOperator_of_operator? hop
  refine ⟨⟨hkinds, fun above segment below he hl => ?_, ?_, ?_⟩, ?_⟩
  · subst he
    have hsegment : Stacked segment := (hstacked.of_append.2).of_append.1
    exact hsegment.climbs (List.IsChain.left_of_append (List.IsChain.right_of_append hclimbing)) hl
  · obtain ⟨before, v, o, indices, hrun, hsnap, hshows⟩ :=
      exists_snapshot_of_unblocked hkn (unblocked_of_run hkn h)
    obtain ⟨rfl, hv⟩ := Run.mk.inj (hrun.symm.trans h)
    obtain rfl := Except.ok.inj hv
    exact hsnap.exists_opened hshows
  · have hfilter : w.filter Token.isOperator = pending w := by
      refine List.filter_congr fun t ht => ?_
      rcases hkinds t ht with ho | hl
      · rw [ho, (Token.of_isOperator ho).2.1]
        rfl
      · rw [hl, (Token.of_isLeftParen hl).2.1]
        rfl
    rw [hfilter]
    exact run_perm hkn stacked_nil h
  · rw [convert_eq_convertFrom]
    conv => lhs; rw [← List.take_append_drop n ts]
    exact convertFrom_append h _

/-- Operators of all levels before two groups, in the inner one of which is a word without a value. -/
def nestedLevels : String :=
  "1 + 2 * 3 POWER 2 SQRT (4 - 5 % (x))"

/-- In the inner group two left parentheses wait, with two operators and four operators below them. -/
theorem run_standing_nestedLevels :
    Known (tokenize nestedLevels) ∧ ∃ out w, run .recover [] ((tokenize nestedLevels).take 15) = ⟨out, .ok w⟩ ∧
      texts w = ["(", "%", "-", "(", "SQRT", "POWER", "*", "+"] ∧
      Standing ((tokenize nestedLevels).take 15) out w ∧
      convert .recover (tokenize nestedLevels) =
        (convertFrom .recover w ((tokenize nestedLevels).drop 15)).map (out ++ ·) := by
  have hk := known_tokenize nestedLevels
  have htexts : (run .recover [] ((tokenize nestedLevels).take 15)).ending.map texts =
      .ok ["(", "%", "-", "(", "SQRT", "POWER", "*", "+"] := by decide +kernel
  obtain ⟨w, hending, hw⟩ := exists_ok_of_map texts htexts
  have hrun := Run.eq_of_ending hending
  exact ⟨hk, _, w, hrun, hw, run_standing .recover hk 15 hrun⟩

end Conversion

end InfixCalculator
