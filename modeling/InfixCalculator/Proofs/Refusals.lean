import InfixCalculator.Proofs.Order
import InfixCalculator.Proofs.Output
import InfixCalculator.Proofs.Stages

/-!
# How a conversion is refused

- `Unopened ts i`: the right parenthesis at `i` closes no group; `Unclosed ts i`: the left one at `i` has no partner,
  which is to say that its group is still open in the end (`unclosed_iff`);
- `Hindrance policy ts i f`: the token at `i` cannot be taken, for the failure `f`; the same as `Blocks`, told by
  indices;
- `Refusal policy ts f`: the first hindrance if there is one, else the last left parenthesis without a partner;
- `convert_refused`: a conversion fails with the refusal, and it is done where there is none.
-/

namespace InfixCalculator

/-- A right parenthesis that makes the right parentheses up to it more than the left ones. -/
def Unopened (ts : List Token) (i : Nat) : Prop :=
  At ts i Token.isRightParen ∧ lefts (ts.take (i + 1)) < rights (ts.take (i + 1))

/-- A left parenthesis without a partner. -/
def Unclosed (ts : List Token) (i : Nat) : Prop :=
  At ts i Token.isLeftParen ∧ ∀ r, ¬Partners ts i r

/-- The token at the index cannot be taken: a right parenthesis that closes no group, or a word without a value under
the policy to refuse it. -/
inductive Hindrance (policy : Policy) (ts : List Token) (i : Nat) : Failure → Prop
  | unopened {t : Token} (ht : ts[i]? = some t) (h : Unopened ts i) :
      Hindrance policy ts i (.unmatched .right t.position)
  | word {t : Token} (ht : ts[i]? = some t) (h : t.isTerm = true) (hp : policy = .raise) :
      Hindrance policy ts i (.unparseable t.text t.position)

/-- Why tokens are refused: the first hindrance, or, where there is none, the last left parenthesis without a
partner. -/
inductive Refusal (policy : Policy) (ts : List Token) : Failure → Prop
  | hindered {i : Nat} {f : Failure} (h : Hindrance policy ts i f) (first : ∀ j, j < i → ∀ g, ¬Hindrance policy ts j g) :
      Refusal policy ts f
  | unclosed {i : Nat} {t : Token} (clear : ∀ j g, ¬Hindrance policy ts j g) (ht : ts[i]? = some t) (h : Unclosed ts i)
      (last : ∀ j, i < j → ¬Unclosed ts j) : Refusal policy ts (.unmatched .left t.position)

variable {policy : Policy} {ts xs ys : List Token} {t : Token} {i : Nat} {f : Failure}

/-! ## Hindrances -/

/-- The first two reasons for a conversion to fail are the two kinds of hindrances. -/
theorem exists_hindrance_iff : (∃ i f, Hindrance policy ts i f) ↔
    (∃ i, Unopened ts i) ∨ (policy = .raise ∧ ∃ i, At ts i Token.isTerm) := by
  constructor
  · rintro ⟨i, f, h⟩
    cases h with
    | unopened ht h => exact Or.inl ⟨i, h⟩
    | word ht h hp => exact Or.inr ⟨hp, i, _, ht, h⟩
  · rintro (⟨i, h⟩ | ⟨hp, i, t, ht, h⟩)
    · obtain ⟨t, ht, -⟩ := h.1
      exact ⟨i, _, .unopened ht h⟩
    · exact ⟨i, _, .word ht h hp⟩

theorem Hindrance.lt_length (h : Hindrance policy ts i f) : i < ts.length := by
  cases h with
  | unopened ht _ | word ht _ _ => exact (List.getElem?_eq_some_iff.mp ht).1

/-- Later tokens are no part of a hindrance. -/
theorem hindrance_append (hi : i < xs.length) : Hindrance policy (xs ++ ys) i f ↔ Hindrance policy xs i f := by
  have hget : (xs ++ ys)[i]? = xs[i]? := List.getElem?_append_left hi
  have htake : (xs ++ ys).take (i + 1) = xs.take (i + 1) := List.take_append_of_le_length hi
  have hun : Unopened (xs ++ ys) i ↔ Unopened xs i := by simp only [Unopened, At, hget, htake]
  constructor
  · rintro (⟨ht, h⟩ | ⟨ht, h, hp⟩)
    · exact .unopened (hget ▸ ht) (hun.mp h)
    · exact .word (hget ▸ ht) h hp
  · rintro (⟨ht, h⟩ | ⟨ht, h, hp⟩)
    · exact .unopened (hget ▸ ht) (hun.mpr h)
    · exact .word (hget ▸ ht) h hp

theorem unopened_append_cons : Unopened (xs ++ t :: ys) xs.length ↔ t.isRightParen = true ∧ lefts xs ≤ rights xs := by
  have ht : (xs ++ t :: ys)[xs.length]? = some t := by simp
  have htake : (xs ++ t :: ys).take (xs.length + 1) = xs ++ [t] := by simp [List.take_add_one]
  rw [Unopened, at_iff ht, htake]
  refine and_congr_right fun hr => ?_
  simp only [lefts_append, rights_append, lefts_cons, rights_cons, lefts_nil, rights_nil, hr, Token.of_isRightParen hr]
  simp only [Bool.false_eq_true, if_false, if_true, Nat.zero_add, Nat.add_zero, Nat.lt_succ_iff]

/-- A hindrance is what stops the conversion at its index. -/
theorem hindrance_append_cons :
    Hindrance policy (xs ++ t :: ys) xs.length f ↔ Conversion.Blocks policy xs t f := by
  have ht : (xs ++ t :: ys)[xs.length]? = some t := by simp
  constructor
  · rintro (⟨ht', h⟩ | ⟨ht', h, hp⟩) <;> obtain rfl := Option.some.inj (ht.symm.trans ht')
    · obtain ⟨hr, hx⟩ := unopened_append_cons.mp h
      exact .unmatched hr hx
    · exact .unparseable h hp
  · rintro (⟨hr, hx⟩ | ⟨h, hp⟩)
    · exact .unopened ht (unopened_append_cons.mpr ⟨hr, hx⟩)
    · exact .word ht h hp

theorem exists_split (hi : i < ts.length) : ∃ xs t ys, ts = xs ++ t :: ys ∧ xs.length = i := by
  refine ⟨ts.take i, ts[i], ts.drop (i + 1), by simp, ?_⟩
  rw [List.length_take]
  omega

/-- Nothing stops a conversion where there is no hindrance. -/
theorem unblocked_iff : Conversion.Unblocked policy ts ↔ ∀ i f, ¬Hindrance policy ts i f := by
  constructor
  · rintro hu i f h
    obtain ⟨xs, t, ys, rfl, rfl⟩ := exists_split h.lt_length
    exact hu xs t ys rfl ⟨f, hindrance_append_cons.mp h⟩
  · rintro hn xs t ys rfl ⟨f, hb⟩
    exact hn _ f (hindrance_append_cons.mpr hb)

/-- Where nothing stops a conversion, every right parenthesis closes a group. -/
theorem backed_of_unblocked (hu : Conversion.Unblocked policy ts) : Backed ts := by
  intro n hn
  induction n with
  | zero => exact Int.le_of_eq depth_zero.symm
  | succ n ih =>
    have hprev := ih (by omega)
    by_cases hfall : depth ts (n + 1) < depth ts n
    · obtain ⟨hat, -⟩ := right_of_lt_depth (show n < ts.length by omega) hfall
      by_cases hneg : depth ts (n + 1) < 0
      · have hun : Unopened ts n := ⟨hat, by unfold depth at hneg; omega⟩
        obtain ⟨t, ht, -⟩ := hat
        exact absurd (.unopened ht hun) (unblocked_iff.mp hu n _)
      · omega
    · omega

/-! ## Left parentheses without partners -/

/-- A left parenthesis has no partner when the depth never comes down to its own again. -/
theorem unclosed_iff : Unclosed ts i ↔
    At ts i Token.isLeftParen ∧ ∀ m, i < m → m ≤ ts.length → depth ts i < depth ts m := by
  refine and_congr_right fun hl => ⟨fun hnone m => ?_, fun habove r hp => ?_⟩
  · -- The first place where the depth came down would be the partner.
    induction m using Nat.strongRecOn with
    | ind m ih =>
      intro him hm
      by_contra hlow
      have hne : m ≠ i + 1 := by
        rintro rfl
        rw [depth_succ_left hl] at hlow
        omega
      obtain ⟨r, rfl⟩ : ∃ r, m = r + 1 := ⟨m - 1, by omega⟩
      have hprev := ih r (by omega) (by omega) (by omega)
      obtain ⟨hat, hfall⟩ := right_of_lt_depth (show r < ts.length by omega) (by omega)
      exact hnone r ⟨by omega, hl, hat, by omega, fun k hk hkr => ih k (by omega) hk (by omega)⟩
  · have hlen := lt_length_of_at hp.right
    have hlt := hp.lt
    have hfall := depth_succ_right hp.right
    have hret := hp.returns
    have := habove (r + 1) (by omega) hlen
    omega

theorem unclosed_iff_waits : Unclosed ts i ↔ At ts i Token.isLeftParen ∧ Waits ts ts.length i := by
  rw [unclosed_iff]
  refine and_congr_right fun hl => ⟨fun h => ⟨lt_length_of_at hl, Or.inl ⟨hl, h⟩⟩, fun h m => h.above hl⟩

namespace Conversion

/-! ## The end of a run -/

/-- Where nothing stops the conversion, its run shows the snapshot after all tokens. -/
theorem exists_snapshot_of_unblocked (hk : Known ts) (hu : Unblocked policy ts) :
    ∃ out w o s, run policy [] ts = ⟨out, .ok w⟩ ∧ Snapshot ts ts.length o s ∧ Shows ts w s := by
  obtain ⟨out, w, o, s, hrun, hsnap, hshows, -⟩ :=
    exists_snapshot_of_backed hk (backed_of_unblocked hu) (Nat.le_refl ts.length)
  rw [List.take_length] at hrun
  cases policy with
  | recover => exact ⟨out, w, o, s, hrun, hsnap, hshows⟩
  | raise => exact ⟨out, w, o, s, run_policy .raise .recover [] (isTerm_of_unblocked hu) ▸ hrun, hsnap, hshows⟩

/-- What waits in the end decides: the latest left parenthesis is the last without a partner. -/
theorem convert_of_unblocked (hk : Known ts) (hu : Unblocked policy ts) :
    ((∃ out, convert policy ts = .ok out) ∧ ∀ i, ¬Unclosed ts i) ∨
      ∃ i t, ts[i]? = some t ∧ Unclosed ts i ∧ (∀ j, i < j → ¬Unclosed ts j) ∧
        convert policy ts = .error (.failure (.unmatched .left t.position)) := by
  obtain ⟨out, w, o, s, hrun, hsnap, hshows⟩ := exists_snapshot_of_unblocked hk hu
  have hmem : ∀ i, Unclosed ts i → i ∈ s := fun i hi => (hsnap.waits i).mpr (unclosed_iff_waits.mp hi).2
  rcases exists_latest w with hnone | ⟨gone, l, kept, rfl, hg, hl⟩
  · refine Or.inl ⟨⟨_, convert_of_run hrun hnone⟩, fun i hi => ?_⟩
    obtain ⟨u, hu, hiu⟩ := hshows.exists_of_mem (hmem i hi)
    have hleft := (at_iff hiu).mp hi.1
    rw [hnone u hu] at hleft
    cases hleft
  · have hstack : Stacked gone := (run_stacked hk stacked_nil hrun).of_append.1
    obtain ⟨a, b, rfl, ha, hb⟩ := hshows.append_inv
    obtain ⟨i, c, rfl, hi, -⟩ := hb.cons_inv
    have hat : At ts i Token.isLeftParen := (at_iff hi).mpr hl
    refine Or.inr ⟨i, l, hi, unclosed_iff_waits.mpr ⟨hat, (hsnap.waits i).mp (by simp)⟩, fun j hij hj => ?_, ?_⟩
    · rcases List.mem_append.mp (hmem j hj) with hm | hm
      · exact not_left_of_operator (at_operator_of_shows ha hstack hg j hm) hj.1
      · rcases List.mem_cons.mp hm with rfl | hm
        · exact Nat.lt_irrefl j hij
        · exact Nat.lt_asymm hij (hsnap.lt_of_mem hm)
    · have hfind : (gone ++ l :: kept).find? Token.isLeftParen = some l := by
        rw [List.find?_append, List.find?_eq_none.mpr (by simpa using hg)]
        simp [hl]
      simp only [convert, hrun, finish, hfind, Except.map]

/-! ## The verdict -/

/-- A conversion fails with the refusal. -/
theorem convert_of_refusal (hk : Known ts) (h : Refusal policy ts f) : convert policy ts = .error (.failure f) := by
  cases h with
  | @hindered i _ h first =>
    obtain ⟨xs, t, ys, rfl, rfl⟩ := exists_split h.lt_length
    have hu : Unblocked policy xs := unblocked_iff.mpr fun j g hg =>
      first j hg.lt_length g ((hindrance_append hg.lt_length).mpr hg)
    exact convert_blocked (known_append.mp hk).1 hu (hindrance_append_cons.mp h) ys
  | @unclosed i t clear ht h last =>
    rcases convert_of_unblocked hk (unblocked_iff.mpr clear) with ⟨-, hnone⟩ | ⟨i', t', ht', h', last', herror⟩
    · exact absurd h (hnone i)
    · obtain rfl : i = i' := by
        rcases Nat.lt_trichotomy i i' with hlt | heq | hgt
        · exact absurd h' (last i' hlt)
        · exact heq
        · exact absurd h (last' i hgt)
      obtain rfl := Option.some.inj (ht.symm.trans ht')
      exact herror

/-- A conversion is done, without a hindrance or a left parenthesis that has no partner, or it is refused. -/
theorem convert_cases (policy : Policy) (hk : Known ts) :
    ((∃ out, convert policy ts = .ok out) ∧ (∀ i f, ¬Hindrance policy ts i f) ∧ ∀ i, ¬Unclosed ts i) ∨
      ∃ f, Refusal policy ts f := by
  rcases nowhere_or_first (fun xs t => ∃ f, Blocks policy xs t f) ts with hu | ⟨xs, t, ys, rfl, hu, f, hf⟩
  · have clear := unblocked_iff.mp hu
    rcases convert_of_unblocked hk hu with ⟨hout, hnone⟩ | ⟨i, t, ht, h, last, -⟩
    · exact Or.inl ⟨hout, clear, hnone⟩
    · exact Or.inr ⟨_, .unclosed clear ht h last⟩
  · exact Or.inr ⟨f, .hindered (hindrance_append_cons.mpr hf) fun j hj g hg =>
      unblocked_iff.mp hu j g ((hindrance_append hj).mp hg)⟩

/-- A conversion fails just where a right parenthesis closes no group, a word has to be refused, or a left parenthesis
has no partner; and then with the first of the former two, or else with the last left parenthesis without a
partner. -/
theorem convert_refused (policy : Policy) (ts : List Token) (hk : Known ts) :
    ((∃ fault, convert policy ts = .error fault) ↔
        (∃ i, Unopened ts i) ∨ (policy = .raise ∧ ∃ i, At ts i Token.isTerm) ∨ ∃ i, Unclosed ts i) ∧
      (∀ fault, convert policy ts = .error fault ↔ ∃ f, fault = .failure f ∧ Refusal policy ts f) ∧
      ∀ side position, (Failure.unmatched side position).message =
        "Unmatched '" ++ side.symbol ++ "' at position " ++ positionText position := by
  refine ⟨?_, fun fault => ?_, fun _ _ => rfl⟩
  · rw [← or_assoc, ← exists_hindrance_iff]
    rcases convert_cases policy hk with ⟨⟨out, hout⟩, hclear, hnone⟩ | ⟨f, hf⟩
    · simp [hout, hclear, hnone]
    · refine iff_of_true ⟨_, convert_of_refusal hk hf⟩ ?_
      cases hf with
      | hindered h _ => exact Or.inl ⟨_, _, h⟩
      | unclosed _ _ h _ => exact Or.inr ⟨_, h⟩
  · constructor
    · intro herror
      rcases convert_cases policy hk with ⟨⟨out, hout⟩, -⟩ | ⟨f, hf⟩
      · rw [hout] at herror
        cases herror
      · exact ⟨f, Except.error.inj (herror.symm.trans (convert_of_refusal hk hf)), hf⟩
    · rintro ⟨f, rfl, hf⟩
      exact convert_of_refusal hk hf

/-- A word without a value, a group, and two left parentheses without partners. -/
def severalDefects : String :=
  "x ( 2 ) ( ( 1"

theorem convert_refused_severalDefects :
    Known (tokenize severalDefects) ∧
      Refusal .recover (tokenize severalDefects) (.unmatched .left (some 10)) ∧
      Refusal .raise (tokenize severalDefects) (.unparseable "x" (some 0)) ∧
      (Failure.unmatched .left (some 10)).message = "Unmatched '(' at position 10" := by
  have hk := known_tokenize severalDefects
  have hopen : convert .recover (tokenize severalDefects) = .error (.failure (.unmatched .left (some 10))) := by
    apply eq_error_of_map Postfix.diagnostics
    decide +kernel
  have hword : convert .raise (tokenize severalDefects) = .error (.failure (.unparseable "x" (some 0))) := by
    apply eq_error_of_map Postfix.diagnostics
    decide +kernel
  obtain ⟨f, hf, hopen⟩ := ((convert_refused .recover _ hk).2.1 _).mp hopen
  obtain rfl := Fault.failure.inj hf
  obtain ⟨g, hg, hword⟩ := ((convert_refused .raise _ hk).2.1 _).mp hword
  obtain rfl := Fault.failure.inj hg
  refine ⟨hk, hopen, hword, ?_⟩
  rw [(convert_refused .recover _ hk).2.2]
  decide +kernel

end Conversion

end InfixCalculator
