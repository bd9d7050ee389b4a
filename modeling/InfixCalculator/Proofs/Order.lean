import InfixCalculator.Proofs.Scanning
import InfixCalculator.Proofs.Snapshot
import InfixCalculator.Proofs.Steps
import Mathlib.Data.List.TakeWhile

/-!
# The order of a conversion

- `Arranged ts out order`: the output `out` shows the operands and operators of `ts` in the order of the indices
  `order`, in which operands stay before what follows them, and an operator comes before what follows it when it has
  been released until then;
- `Shows ts w s`: the tokens `w` are those at the indices `s`; `snapshot_step`, `exists_snapshot`: every step and every
  run shows a snapshot;
- `convert_arranged`: well-nested tokens are converted, and arranged so.
-/

namespace InfixCalculator

/-- The output consists of the operands and operators of the tokens, each once, in the order of the indices. Operands
stay before what follows them, and an operator comes before what follows it when a token up to there releases it, and
only then. -/
structure Arranged (ts out : List Token) (order : List Nat) : Prop where
  tokens : out.map some = order.map fun i => ts[i]?.map Token.posted
  nodup : order.Nodup
  mem : ∀ i, i ∈ order ↔ Carried ts i
  operand : ∀ i j, i < j → At ts i Token.isOperand → j ∈ order → [i, j].Sublist order
  operator : ∀ i j, i < j → At ts i Token.isOperator → j ∈ order →
    ([i, j].Sublist order ↔ ∃ k, i < k ∧ k ≤ j ∧ Releases ts i k)

variable {ts : List Token} {n : Nat} {o s : List Nat} {t : Token}

/-! ## Runs -/

/-- The tokens are those at the indices. -/
def Shows (ts : List Token) (w : List Token) (s : List Nat) : Prop :=
  w.map some = s.map fun i => ts[i]?

theorem Shows.nil : Shows ts [] [] := rfl

theorem Shows.cons {w : List Token} (ht : ts[n]? = some t) (h : Shows ts w s) : Shows ts (t :: w) (n :: s) := by
  unfold Shows at *
  rw [List.map_cons, List.map_cons, ht, h]

theorem Shows.append_inv {v w : List Token} (h : Shows ts (v ++ w) s) :
    ∃ a b, s = a ++ b ∧ Shows ts v a ∧ Shows ts w b := by
  rw [Shows, List.map_append] at h
  obtain ⟨a, b, rfl, ha, hb⟩ := List.map_eq_append_iff.mp h.symm
  exact ⟨a, b, rfl, ha.symm, hb.symm⟩

theorem Shows.cons_inv {w : List Token} (h : Shows ts (t :: w) s) :
    ∃ n a, s = n :: a ∧ ts[n]? = some t ∧ Shows ts w a := by
  rw [Shows, List.map_cons] at h
  obtain ⟨n, a, rfl, hn, ha⟩ := List.map_eq_cons_iff.mp h.symm
  exact ⟨n, a, rfl, hn, ha.symm⟩

theorem Shows.exists_of_mem {w : List Token} (h : Shows ts w s) {i : Nat} (hi : i ∈ s) :
    ∃ t ∈ w, ts[i]? = some t := by
  have hm : ts[i]? ∈ w.map some := h ▸ List.mem_map_of_mem hi
  obtain ⟨t, ht, he⟩ := List.mem_map.mp hm
  exact ⟨t, ht, he.symm⟩

theorem Shows.exists_index {w : List Token} (h : Shows ts w s) (ht : t ∈ w) : ∃ i ∈ s, ts[i]? = some t := by
  have hm : some t ∈ s.map fun i => ts[i]? := h ▸ List.mem_map_of_mem ht
  obtain ⟨i, hi, he⟩ := List.mem_map.mp hm
  exact ⟨i, hi, he⟩

/-- The operators that wait are put out as they are. -/
theorem Shows.posted {w : List Token} (h : Shows ts w s) (hs : ∀ i ∈ s, At ts i Token.isOperator) :
    w.map some = s.map fun i => ts[i]?.map Token.posted := by
  rw [h]
  refine List.map_congr_left fun i hi => ?_
  obtain ⟨t, ht, ho⟩ := hs i hi
  rw [ht, Option.map_some, Token.posted_of_operator ho]

namespace Conversion

/-- A waiting token leaves when the operator at its index yields. -/
theorem leaves_iff {i : Nat} {s : Token} {op : Operator} (hi : ts[i]? = some s) (ht : ts[n]? = some t)
    (hop : t.operator? = some op) : leaves op s = true ↔ Yields ts i n := by
  constructor
  · intro h
    cases hs : s.operator? with
    | none => simp [leaves, hs] at h
    | some waiting =>
      rw [leaves_of_operator? hs, decide_eq_true_eq] at h
      exact ⟨s, t, waiting, op, hi, ht, hs, hop, h⟩
  · rintro ⟨s', t', a, b, hi', ht', ha, hb, hle⟩
    obtain rfl := Option.some.inj (hi.symm.trans hi')
    obtain rfl := Option.some.inj (ht.symm.trans ht')
    obtain rfl := Option.some.inj (hop.symm.trans hb)
    rwa [leaves_of_operator? ha, decide_eq_true_eq]

/-- Of what waits, all but the left parentheses are operators. -/
theorem at_operator_of_shows {w : List Token} (h : Shows ts w s) (hw : Stacked w)
    (hl : ∀ t ∈ w, t.isLeftParen = false) : ∀ i ∈ s, At ts i Token.isOperator := by
  intro i hi
  obtain ⟨t, ht, hti⟩ := h.exists_of_mem hi
  rcases hw t ht with hleft | ⟨op, hop⟩
  · rw [hl t ht] at hleft
    cases hleft
  · exact ⟨t, hti, Token.isOperator_of_operator? hop⟩

/-- One more token leads from a snapshot to the next. -/
theorem snapshot_step (hk : Known ts) (hw : Backed ts) (ht : ts[n]? = some t) {w : List Token} (hstack : Stacked w)
    (h : Snapshot ts n o s) (hs : Shows ts w s) :
    ∃ out w' o' s', step .recover w t = .ok (out, w') ∧ Snapshot ts (n + 1) (o ++ o') s' ∧ Shows ts w' s' ∧
      out.tokens.map some = o'.map fun i => ts[i]?.map Token.posted := by
  have hmoves := step_moves .recover hstack (hk t (List.mem_of_getElem? ht))
  generalize hr : step .recover w t = r at hmoves
  cases hmoves with
  | opens hp =>
    have hflags := Token.of_isLeftParen hp
    have hnext := Snapshot.step (show Snapshot ts n o ([] ++ ([] ++ s)) from h)
      (h.division_idle ht hflags.2.2 hflags.2.1) ht
    exact ⟨_, _, [], n :: s, rfl, by simpa [hp, hflags] using hnext, hs.cons ht, rfl⟩
  | operand hp _ =>
    have hflags := Token.of_isOperand hp
    have hnext := Snapshot.step (show Snapshot ts n o ([] ++ ([] ++ s)) from h)
      (h.division_idle ht hflags.2.2 hflags.1) ht
    exact ⟨_, _, [n], s, rfl, by simpa [hp, hflags] using hnext, hs, by simp [ht]⟩
  | closes hp he hg hl =>
    subst he
    have hflags := Token.of_isRightParen hp
    obtain ⟨a, b, rfl, ha, hb⟩ := hs.append_inv
    obtain ⟨m, c, rfl, hm, hc⟩ := hb.cons_inv
    have hops := at_operator_of_shows ha hstack.of_append.1 hg
    have hnext := Snapshot.step (show Snapshot ts n o (a ++ ([m] ++ c)) from h)
      (h.division_close hw ((at_iff ht).mpr hp) hops ((at_iff hm).mpr hl)) ht
    exact ⟨_, _, a, c, rfl, by simpa [hflags] using hnext, hc, ha.posted hops⟩
  | unmatched hp hnone =>
    -- The depth does not fall below zero, so a left parenthesis waits.
    have hlen := lt_length_of_at ((at_iff ht).mpr hp)
    have hlow := hw (n + 1) hlen
    rw [depth_succ_right ((at_iff ht).mpr hp)] at hlow
    obtain ⟨l, hat, hwaits, -, -⟩ := exists_waits_left (Nat.le_of_lt hlen) (show 0 < depth ts n by omega)
    obtain ⟨u, hu, hlu⟩ := hs.exists_of_mem ((h.waits l).mpr hwaits)
    rw [at_iff hlu, hnone u hu] at hat
    cases hat
  | @operator op hop =>
    have ho := Token.isOperator_of_operator? hop
    have hflags := Token.of_isOperator ho
    rw [← List.takeWhile_append_dropWhile (p := leaves op) (l := w)] at hs hstack
    obtain ⟨a, b, rfl, ha, hb⟩ := hs.append_inv
    have hleft : ∀ u ∈ w.takeWhile (leaves op), u.isLeftParen = false := fun u hu =>
      isLeftParen_of_leaves (List.mem_takeWhile_imp hu)
    have hops := at_operator_of_shows ha hstack.of_append.1 hleft
    have hyields : ∀ i ∈ a, Yields ts i n := by
      intro i hi
      obtain ⟨u, hu, hiu⟩ := ha.exists_of_mem hi
      exact (leaves_iff hiu ht hop).mp (List.mem_takeWhile_imp hu)
    have hkept : ∀ x ∈ b.head?, ¬Yields ts x n := by
      intro x hx hy
      have hstop := List.head?_dropWhile_not (leaves op) w
      cases hd : w.dropWhile (leaves op) with
      | nil =>
        rw [hd, Shows, List.map_nil] at hb
        rw [List.map_eq_nil_iff.mp hb.symm] at hx
        cases hx
      | cons u rest =>
        rw [hd] at hb hstop
        obtain ⟨x', c, rfl, hxu, -⟩ := hb.cons_inv
        obtain rfl := Option.some.inj hx
        have hu : leaves op u = false := hstop
        rw [(leaves_iff hxu ht hop).mpr hy] at hu
        cases hu
    have hnext := Snapshot.step (show Snapshot ts n o (a ++ ([] ++ b)) from h)
      (h.division_operator hk hw ((at_iff ht).mpr ho) (fun i hi => ⟨hops i hi, hyields i hi⟩) hkept) ht
    exact ⟨_, _, a, n :: b, rfl, by simpa [ho, hflags] using hnext, hb.cons ht, ha.posted hops⟩
  | refused _ hp => cases hp

/-- Where every right parenthesis closes a group, the run over the first tokens shows the snapshot after them. -/
theorem exists_snapshot_of_backed (hk : Known ts) (hw : Backed ts) (hn : n ≤ ts.length) :
    ∃ out w o s, run .recover [] (ts.take n) = ⟨out, .ok w⟩ ∧ Snapshot ts n o s ∧ Shows ts w s ∧
      out.tokens.map some = o.map fun i => ts[i]?.map Token.posted := by
  induction n with
  | zero => exact ⟨{}, [], [], [], by simp [run], snapshot_zero, Shows.nil, rfl⟩
  | succ n ih =>
    obtain ⟨out, w, o, s, hrun, hsnap, hshows, hout⟩ := ih (by omega)
    obtain ⟨t, ht⟩ : ∃ t, ts[n]? = some t := ⟨_, List.getElem?_eq_getElem (by omega)⟩
    have hkn : Known (ts.take n) := fun t h => hk t (List.mem_of_mem_take h)
    have hstack : Stacked w := run_stacked hkn (fun _ h => absurd h List.not_mem_nil) hrun
    obtain ⟨out', w', o', s', hstep, hsnap', hshows', hout'⟩ := snapshot_step hk hw ht hstack hsnap hshows
    have htake : ts.take (n + 1) = ts.take n ++ [t] := by simp [List.take_add_one, ht]
    refine ⟨out ++ out', w', o ++ o', s', ?_, hsnap', hshows', ?_⟩
    · rw [htake, run_append hrun, run_singleton hstep]
    · rw [Postfix.tokens_append, List.map_append, List.map_append, hout, hout']

/-- The run over the first of well-nested tokens shows the snapshot after them. -/
theorem exists_snapshot (hk : Known ts) (hw : WellNested ts) (hn : n ≤ ts.length) :
    ∃ out w o s, run .recover [] (ts.take n) = ⟨out, .ok w⟩ ∧ Snapshot ts n o s ∧ Shows ts w s ∧
      out.tokens.map some = o.map fun i => ts[i]?.map Token.posted :=
  exists_snapshot_of_backed hk hw.1 hn

/-- When all tokens have been read, only operators wait. -/
theorem operator_of_snapshot (hw : WellNested ts) (h : Snapshot ts ts.length o s) :
    ∀ i ∈ s, At ts i Token.isOperator := by
  intro i hi
  obtain ⟨hlt, ⟨-, hopen⟩ | ⟨hop, -⟩⟩ := (h.waits i).mp hi
  · have hlow := hw.1 i (Nat.le_of_lt hlt)
    have := hopen ts.length hlt (Nat.le_refl _)
    rw [hw.2] at this
    omega
  · exact hop

end Conversion

/-! ## The order -/

/-- Of two members of a list, one stands before the other. -/
theorem sublist_or_sublist {l : List Nat} {i j : Nat} (hi : i ∈ l) (hj : j ∈ l) (hij : i ≠ j) :
    [i, j].Sublist l ∨ [j, i].Sublist l := by
  obtain ⟨xs, ys, rfl⟩ := List.append_of_mem hi
  rcases List.mem_append.mp hj with hm | hm
  · exact Or.inr ((List.singleton_sublist.mpr hm).append (List.singleton_sublist.mpr List.mem_cons_self))
  · rcases List.mem_cons.mp hm with rfl | hm
    · exact absurd rfl hij
    · exact Or.inl ((List.Sublist.cons_cons i (List.singleton_sublist.mpr hm)).trans (List.sublist_append_right xs _))

/-- When all tokens have been read, what has been put out and what waits are arranged as they should be. -/
theorem Snapshot.arranged (hw : WellNested ts) (h : Snapshot ts ts.length o s) {out w : List Token}
    (hout : out.map some = o.map fun i => ts[i]?.map Token.posted) (hs : Shows ts w s) :
    Arranged ts (out ++ w) (o ++ s) := by
  have hops := Conversion.operator_of_snapshot hw h
  have hmem : ∀ i, i ∈ o ++ s ↔ Carried ts i := by
    intro i
    rw [List.mem_append, h.posted, h.waits]
    constructor
    · rintro (⟨-, hc, -⟩ | hwaits)
      · exact hc
      · exact Or.inr (hops i ((h.waits i).mpr hwaits))
    · intro hc
      by_cases hwaits : Waits ts ts.length i
      · exact Or.inr hwaits
      · exact Or.inl ⟨hc.elim lt_length_of_at lt_length_of_at, hc, hwaits⟩
  have hord : ∀ {i j}, [i, j].Sublist (o ++ s) → Before ts i j := fun hsub =>
    List.pairwise_iff_forall_sublist.mp h.ordered hsub
  refine ⟨?_, ?_, hmem, fun i j hij hi hj => ?_, fun i j hij hi hj => ?_⟩
  · rw [List.map_append, List.map_append, hout, hs.posted hops]
  · refine h.ordered.imp_of_mem fun ha hb hab => ?_
    rintro rfl
    rcases hab ((hmem _).mp ha) ((hmem _).mp hb) with hlt | hlt
    · exact Nat.lt_irrefl _ hlt.1
    · exact Nat.lt_irrefl _ hlt.1
  · have hi' := (hmem i).mpr (Or.inl hi)
    rcases sublist_or_sublist hi' hj (Nat.ne_of_lt hij) with hsub | hsub
    · exact hsub
    · rcases hord hsub ((hmem j).mp hj) (Or.inl hi) with hlt | ⟨-, hop, -⟩
      · exact absurd hlt.1 (Nat.lt_asymm hij)
      · obtain ⟨t, ht, ho⟩ := hi
        rw [at_iff ht, (Token.of_isOperand ho).1] at hop
        cases hop
  · have hi' := (hmem i).mpr (Or.inr hi)
    constructor
    · intro hsub
      rcases hord hsub (Or.inr hi) ((hmem j).mp hj) with ⟨-, hfreed⟩ | hlt
      · obtain ⟨k, hkj, hk⟩ := hfreed hi
        obtain ⟨hik, hr⟩ := (freed_iff hw hi).mp hk
        exact ⟨k, hik, hkj, hr⟩
      · exact absurd hlt.1 (Nat.lt_asymm hij)
    · rintro ⟨k, hik, hkj, hr⟩
      rcases sublist_or_sublist hi' hj (Nat.ne_of_lt hij) with hsub | hsub
      · exact hsub
      · rcases hord hsub ((hmem j).mp hj) (Or.inr hi) with hlt | ⟨-, -, hnot⟩
        · exact absurd hlt.1 (Nat.lt_asymm hij)
        · exact absurd ((freed_iff hw hi).mpr ⟨hik, hr⟩) (hnot k hkj)

/-- Well-nested tokens are converted, and the output is arranged by what releases each operator. -/
theorem convert_arranged (hk : Known ts) (hw : WellNested ts) :
    ∃ rpn order, Conversion.convert .recover ts = .ok rpn ∧ Arranged ts rpn.tokens order := by
  obtain ⟨out, w, o, s, hrun, hsnap, hshows, hout⟩ := Conversion.exists_snapshot hk hw (Nat.le_refl ts.length)
  rw [List.take_length] at hrun
  have hnone : ∀ t ∈ w, t.isLeftParen = false := by
    intro t ht
    obtain ⟨i, hi, hti⟩ := hshows.exists_index ht
    exact (Token.of_isOperator ((at_iff hti).mp (Conversion.operator_of_snapshot hw hsnap i hi))).2.1
  exact ⟨out ++ ⟨w, []⟩, o ++ s, Conversion.convert_of_run hrun hnone, hsnap.arranged hw hout hshows⟩

/-- An expression with operands side by side, an operator without its operands, and a word without a value. -/
def juxtaposed : String :=
  "2 (3 * x +) - pi"

theorem convert_arranged_juxtaposed :
    Known (tokenize juxtaposed) ∧ WellNested (tokenize juxtaposed) ∧
      ∃ rpn order, Conversion.convert .recover (tokenize juxtaposed) = .ok rpn ∧
        Arranged (tokenize juxtaposed) rpn.tokens order := by
  have hw : WellNested (tokenize juxtaposed) := by decide +kernel
  exact ⟨known_tokenize juxtaposed, hw, convert_arranged (known_tokenize juxtaposed) hw⟩

end InfixCalculator
