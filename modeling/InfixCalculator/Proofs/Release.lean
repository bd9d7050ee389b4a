import InfixCalculator.Proofs.Nesting

/-!
# When an operator stops waiting

- `Releases ts i k`: the token at `k` closes the innermost group around `i`, or it is an operator in the same group that
  does not bind more tightly than the one at `i`;
- `Freed ts i k`: the same in terms of depths, by `freed_iff`;
- `Waits ts n i`: after the first `n` tokens the token at `i` waits, for its group is open, or it is an operator that
  nothing has released; `Waits.inside`: its own group is open.
-/

namespace InfixCalculator

/-- At both indices stand operators, and the second is at least as high in precedence. -/
def Yields (ts : List Token) (i k : Nat) : Prop :=
  ∃ s t a b, ts[i]? = some s ∧ ts[k]? = some t ∧ s.operator? = some a ∧ t.operator? = some b ∧ a.level ≤ b.level

/-- The token at the second index releases the operator at the first: it closes the innermost group around it, or it is
an operator in the same group that is at least as high in precedence. -/
def Releases (ts : List Token) (i k : Nat) : Prop :=
  (∃ l, Innermost ts l k i) ∨ (Yields ts i k ∧ SameGroup ts i k)

/-- What releases an operator comes after it, when its group is still open, and is a right parenthesis or an operator
to which it yields. -/
def Freed (ts : List Token) (i k : Nat) : Prop :=
  i < k ∧ Inside ts i k ∧ (At ts k Token.isRightParen ∨ Yields ts i k)

/-- After the first tokens the one at the index waits: a left parenthesis whose group is open, or an operator that has
not been released. -/
def Waits (ts : List Token) (n i : Nat) : Prop :=
  i < n ∧ ((At ts i Token.isLeftParen ∧ ∀ m, i < m → m ≤ n → depth ts i < depth ts m) ∨
    (At ts i Token.isOperator ∧ ∀ k, k < n → ¬Freed ts i k))

variable {ts : List Token}

/-! ## Kinds of tokens at an index -/

theorem not_left_of_operator {i : Nat} (h : At ts i Token.isOperator) : ¬At ts i Token.isLeftParen := by
  obtain ⟨t, ht, ho⟩ := h
  simp [at_iff ht, Token.of_isOperator ho]

theorem not_right_of_operator {i : Nat} (h : At ts i Token.isOperator) : ¬At ts i Token.isRightParen := by
  obtain ⟨t, ht, ho⟩ := h
  simp [at_iff ht, Token.of_isOperator ho]

theorem depth_succ_operator {i : Nat} (h : At ts i Token.isOperator) : depth ts (i + 1) = depth ts i := by
  obtain ⟨t, ht, ho⟩ := h
  exact depth_succ_of_not_paren ht (by simp [Token.isParen, Token.of_isOperator ho])

theorem Yields.operator {i k : Nat} (h : Yields ts i k) : At ts k Token.isOperator := by
  obtain ⟨s, t, a, b, -, ht, -, hb, -⟩ := h
  exact ⟨t, ht, Token.isOperator_of_operator? hb⟩

/-- An operator that does not yield binds more tightly than those that do. -/
theorem Yields.of_not_yields (hk : Known ts) {i j k : Nat} (h : Yields ts i k) (hj : At ts j Token.isOperator)
    (hjk : ¬Yields ts j k) : Yields ts i j := by
  obtain ⟨s, t, a, b, hs, ht, ha, hb, hab⟩ := h
  obtain ⟨u, hu, ho⟩ := hj
  obtain ⟨c, hc⟩ := hk u (List.mem_of_getElem? hu) ho
  have hbc : b.level < c.level := Nat.lt_of_not_le fun hcb => hjk ⟨u, t, c, b, hu, ht, hc, hb, hcb⟩
  exact ⟨s, u, a, c, hs, hu, ha, hc, by omega⟩

/-! ## Release -/

/-- The token that releases an operator can be told from the depths. -/
theorem freed_iff (hw : WellNested ts) {i k : Nat} (hi : At ts i Token.isOperator) :
    Freed ts i k ↔ i < k ∧ Releases ts i k := by
  have hl := not_left_of_operator hi
  have hr := not_right_of_operator hi
  constructor
  · rintro ⟨hik, hin, hk | hk⟩
    · exact ⟨hik, Or.inl ((closes_iff hw hr hik).mpr ⟨hk, hin⟩)⟩
    · have hlen := lt_length_of_at hk.operator
      exact ⟨hik, Or.inr ⟨hk, (sameGroup_iff hw hik hlen hl hr (not_right_of_operator hk.operator)).mpr hin⟩⟩
  · rintro ⟨hik, hk | ⟨hk, hs⟩⟩
    · obtain ⟨hright, hin⟩ := (closes_iff hw hr hik).mp hk
      exact ⟨hik, hin, Or.inl hright⟩
    · have hlen := lt_length_of_at hk.operator
      exact ⟨hik, (sameGroup_iff hw hik hlen hl hr (not_right_of_operator hk.operator)).mp hs, Or.inr hk⟩

/-! ## Waiting -/

theorem Waits.of_succ {n i : Nat} (h : Waits ts (n + 1) i) (hi : i < n) : Waits ts n i := by
  obtain ⟨-, ⟨hl, ho⟩ | ⟨hop, hf⟩⟩ := h
  · exact ⟨hi, Or.inl ⟨hl, fun m hm hmn => ho m hm (by omega)⟩⟩
  · exact ⟨hi, Or.inr ⟨hop, fun k hk => hf k (by omega)⟩⟩

/-- A left parenthesis or an operator waits at first. -/
theorem waits_self {n : Nat} (h : At ts n Token.isLeftParen ∨ At ts n Token.isOperator) : Waits ts (n + 1) n := by
  refine ⟨Nat.lt_succ_self n, h.imp (fun hl => ⟨hl, fun m hm hmn => ?_⟩) fun ho => ⟨ho, fun k hk hf => ?_⟩⟩
  · obtain rfl : m = n + 1 := by omega
    rw [depth_succ_left hl]
    omega
  · have := hf.1
    omega

/-- Inside a group, its left parenthesis waits, and it was the last to take the depth up. -/
theorem exists_waits_left {n : Nat} (hn : n ≤ ts.length) (h : 0 < depth ts n) :
    ∃ l, At ts l Token.isLeftParen ∧ Waits ts n l ∧ depth ts n = depth ts l + 1 ∧
      ∀ m, l < m → m ≤ n → depth ts n ≤ depth ts m := by
  obtain ⟨l, hl, hat, heq, hin⟩ := exists_open (show 0 ≤ depth ts n - 1 by omega) hn (by omega)
  refine ⟨l, hat, ⟨hl, Or.inl ⟨hat, fun m hm hmn => heq ▸ hin m hm hmn⟩⟩, by omega, fun m hm hmn => ?_⟩
  have := hin m hm hmn
  omega

theorem Waits.not_freed {n i k : Nat} (h : Waits ts n i) (hi : At ts i Token.isOperator) (hk : k < n) :
    ¬Freed ts i k := by
  obtain ⟨-, ⟨hl, -⟩ | ⟨-, hf⟩⟩ := h
  · exact absurd hl (not_left_of_operator hi)
  · exact hf k hk

theorem Waits.above {n i : Nat} (h : Waits ts n i) (hi : At ts i Token.isLeftParen) {m : Nat} (hm : i < m)
    (hmn : m ≤ n) : depth ts i < depth ts m := by
  obtain ⟨-, ⟨-, ho⟩ | ⟨hop, -⟩⟩ := h
  · exact ho m hm hmn
  · exact absurd hi (not_left_of_operator hop)

/-- While an operator waits, the depth does not fall below its own. -/
theorem Waits.inside {n i : Nat} (hn : n ≤ ts.length) (h : Waits ts n i) (hi : At ts i Token.isOperator) {m : Nat}
    (hm : i < m) (hmn : m ≤ n) : depth ts i ≤ depth ts m := by
  -- The first right parenthesis to go below would have released it.
  induction m using Nat.strongRecOn with
  | ind m ih =>
    obtain ⟨k, rfl⟩ : ∃ k, m = k + 1 := ⟨m - 1, by omega⟩
    rcases Nat.eq_or_lt_of_le (Nat.le_of_lt_succ hm) with rfl | hik
    · exact Int.le_of_eq (depth_succ_operator hi).symm
    · have hprev := ih k (by omega) hik (by omega)
      by_cases hfall : depth ts (k + 1) < depth ts k
      · obtain ⟨hright, heq⟩ := right_of_lt_depth (show k < ts.length by omega) hfall
        by_cases hlow : depth ts k = depth ts i
        · have hin : Inside ts i k := ⟨hlow, fun j hj hjk => ih j (by omega) hj (by omega)⟩
          exact absurd ⟨hik, hin, Or.inl hright⟩ (h.not_freed hi (by omega))
        · omega
      · omega

/-- What waits goes on waiting unless the next token closes its group, or releases it. -/
theorem Waits.next {n i : Nat} (h : Waits ts n i)
    (hleft : At ts i Token.isLeftParen → depth ts i < depth ts (n + 1))
    (hop : At ts i Token.isOperator → ¬Freed ts i n) : Waits ts (n + 1) i := by
  obtain ⟨hin, ⟨hl, hopen⟩ | ⟨ho, hf⟩⟩ := h
  · refine ⟨Nat.lt_succ_of_lt hin, Or.inl ⟨hl, fun m hm hmn => ?_⟩⟩
    rcases Nat.lt_or_eq_of_le hmn with hlt | rfl
    · exact hopen m hm (by omega)
    · exact hleft hl
  · refine ⟨Nat.lt_succ_of_lt hin, Or.inr ⟨ho, fun k hk hfreed => ?_⟩⟩
    rcases Nat.lt_or_eq_of_le (Nat.le_of_lt_succ hk) with hlt | rfl
    · exact hf k hlt hfreed
    · exact hop ho hfreed

/-- What neither closes a group nor is an operator lets everything wait. -/
theorem Waits.succ {n i : Nat} (h : Waits ts n i) {t : Token} (ht : ts[n]? = some t) (hr : t.isRightParen = false)
    (ho : t.isOperator = false) : Waits ts (n + 1) i := by
  have hgrow : depth ts n ≤ depth ts (n + 1) := by
    rw [depth_succ ht, hr]
    split
    · omega
    · simp
  refine h.next (fun hl => Int.lt_of_lt_of_le (h.above hl h.1 (Nat.le_refl n)) hgrow) fun _ hfreed => ?_
  rcases hfreed.2.2 with hright | hy
  · rw [at_iff ht, hr] at hright
    cases hright
  · have hop := hy.operator
    rw [at_iff ht, ho] at hop
    cases hop

end InfixCalculator
